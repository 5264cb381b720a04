import RpcPlane.Health
import RpcPlane.Outcome

/-! The shared health state of all providers: a health record and a token bucket for each,
and the snapshots and peeks that routing reads from them. -/

namespace RpcPlane

def seconds (ns : Nat) : ℚ := ns / 1000000000

theorem seconds_nonneg (ns : Nat) : 0 ≤ seconds ns :=
  div_nonneg (Nat.cast_nonneg ns) (by decide)

structure TokenBucket where
  tokens : ℚ
  capacity : ℚ
  rate : ℚ
  last : Instant
  rate_nonneg : 0 ≤ rate
  tokens_nonneg : 0 ≤ tokens
  tokens_le : tokens ≤ capacity

def TokenBucket.new (maxRps : Nat) (now : Instant) : TokenBucket where
  tokens := maxRps
  capacity := maxRps
  rate := maxRps
  last := now
  rate_nonneg := Nat.cast_nonneg maxRps
  tokens_nonneg := Nat.cast_nonneg maxRps
  tokens_le := le_rfl

def TokenBucket.refill (b : TokenBucket) (now : Instant) : TokenBucket :=
  if b.last < now then
    { b with
      tokens := min (b.tokens + seconds (now - b.last) * b.rate) b.capacity
      last := now
      tokens_nonneg := le_min
        (add_nonneg b.tokens_nonneg (mul_nonneg (seconds_nonneg _) b.rate_nonneg))
        (le_trans b.tokens_nonneg b.tokens_le)
      tokens_le := min_le_right _ _ }
  else b

def TokenBucket.tryAcquire (b : TokenBucket) (now : Instant) : Bool × TokenBucket :=
  let b := b.refill now
  if h : 1 ≤ b.tokens then
    (true, { b with
      tokens := b.tokens - 1
      tokens_nonneg := sub_nonneg.mpr h
      tokens_le := le_trans (sub_le_self _ zero_le_one) b.tokens_le })
  else (false, b)

def TokenBucket.hasCapacity (b : TokenBucket) (now : Instant) : Bool × TokenBucket :=
  (decide (1 ≤ (b.refill now).tokens), b.refill now)

structure ProviderEntry where
  health : ProviderHealth
  limiter : Option TokenBucket

def ProviderEntry.new (p : ProviderConfig) (now : Instant) : ProviderEntry :=
  ⟨⟨p.name, {}⟩, p.maxRps.map (TokenBucket.new · now)⟩

def ProviderEntry.name (e : ProviderEntry) : String := e.health.name

def ProviderEntry.snapshot (e : ProviderEntry) (tips : TipSource) (cfg : HealthConfig)
    (now : Instant) : HealthSnapshot :=
  { e.health.snapshot tips cfg with
    rateLimited := e.limiter.any (fun b => !(b.hasCapacity now).1) }

def ProviderEntry.peeked (e : ProviderEntry) (now : Instant) : ProviderEntry :=
  { e with limiter := e.limiter.map (fun b => (b.hasCapacity now).2) }

def ProviderEntry.mapInner (f : Inner → Inner) (e : ProviderEntry) : ProviderEntry :=
  { e with health := { e.health with inner := f e.health.inner } }

def ProviderEntry.updateSlotsInRound (slots : CommitmentSlots) (round : Option Nat)
    (e : ProviderEntry) : ProviderEntry :=
  { e with health := e.health.updateSlotsInRound slots round }

/-- `entries` is in the iteration order of the source's map. -/
structure Monitor where
  entries : List ProviderEntry
  referenceSlots : CommitmentSlots := {}
  roundTips : RoundTips := fun _ => none

def Monitor.new (providers : List ProviderConfig) (now : Instant) : Monitor where
  entries := providers.map (ProviderEntry.new · now)

/-- `insert` into the map: a provider of that name is replaced. -/
def Monitor.addProvider (m : Monitor) (p : ProviderConfig) (now : Instant) : Monitor :=
  { m with entries := m.entries.filter (·.name != p.name) ++ [ProviderEntry.new p now] }

def Monitor.removeProvider (m : Monitor) (name : String) : Monitor :=
  { m with entries := m.entries.filter (·.name != name) }

def Monitor.names (m : Monitor) : List String := m.entries.map ProviderEntry.name

def Monitor.entry (m : Monitor) (name : String) : Option ProviderEntry :=
  m.entries.find? (·.name == name)

def Monitor.update (m : Monitor) (name : String) (f : ProviderEntry → ProviderEntry) : Monitor :=
  { m with entries := updateKey ProviderEntry.name name f m.entries }

def Monitor.tryAcquire (m : Monitor) (name : String) (now : Instant) : Bool × Monitor :=
  match (m.entry name).bind (·.limiter) with
  | some bucket =>
    let acquired := bucket.tryAcquire now
    (acquired.1, m.update name (fun e => { e with limiter := some acquired.2 }))
  | none => (true, m)

def Monitor.record (m : Monitor) (name : String) (now : Instant) (success : Bool)
    (latencyMs : ℚ) (isProbe : Bool) (cfg : HealthConfig) : Monitor :=
  m.update name (.mapInner (·.record now success latencyMs isProbe cfg))

def Monitor.recordThrottled (m : Monitor) (name : String) (now : Instant) (latencyMs : ℚ)
    (cfg : HealthConfig) : Monitor :=
  m.update name (.mapInner (·.recordThrottled now latencyMs cfg))

def Monitor.recordOutcome (m : Monitor) (name : String) (now : Instant) (outcome : Outcome)
    (latencyMs : ℚ) (cfg : HealthConfig) : Monitor :=
  match outcome with
  | .ok => m.record name now true latencyMs false cfg
  | .providerError => m.record name now false latencyMs false cfg
  | .rateLimited => m.recordThrottled name now latencyMs cfg
  | .clientError | .miss | .behind | .unsupported => m

structure ProbeResult where
  slots : CommitmentSlots
  processedLatencyMs : ℚ

inductive ProbeEnd where
  | ok (res : ProbeResult) (round : Option Nat)
  | rateLimited (latencyMs : ℚ)
  | failed (latencyMs : ℚ)

def Monitor.observeRound (m : Monitor) (slots : CommitmentSlots) (round : Option Nat) : Monitor :=
  match round with
  | some r => { m with roundTips := m.roundTips.observe r slots }
  | none => m

def Monitor.probed (m : Monitor) (name : String) (now : Instant) (cfg : HealthConfig) :
    ProbeEnd → Monitor
  | .ok res round =>
    ((m.observeRound res.slots round).update name (.updateSlotsInRound res.slots round)).record
      name now true res.processedLatencyMs true cfg
  | .rateLimited latencyMs => m.recordThrottled name now latencyMs cfg
  | .failed latencyMs => m.record name now false latencyMs true cfg

def Monitor.referenceProbed (m : Monitor) (slots : CommitmentSlots) (round : Option Nat) :
    Monitor :=
  { m.observeRound slots round with referenceSlots := m.referenceSlots.merge slots }

def Monitor.tips (m : Monitor) : SlotTips :=
  let tips : SlotTips := m.entries.foldl (fun t e => t.observe e.health.inner.slots) {}
  tips.observe m.referenceSlots

def Monitor.observedTips (m : Monitor) : CommitmentSlots :=
  let tips : CommitmentSlots := m.entries.foldl (fun t e => t.observeMax e.health.inner.slots) {}
  let tips := tips.observeMax m.referenceSlots
  if tips.confirmed.isNone then { tips with confirmed := tips.finalized } else tips

def Monitor.snapshots (m : Monitor) (now : Instant) (cfg : HealthConfig) : List HealthSnapshot :=
  m.entries.map (·.snapshot (TipBook.tip ⟨m.tips, m.roundTips⟩) cfg now)

/-- `snapshots_with_tips`, with the monitor whose buckets the peek has refilled. -/
def Monitor.snapshotsWithTips (m : Monitor) (now : Instant) (cfg : HealthConfig) :
    List HealthSnapshot × CommitmentSlots × Monitor :=
  (m.snapshots now cfg, m.observedTips, { m with entries := m.entries.map (·.peeked now) })

section

variable (m : Monitor) (name : String) (now : Instant) (cfg : HealthConfig)

theorem Monitor.update_names {f : ProviderEntry → ProviderEntry} (hf : ∀ e, (f e).name = e.name) :
    (m.update name f).names = m.names :=
  map_key_updateKey hf name m.entries

@[simp] theorem Monitor.tryAcquire_names : (m.tryAcquire name now).2.names = m.names := by
  unfold tryAcquire
  cases (m.entry name).bind (·.limiter) with
  | none => rfl
  | some bucket => exact m.update_names name (fun _ => rfl)

@[simp] theorem Monitor.record_names (success : Bool) (latencyMs : ℚ) (isProbe : Bool) :
    (m.record name now success latencyMs isProbe cfg).names = m.names :=
  m.update_names name (fun _ => rfl)

@[simp] theorem Monitor.recordThrottled_names (latencyMs : ℚ) :
    (m.recordThrottled name now latencyMs cfg).names = m.names :=
  m.update_names name (fun _ => rfl)

@[simp] theorem Monitor.recordOutcome_names (outcome : Outcome) (latencyMs : ℚ) :
    (m.recordOutcome name now outcome latencyMs cfg).names = m.names := by
  cases outcome <;> simp [recordOutcome]

@[simp] theorem Monitor.observeRound_names (slots : CommitmentSlots) (round : Option Nat) :
    (m.observeRound slots round).names = m.names := by
  cases round <;> rfl

@[simp] theorem Monitor.probed_names (result : ProbeEnd) :
    (m.probed name now cfg result).names = m.names := by
  cases result with
  | ok res round =>
    rw [probed, record_names]
    exact ((m.observeRound res.slots round).update_names name
      (f := .updateSlotsInRound res.slots round) (fun _ => rfl)).trans
      (m.observeRound_names res.slots round)
  | rateLimited latencyMs => simp [probed]
  | failed latencyMs => simp [probed]

@[simp] theorem Monitor.referenceProbed_names (slots : CommitmentSlots) (round : Option Nat) :
    (m.referenceProbed slots round).names = m.names :=
  m.observeRound_names slots round

@[simp] theorem Monitor.snapshotsWithTips_names :
    (m.snapshotsWithTips now cfg).2.2.names = m.names := by
  simp only [snapshotsWithTips, names, List.map_map]
  rfl

theorem Monitor.snapshots_names : (m.snapshots now cfg).map (·.name) = m.names := by
  simp only [snapshots, names, List.map_map]
  rfl

end

end RpcPlane
