import RpcPlane.CircuitRuns
import RpcPlane.Interleaving
import RpcPlane.Standing

/-! The proxy seen from one provider: what each step does to the entry of a name. -/

namespace RpcPlane

/-- An operation on one entry, with the time that it reads. -/
inductive EntryOp where
  | peek (now : Instant)
  | acquire (now : Instant)
  | slots (slots : CommitmentSlots) (round : Option Nat)
  | call (c : RecordCall)

def EntryOp.call? : EntryOp → Option RecordCall
  | .call c => some c
  | _ => none

def ProviderEntry.acquired (e : ProviderEntry) (now : Instant) : ProviderEntry :=
  { e with limiter := e.limiter.map (fun b => (b.tryAcquire now).2) }

def ProviderEntry.after (cfg : HealthConfig) (e : ProviderEntry) : EntryOp → ProviderEntry
  | .peek now => e.peeked now
  | .acquire now => e.acquired now
  | .slots slots round => e.updateSlotsInRound slots round
  | .call c => e.mapInner (·.recordCall c cfg)

def ProviderEntry.run (cfg : HealthConfig) (e : ProviderEntry) (ops : List EntryOp) : ProviderEntry :=
  ops.foldl (ProviderEntry.after cfg) e

/-- The sample that `OutcomeRecorder::record` feeds to the health of the provider. -/
def Outcome.sample : Outcome → Option Sample
  | .ok => some .success
  | .providerError => some .failure
  | .rateLimited => some .throttle
  | .clientError | .miss | .behind | .unsupported => none

def RecordedLeg.call (leg : RecordedLeg) (now : Instant) : Option RecordCall :=
  leg.outcome.sample.map (fun sample => ⟨now, sample, leg.latencyMs, false⟩)

def RecordedLeg.ops (now : Instant) (k : String) (leg : RecordedLeg) : List EntryOp :=
  if leg.provider = k then (leg.call now).toList.map .call else []

def ProbeEnd.ops (now : Instant) : ProbeEnd → List EntryOp
  | .ok res round =>
    [.slots res.slots round, .call ⟨now, .success, res.processedLatencyMs, true⟩]
  | .rateLimited latencyMs => [.call ⟨now, .throttle, latencyMs, true⟩]
  | .failed latencyMs => [.call ⟨now, .failure, latencyMs, true⟩]

/-- The provider whose bucket a dispatch asks for a token. -/
def Phase.tries (config : Config) (client : String → Bool) : Phase → Option String
  | .sequence _ _ max (name :: _) l =>
    match candidate config client max l name with
    | .reach p => if p.maxRps.isSome then some name else none
    | _ => none
  | .spawning _ _ (name :: _) _ =>
    match config.provider name with
    | some p => if client name && p.maxRps.isSome then some name else none
    | none => none
  | _ => none

/-- The leg that a move records with `OutcomeRecorder::record`. -/
def Phase.recorded (config : Config) : Phase → Move → Option RecordedLeg
  | .waiting ctx _ max name provider rest l, .answer leg =>
    some ⟨ctx.method, name, (receive config ctx max l name provider rest leg.result).1,
      leg.latencyMs, ctx.count⟩
  | .racing ctx pending _, .complete name (some leg) =>
    (pending.find? (·.name == name)).map (fun spawned =>
      ⟨ctx.method, name, leg.outcome ctx.historyLookup spawned.provider, leg.latencyMs, ctx.count⟩)
  | .answered _ ctx pending, .complete name (some leg) =>
    (pending.find? (·.name == name)).map (fun spawned =>
      ⟨ctx.method, name, leg.outcome ctx.historyLookup spawned.provider, leg.latencyMs, ctx.count⟩)
  | _, _ => none

def Phase.ops (config : Config) (client : String → Bool) (now : Instant) (k : String)
    (phase : Phase) : Move → List EntryOp
  | .snapshot => [.peek now]
  | .dispatch => if phase.tries config client = some k then [.acquire now] else []
  | move => (phase.recorded config move).elim [] (·.ops now k)

def Sys.ops (config : Config) (client : String → Bool) (k : String) (s : Sys) :
    Event → List EntryOp
  | .move i move =>
    match s.requests[i]? with
    | some r => r.phase.ops config client s.now k move
    | none => []
  | .probe name result => if name = k then result.ops s.now else []
  | _ => []

/-- The operation reads the time `now`, if it reads any. -/
def EntryOp.At (now : Instant) : EntryOp → Prop
  | .peek t => t = now
  | .acquire t => t = now
  | .slots _ _ => True
  | .call c => c.time = now

variable {config : Config} {client : String → Bool}

theorem ProviderEntry.acquired_of_none (e : ProviderEntry) (now : Instant) (h : e.limiter = none) :
    e.acquired now = e := by
  obtain ⟨health, limiter⟩ := e
  obtain rfl : limiter = none := h
  rfl

section monitor

variable (m : Monitor) (name k : String) (now : Instant) (cfg : HealthConfig)

/-- What operations on the entry of `k` make of the monitor, as far as `k` shows. -/
def Monitor.Takes (cfg : HealthConfig) (k : String) (m m' : Monitor) (ops : List EntryOp) : Prop :=
  m'.entry k = (m.entry k).map (·.run cfg ops)

variable {cfg k}

theorem Monitor.Takes.refl : m.Takes cfg k m [] := by
  simp [Takes, ProviderEntry.run]

theorem Monitor.Takes.trans {m m' m'' : Monitor} {ops ops' : List EntryOp} (h : m.Takes cfg k m' ops)
    (h' : m'.Takes cfg k m'' ops') : m.Takes cfg k m'' (ops ++ ops') := by
  rw [Takes] at h h' ⊢
  rw [h', h, Option.map_map]
  refine congrArg (fun g => (m.entry k).map g) (funext fun e => ?_)
  exact (List.foldl_append ..).symm

theorem Monitor.Takes.update {f : ProviderEntry → ProviderEntry} {op : EntryOp}
    (hname : ∀ e, (f e).name = e.name) (hf : ∀ e, f e = e.after cfg op) :
    m.Takes cfg k (m.update name f) (if name = k then [op] else []) := by
  by_cases hk : name = k
  · rw [Takes, m.entry_update name k hname, if_pos hk, if_pos hk]
    exact congrArg (fun g => (m.entry k).map g) (funext hf)
  · rw [if_neg hk, Takes, m.entry_update name k hname, if_neg hk]
    exact Takes.refl m

theorem Monitor.Takes.tryAcquire :
    m.Takes cfg k (m.tryAcquire name now).2 (if name = k then [.acquire now] else []) := by
  by_cases hk : name = k
  · rw [if_pos hk, Takes]
    cases hb : (m.entry name).bind (·.limiter) with
    | none =>
      simp only [Monitor.tryAcquire, hb]
      cases he : m.entry k with
      | none => rfl
      | some e =>
        have hl : e.limiter = none := by simpa [hk, he] using hb
        exact congrArg some (e.acquired_of_none now hl).symm
    | some b =>
      obtain ⟨e, he, hl⟩ := Option.bind_eq_some_iff.mp hb
      simp only [Monitor.tryAcquire, hb]
      rw [m.entry_update name k
        (f := fun e => { e with limiter := some (b.tryAcquire now).2 }) (fun _ => rfl), if_pos hk,
        ← hk, he]
      simp [ProviderEntry.run, ProviderEntry.after, ProviderEntry.acquired, hl]
  · rw [if_neg hk, Takes]
    unfold Monitor.tryAcquire
    split
    · rename_i b _
      have hb := m.entry_update name k (f := fun e => { e with limiter := some (b.tryAcquire now).2 })
        (fun _ => rfl)
      rw [if_neg hk] at hb
      exact hb.trans (Takes.refl m)
    · exact Takes.refl m

theorem Monitor.Takes.recordOutcome (leg : RecordedLeg) :
    m.Takes cfg k (m.recordOutcome leg.provider now leg.outcome leg.latencyMs cfg)
      (leg.ops now k) := by
  obtain ⟨method, provider, outcome, latencyMs, count⟩ := leg
  cases outcome with
  | ok => exact .update m provider (fun _ => rfl) (fun _ => rfl)
  | providerError => exact .update m provider (fun _ => rfl) (fun _ => rfl)
  | rateLimited => exact .update m provider (fun _ => rfl) (fun _ => rfl)
  | clientError | miss | behind | unsupported =>
    simpa [RecordedLeg.ops, RecordedLeg.call, Outcome.sample, Monitor.recordOutcome] using Takes.refl m

theorem Monitor.Takes.observeRound (slots : CommitmentSlots) (round : Option Nat) :
    m.Takes cfg k (m.observeRound slots round) [] := by
  cases round <;> exact Takes.refl m

theorem Monitor.Takes.probed (result : ProbeEnd) :
    m.Takes cfg k (m.probed name now cfg result) (if name = k then result.ops now else []) := by
  cases result with
  | ok res round =>
    let m' := m.observeRound res.slots round
    let m'' := m'.update name (.updateSlotsInRound res.slots round)
    have hround : m.Takes cfg k m' [] := .observeRound m res.slots round
    have hslots : m'.Takes cfg k m'' (if name = k then [.slots res.slots round] else []) :=
      .update m' name (fun _ => rfl) (fun _ => rfl)
    have hcall : m''.Takes cfg k (m.probed name now cfg (.ok res round))
        (if name = k then [.call ⟨now, .success, res.processedLatencyMs, true⟩] else []) :=
      .update m'' name (fun _ => rfl) (fun _ => rfl)
    have hall := (hround.trans hslots).trans hcall
    by_cases hk : name = k
    · simpa [hk, ProbeEnd.ops] using hall
    · simpa [hk] using hall
  | rateLimited latencyMs => exact .update m name (fun _ => rfl) (fun _ => rfl)
  | failed latencyMs => exact .update m name (fun _ => rfl) (fun _ => rfl)

theorem Monitor.Takes.snapshotsWithTips :
    m.Takes cfg k (m.snapshotsWithTips now cfg).2.2 [.peek now] := by
  rw [Takes, entry]
  exact List.find?_map

theorem Monitor.Takes.passGate (provider : ProviderConfig) (rateGate : Bool) :
    m.Takes cfg k (m.passGate name provider now rateGate).2
      (if provider.maxRps.isSome ∧ name = k then [.acquire now] else []) := by
  unfold Monitor.passGate
  cases provider.maxRps.isSome with
  | true => simpa using Takes.tryAcquire m name now
  | false => simpa using Takes.refl m

end monitor

section step

variable {m : Monitor} {k : String} {now : Instant} {cfg : HealthConfig} {ctx : RequestCtx}
  {rateGate : Bool} {max : Nat}

theorem sequenceRound_takes (names : List String) (l : Loop) :
    m.Takes cfg k (sequenceRound config client now m ctx rateGate max names l).2.2
      (if (Phase.sequence ctx rateGate max names l).tries config client = some k then [.acquire now]
      else []) := by
  cases names with
  | nil => exact .refl m
  | cons name rest =>
    rw [sequenceRound, Phase.tries]
    cases hc : candidate config client max l name with
    | stop => exact .refl m
    | skip => exact .refl m
    | reach provider =>
      have hgate : m.Takes cfg k (m.passGate name provider now rateGate).2 _ :=
        .passGate m name now provider rateGate
      dsimp only
      split
      · simpa using hgate
      · simpa using hgate

theorem spawnRound_takes (names : List String) (spawned : List BroadcastLeg) :
    m.Takes cfg k (spawnRound config client now m ctx rateGate names spawned).2.2
      (if (Phase.spawning ctx rateGate names spawned).tries config client = some k then
        [.acquire now]
      else []) := by
  cases names with
  | nil => exact .refl m
  | cons name rest =>
    rw [spawnRound, Phase.tries]
    cases hp : config.provider name with
    | none => exact .refl m
    | some provider =>
      have hgate : m.Takes cfg k (m.passGate name provider now rateGate).2 _ :=
        .passGate m name now provider rateGate
      cases hclient : client name with
      | false => simpa [hclient] using Monitor.Takes.refl m
      | true =>
        dsimp only
        simp only [Bool.not_true, Bool.false_eq_true, if_false]
        split
        · simpa using hgate
        · simpa using hgate

theorem Phase.dispatch_takes {phase : Phase} {round : Round}
    (h : phase.dispatch config client now m = some round) :
    m.Takes cfg k round.2.2 (phase.ops config client now k .dispatch) := by
  unfold dispatch at h
  split at h
  · obtain rfl := Option.some.inj h
    exact sequenceRound_takes _ _
  · obtain rfl := Option.some.inj h
    exact spawnRound_takes _ _
  · obtain rfl := Option.some.inj h
    exact .refl m
  · cases h

theorem Phase.answer_takes {phase : Phase} {leg : Leg} {next : Phase × Monitor}
    (h : phase.answer config now m leg = some next) :
    m.Takes config.health k next.2 (phase.ops config client now k (.answer leg)) := by
  unfold answer at h
  split at h
  · rename_i ctx rateGate max name provider rest l
    have hrecord : m.Takes config.health k _ _ := .recordOutcome m now ⟨ctx.method, name,
      (receive config ctx max l name provider rest leg.result).1, leg.latencyMs, ctx.count⟩
    dsimp only at h
    split at h <;> (obtain rfl := Option.some.inj h; exact hrecord)
  · cases h

theorem Phase.complete_takes {phase : Phase} {name : String} {leg : Option Leg}
    {next : Phase × Monitor} (h : phase.complete config now m name leg = some next) :
    m.Takes config.health k next.2 (phase.ops config client now k (.complete name leg)) := by
  unfold complete at h
  split at h
  · rename_i ctx pending best
    split at h
    · cases h
    · obtain rfl := Option.some.inj h
      exact .refl m
    · rename_i spawned leg hf
      obtain rfl := Option.some.inj h
      simp only [ops, recorded, hf, Option.map_some]
      exact Monitor.Takes.recordOutcome m now ⟨ctx.method, name,
        leg.outcome ctx.historyLookup spawned.provider, leg.latencyMs, ctx.count⟩
  · rename_i reply ctx pending
    split at h
    · cases h
    · obtain rfl := Option.some.inj h
      exact .refl m
    · rename_i spawned leg hf
      obtain rfl := Option.some.inj h
      simp only [ops, recorded, hf, Option.map_some]
      exact Monitor.Takes.recordOutcome m now ⟨ctx.method, name,
        leg.outcome ctx.historyLookup spawned.provider, leg.latencyMs, ctx.count⟩
  · cases h

theorem Request.move_takes {r : Request} {move : Move} {next : Request × Monitor}
    (h : r.move config client now m move = some next) :
    m.Takes config.health k next.2 (r.phase.ops config client now k move) := by
  cases move with
  | snapshot =>
    simp only [Request.move] at h
    split at h
    · obtain rfl := Option.some.inj h
      exact .snapshotsWithTips m now
    · cases h
  | route random =>
    simp only [Request.move] at h
    split at h
    · split at h
      · obtain rfl := Option.some.inj h
        simpa [Phase.ops, Phase.recorded] using Monitor.Takes.refl m
      · cases h
    · cases h
  | dispatch =>
    obtain ⟨round, hd, rfl⟩ := Option.map_eq_some_iff.mp h
    exact Phase.dispatch_takes hd
  | answer leg =>
    obtain ⟨next, hn, rfl⟩ := Option.map_eq_some_iff.mp h
    exact Phase.answer_takes hn
  | complete name leg =>
    obtain ⟨next, hn, rfl⟩ := Option.map_eq_some_iff.mp h
    exact Phase.complete_takes hn

end step

/-- Whatever else happens in a step, the entry of `k` takes the operations on `k` alone. -/
theorem Sys.step_takes {s t : Sys} {e : Event} (h : s.step config client e = some t) (k : String) :
    s.monitor.Takes config.health k t.monitor (s.ops config client k e) := by
  cases e with
  | tick ns =>
    obtain rfl := Option.some.inj h
    exact .refl s.monitor
  | arrive body =>
    obtain rfl := Option.some.inj h
    exact .refl s.monitor
  | move i move =>
    rcases step_cases h with ⟨-, hne⟩ | ⟨body, he, -⟩ | ⟨_, _, r, next, he, hr, hn, rfl⟩
    · exact absurd rfl (hne i move)
    · cases he
    · obtain ⟨rfl, rfl⟩ := Event.move.inj he
      simp only [ops, hr]
      exact Request.move_takes hn
  | probe name result =>
    obtain ⟨-, h⟩ := eq_of_guard h
    obtain rfl := Option.some.inj h
    exact .probed s.monitor name s.now result
  | reference slots round =>
    obtain ⟨-, h⟩ := eq_of_guard h
    obtain rfl := Option.some.inj h
    exact .observeRound s.monitor slots round

theorem RecordedLeg.call_time {leg : RecordedLeg} {now : Instant} {c : RecordCall}
    (h : leg.call now = some c) : c.time = now := by
  obtain ⟨sample, -, rfl⟩ := Option.map_eq_some_iff.mp h
  rfl

theorem ProbeEnd.ops_at (result : ProbeEnd) (now : Instant) : ∀ op ∈ result.ops now, op.At now := by
  cases result with
  | ok res round => simp [ops, EntryOp.At]
  | rateLimited latencyMs => simp [ops, EntryOp.At]
  | failed latencyMs => simp [ops, EntryOp.At]

theorem Phase.ops_at (config : Config) (client : String → Bool) (phase : Phase) (now : Instant) (k : String) (move : Move) :
    ∀ op ∈ phase.ops config client now k move, op.At now := by
  intro op hop
  unfold ops at hop
  split at hop
  · obtain rfl := List.mem_singleton.mp hop
    rfl
  · split at hop
    · obtain rfl := List.mem_singleton.mp hop
      rfl
    · cases hop
  · cases hrec : phase.recorded config move with
    | none => simp [hrec] at hop
    | some leg =>
      rw [hrec, Option.elim_some, RecordedLeg.ops] at hop
      split at hop
      · obtain ⟨c, hc, rfl⟩ := List.mem_map.mp hop
        exact RecordedLeg.call_time (Option.mem_toList.mp hc)
      · cases hop

theorem Sys.ops_at (config : Config) (client : String → Bool) (s : Sys) (k : String) (e : Event) :
    ∀ op ∈ s.ops config client k e, op.At s.now := by
  intro op hop
  cases e with
  | tick ns => cases hop
  | arrive body => cases hop
  | reference slots round => cases hop
  | probe name result =>
    simp only [ops] at hop
    split at hop
    · exact result.ops_at s.now op hop
    · cases hop
  | move i move =>
    simp only [ops] at hop
    split at hop
    · exact Phase.ops_at config client _ s.now k move op hop
    · cases hop

theorem Sys.step_now {s t : Sys} {e : Event} (h : s.step config client e = some t) :
    (∃ ns, e = .tick ns ∧ t = { s with now := s.now + ns }) ∨
      t.now = s.now ∧ ∀ ns, e ≠ .tick ns := by
  cases e with
  | tick ns => exact Or.inl ⟨ns, rfl, (Option.some.inj h).symm⟩
  | arrive body =>
    obtain rfl := Option.some.inj h
    exact Or.inr ⟨rfl, by simp⟩
  | move i move =>
    rcases step_cases h with ⟨-, hne⟩ | ⟨body, he, -⟩ | ⟨_, _, r, next, -, -, -, rfl⟩
    · exact absurd rfl (hne i move)
    · cases he
    · exact Or.inr ⟨rfl, by simp⟩
  | probe name result =>
    obtain ⟨-, h⟩ := eq_of_guard h
    obtain rfl := Option.some.inj h
    exact Or.inr ⟨rfl, by simp⟩
  | reference slots round =>
    obtain ⟨-, h⟩ := eq_of_guard h
    obtain rfl := Option.some.inj h
    exact Or.inr ⟨rfl, by simp⟩

theorem run_now {s t : Sys} {es : List Event} (h : (proxy config client).run s es = some t) :
    s.now ≤ t.now := by
  refine System.invariant_run (I := fun u => s.now ≤ u.now) (fun u e v hu h => ?_) le_rfl h
  rcases Sys.step_now h with ⟨ns, -, rfl⟩ | ⟨hnow, -⟩
  · exact hu.trans (Nat.le_add_right u.now ns)
  · exact hnow ▸ hu

theorem proxy_init_entry {s : Sys} {name : String} {p : ProviderConfig}
    (hv : config.validate = .ok ()) (hs : (proxy config client).init s)
    (hp : config.provider name = some p) :
    s.monitor.entry name = some (.new p s.now) := by
  have hnames := Config.validate_names hv
  have hnd : ((config.providers.map (ProviderEntry.new · s.now)).map ProviderEntry.name).Nodup := by
    rw [List.map_map]
    exact hnames
  rw [Monitor.entry, find?_key_perm hs.2 hnd name, List.find?_map]
  exact congrArg (Option.map (ProviderEntry.new · s.now)) hp

end RpcPlane
