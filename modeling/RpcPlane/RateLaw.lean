import RpcPlane.BucketLaw
import RpcPlane.HotReloadLaw
import RpcPlane.Potential
import RpcPlane.ProviderView
import RpcPlane.RateCap

/-! The rate caps over whole runs of the proxy: what all requests together forward to one
provider while the rate gate is on. -/

namespace RpcPlane

def Phase.gated : Phase → Bool
  | .sequence _ rateGate _ _ _ => rateGate
  | .spawning _ rateGate _ _ => rateGate
  | _ => false

/-- The provider that a step forwards to, and whether the rate gate was on. -/
def Sys.forwarded (config : Config) (client : String → Bool) (s : Sys) :
    Event → Option (String × Bool)
  | .move i .dispatch =>
    s.requests[i]?.bind (fun r => (r.phase.dispatch config client s.now s.monitor).bind
      (fun round => round.2.1.map (·, r.phase.gated)))
  | _ => none

/-- The forwards to a provider so far, of all requests. -/
def Sys.forwardsTo (s : Sys) (name : String) : Nat :=
  (s.requests.map (·.forwards.count name)).sum

def forwardsMade (config : Config) (client : String → Bool) (name : String) (gated : Bool)
    (s : Sys) (es : List Event) : Nat :=
  (proxy config client).total
    (fun s e => if s.forwarded config client e = some (name, gated) then 1 else 0) s es

variable {config : Config} {client : String → Bool}

/-! Every forward is counted. -/

theorem Request.move_forwards {r : Request} {move : Move} {now : Instant} {m : Monitor}
    {next : Request × Monitor} (h : r.move config client now m move = some next)
    (hm : move ≠ .dispatch) : next.1.forwards = r.forwards := by
  cases move with
  | snapshot =>
    simp only [Request.move] at h
    split at h
    · obtain rfl := Option.some.inj h
      rfl
    · cases h
  | route random =>
    simp only [Request.move] at h
    split at h
    · split at h
      · obtain rfl := Option.some.inj h
        rfl
      · cases h
    · cases h
  | dispatch => exact absurd rfl hm
  | answer leg =>
    obtain ⟨next, -, rfl⟩ := Option.map_eq_some_iff.mp h
    rfl
  | complete name leg =>
    obtain ⟨next, -, rfl⟩ := Option.map_eq_some_iff.mp h
    rfl

theorem Sys.forwarded_eq_none {s : Sys} {e : Event} (h : ∀ i, e ≠ .move i .dispatch) :
    s.forwarded config client e = none := by
  unfold forwarded
  split
  · exact absurd rfl (h _)
  · rfl

theorem Sys.step_forwards {s t : Sys} {e : Event} (h : s.step config client e = some t)
    (name : String) : t.forwardsTo name = s.forwardsTo name +
      (s.forwarded config client e).toList.countP (·.1 == name) := by
  rcases Sys.step_cases h with ⟨he, hne⟩ | ⟨body, rfl, he⟩ | ⟨i, move, r, next, rfl, hr, hn, rfl⟩
  · rw [forwarded_eq_none (fun i => hne i .dispatch), forwardsTo, he]
    rfl
  · simp [forwardsTo, he, forwarded]
  · have hsum := sum_map_set (·.forwards.count name) hr next.1
    by_cases hm : move = .dispatch
    · subst hm
      obtain ⟨round, hround, rfl⟩ := Option.map_eq_some_iff.mp hn
      simp only [forwarded, hr, hround, Option.bind_some, forwardsTo]
      simp only [List.count_append] at hsum
      cases hsent : round.2.1 with
      | none =>
        simp only [hsent, Option.toList_none, List.count_nil] at hsum
        simp only [Option.map_none, Option.toList_none, List.countP_nil]
        omega
      | some sent =>
        simp only [hsent, Option.toList_some, List.count_singleton] at hsum
        simp only [Option.map_some, Option.toList_some, List.countP_singleton]
        omega
    · have hsame := Request.move_forwards hn hm
      have hnone : s.forwarded config client (.move i move) = none :=
        forwarded_eq_none (fun j hj => hm (Event.move.inj hj).2)
      rw [hsame] at hsum
      rw [hnone]
      simp only [forwardsTo, Option.toList_none, List.countP_nil]
      omega

theorem forwarded_count (o : Option (String × Bool)) (name : String) :
    o.toList.countP (·.1 == name) =
      (if o = some (name, true) then 1 else 0) + (if o = some (name, false) then 1 else 0) := by
  cases o with
  | none => rfl
  | some sent =>
    obtain ⟨n, gated⟩ := sent
    by_cases hn : n = name
    · cases gated <;> simp [hn]
    · simp [hn]

theorem forwardsTo_eq {s t : Sys} {es : List Event} (h : (proxy config client).run s es = some t)
    (name : String) : t.forwardsTo name = s.forwardsTo name +
      (forwardsMade config client name true s es + forwardsMade config client name false s es) := by
  have htotal := System.total_add_eq (I := fun _ => True) (φ := (·.forwardsTo name))
    (f := fun s e => (s.forwarded config client e).toList.countP (·.1 == name)) (g := fun _ _ => 0)
    (fun _ _ _ _ _ => trivial) (fun s e t _ hs => ?_) trivial h
  · simp only [forwarded_count, System.total_add, System.total_zero] at htotal
    simp only [forwardsMade]
    omega
  · have hstep := Sys.step_forwards hs name
    omega

/-! The tokens that the bucket of a provider holds pay for them. -/

def ProviderEntry.heldAt (e : ProviderEntry) (now : Instant) : ℚ :=
  e.limiter.elim 0 (·.heldAt now)

def Sys.held (s : Sys) (name : String) : ℚ := (s.monitor.entry name).elim 0 (·.heldAt s.now)

section entry

variable (e : ProviderEntry) (now : Instant) (cfg : HealthConfig)

theorem TokenBucket.tryAcquire_heldAt (b : TokenBucket) (now : Instant) :
    (if (b.tryAcquire now).1 = true then 1 else 0 : ℚ) + (b.tryAcquire now).2.heldAt now ≤
      b.heldAt now := by
  have hspent := b.answer_add_heldAt_le (c := ⟨now, .tryAcquire⟩)
  simp only [TokenBucket.answer, TokenBucket.after, Option.toList_some, List.count_singleton,
    beq_true] at hspent
  simpa using hspent

theorem ProviderEntry.peeked_heldAt : (e.peeked now).heldAt now = e.heldAt now := by
  cases h : e.limiter with
  | none => simp [peeked, heldAt, h]
  | some b => simp [peeked, heldAt, h, TokenBucket.hasCapacity, TokenBucket.heldAt, b.refill_refill le_rfl]

theorem ProviderEntry.acquired_heldAt :
    (e.acquired now).heldAt now + (if e.limiter.any (fun b => (b.tryAcquire now).1) then 1 else 0) ≤
      e.heldAt now := by
  cases h : e.limiter with
  | none => simp [acquired, heldAt, h]
  | some b =>
    have hb := b.tryAcquire_heldAt now
    simp only [acquired, heldAt, h, Option.map_some, Option.elim_some, Option.any_some]
    rw [add_comm]
    exact hb

theorem ProviderEntry.acquired_caps : (e.acquired now).caps = e.caps := by
  cases h : e.limiter with
  | none => simp [acquired, caps, h]
  | some b =>
    have hb := b.tryAcquire_caps now
    simpa [acquired, caps, h] using hb

theorem ProviderEntry.run_caps (ops : List EntryOp) : (e.run cfg ops).caps = e.caps := by
  induction ops generalizing e with
  | nil => rfl
  | cons op ops ih =>
    refine (ih (e.after cfg op)).trans ?_
    cases op with
    | peek now => exact e.peeked_caps now
    | acquire now => exact e.acquired_caps now
    | slots slots round => rfl
    | call c => rfl

theorem ProviderEntry.run_heldAt {ops : List EntryOp} (h : ∀ op ∈ ops, op.At now) :
    (e.run cfg ops).heldAt now ≤ e.heldAt now := by
  induction ops generalizing e with
  | nil => exact le_rfl
  | cons op ops ih =>
    have hop := h op List.mem_cons_self
    refine (ih (e.after cfg op) (fun o ho => h o (List.mem_cons_of_mem _ ho))).trans ?_
    cases op with
    | peek t =>
      obtain rfl : t = now := hop
      exact (e.peeked_heldAt t).le
    | acquire t =>
      obtain rfl : t = now := hop
      have hspent := e.acquired_heldAt t
      have hnonneg : (0 : ℚ) ≤ if e.limiter.any (fun b => (b.tryAcquire t).1) then 1 else 0 := by
        split <;> simp
      exact (le_add_of_nonneg_right hnonneg).trans hspent
    | slots slots round => exact le_rfl
    | call c => exact le_rfl

end entry

/-- A forward under the gate to a provider with a cap is one that got a token. -/
theorem Phase.dispatch_gated {phase : Phase} {now : Instant} {m : Monitor} {round : Round}
    {name : String} {p : ProviderConfig} (hp : config.provider name = some p)
    (hcap : p.maxRps.isSome = true) (h : phase.dispatch config client now m = some round)
    (hsent : round.2.1 = some name) (hg : phase.gated = true) :
    phase.tries config client = some name ∧ (m.tryAcquire name now).1 = true := by
  unfold dispatch at h
  split at h
  · rename_i ctx rateGate max names l
    obtain rfl : rateGate = true := hg
    obtain rfl := Option.some.inj h
    cases names with
    | nil => cases hsent
    | cons n rest =>
      rw [sequenceRound] at hsent
      rw [tries]
      rcases candidate_cases config client max l n with
        ⟨hc, -⟩ | ⟨hc, -⟩ | ⟨q, hc, -, hq, -, -⟩
      · simp [hc] at hsent
      · simp [hc] at hsent
      · simp only [hc] at hsent ⊢
        cases hpass : (m.passGate n q now true).1 with
        | false => simp [hpass] at hsent
        | true =>
          obtain rfl : n = name := by simpa [hpass] using hsent
          obtain rfl : q = p := Option.some.inj (hq.symm.trans hp)
          rw [Monitor.passGate_eq, hcap] at hpass
          exact ⟨if_pos hcap, by simpa using hpass⟩
  · rename_i ctx rateGate names spawned
    obtain rfl : rateGate = true := hg
    obtain rfl := Option.some.inj h
    cases names with
    | nil => cases hsent
    | cons n rest =>
      rw [spawnRound] at hsent
      rw [tries]
      cases hq : config.provider n with
      | none => simp [hq] at hsent
      | some q =>
        simp only [hq] at hsent ⊢
        cases hclient : client n with
        | false => simp [hclient] at hsent
        | true =>
          simp only [hclient, Bool.not_true, Bool.false_eq_true, if_false] at hsent
          cases hpass : (m.passGate n q now true).1 with
          | false => simp [hpass] at hsent
          | true =>
            obtain rfl : n = name := by simpa [hpass] using hsent
            obtain rfl : q = p := Option.some.inj (hq.symm.trans hp)
            rw [Monitor.passGate_eq, hcap] at hpass
            exact ⟨by simp [hcap], by simpa using hpass⟩
  · cases hg
  · cases h

theorem Sys.forwarded_gated {s : Sys} {e : Event} {name : String} {p : ProviderConfig}
    (hp : config.provider name = some p) (hcap : p.maxRps.isSome = true)
    (h : s.forwarded config client e = some (name, true)) :
    s.ops config client name e = [.acquire s.now] ∧ (s.monitor.tryAcquire name s.now).1 = true := by
  unfold forwarded at h
  split at h
  · rename_i i
    obtain ⟨r, hr, h⟩ := Option.bind_eq_some_iff.mp h
    obtain ⟨round, hround, h⟩ := Option.bind_eq_some_iff.mp h
    obtain ⟨n, hsent, hn⟩ := Option.map_eq_some_iff.mp h
    obtain ⟨rfl, hg⟩ := Prod.mk.inj hn
    obtain ⟨htries, htoken⟩ := Phase.dispatch_gated hp hcap hround hsent hg
    exact ⟨by simp [ops, hr, Phase.ops, htries], htoken⟩
  · cases h

/-- The bucket of `name` is there, at the configured rate and burst. -/
def Sys.CappedAt (name : String) (maxRps : Nat) (s : Sys) : Prop :=
  s.monitor.caps name = some (some ((maxRps : ℚ), (maxRps : ℚ)))

section capped

variable {name : String} {maxRps : Nat}

theorem Sys.CappedAt.step {s t : Sys} {e : Event} (hc : s.CappedAt name maxRps)
    (h : s.step config client e = some t) : t.CappedAt name maxRps := by
  have htakes := Sys.step_takes h name
  rw [Sys.CappedAt, Monitor.caps, htakes, Option.map_map]
  refine Eq.trans ?_ hc
  exact congrArg (fun g => (s.monitor.entry name).map g) (funext fun e => e.run_caps _ _)

theorem Sys.CappedAt.bucket {s : Sys} (hc : s.CappedAt name maxRps) :
    ∃ e b, s.monitor.entry name = some e ∧ e.limiter = some b ∧ b.rate = maxRps ∧
      b.capacity = maxRps := by
  obtain ⟨e, he, hcaps⟩ := Option.map_eq_some_iff.mp hc
  obtain ⟨b, hb, hrates⟩ := Option.map_eq_some_iff.mp hcaps
  obtain ⟨hrate, hcapacity⟩ := Prod.mk.inj hrates
  exact ⟨e, b, he, hb, hrate, hcapacity⟩

/-- One step: a forward under the gate takes a token, and only time brings new ones. -/
theorem Sys.CappedAt.step_held {s t : Sys} {e : Event} {p : ProviderConfig}
    (hp : config.provider name = some p) (hcap : p.maxRps = some maxRps)
    (hc : s.CappedAt name maxRps) (h : s.step config client e = some t) :
    (if s.forwarded config client e = some (name, true) then 1 else 0 : ℚ) +
        (t.held name - maxRps * seconds t.now) ≤
      0 + (s.held name - maxRps * seconds s.now) := by
  obtain ⟨entry, b, he, hb, hrate, -⟩ := hc.bucket
  have hs : s.held name = b.heldAt s.now := by simp [Sys.held, he, ProviderEntry.heldAt, hb]
  rcases Sys.step_now h with ⟨ns, rfl, rfl⟩ | ⟨hnow, -⟩
  · have hwait : b.heldAt (s.now + ns) ≤ b.heldAt s.now + b.rate * seconds (s.now + ns - s.now) :=
      b.heldAt_le (Nat.le_add_right _ _)
    have ht : Sys.held { s with now := s.now + ns } name = b.heldAt (s.now + ns) := by
      simp [Sys.held, he, ProviderEntry.heldAt, hb]
    have hsum : seconds (s.now + ns) = seconds s.now + seconds ns := seconds_add _ _
    rw [Nat.add_sub_cancel_left, hrate] at hwait
    simp only [Sys.forwarded, reduceCtorEq, if_false]
    rw [ht, hs, hsum]
    linarith
  · have htakes := Sys.step_takes h name
    rw [Monitor.Takes, he] at htakes
    have ht : t.held name = (entry.run config.health (s.ops config client name e)).heldAt s.now := by
      simp [Sys.held, htakes, hnow]
    rw [hnow]
    by_cases hf : s.forwarded config client e = some (name, true)
    · obtain ⟨hops, htoken⟩ := Sys.forwarded_gated hp (by simp [hcap]) hf
      have hacq : (b.tryAcquire s.now).1 = true := by
        simpa [Monitor.tryAcquire, he, hb] using htoken
      have hspent := entry.acquired_heldAt s.now
      simp only [hb, Option.any_some, hacq, if_true] at hspent
      have hafter : entry.run config.health [.acquire s.now] = entry.acquired s.now := rfl
      have hheld : entry.heldAt s.now = b.heldAt s.now := by simp [ProviderEntry.heldAt, hb]
      rw [if_pos hf, ht, hops, hafter, hs]
      linarith
    · have hle := entry.run_heldAt s.now config.health (s.ops_at config client name e)
      have hheld : entry.heldAt s.now = b.heldAt s.now := by simp [ProviderEntry.heldAt, hb]
      rw [if_neg hf, ht, hs]
      linarith

theorem proxy_cappedAt {s : Sys} {p : ProviderConfig} (hv : config.validate = .ok ())
    (hp : config.provider name = some p) (hcap : p.maxRps = some maxRps)
    (h : (proxy config client).Reachable s) : s.CappedAt name maxRps := by
  refine System.invariant_reachable (fun s hs => ?_) (fun _ _ _ hc hs => hc.step hs) h
  have hcaps := ProviderEntry.new_caps s.now p
  rw [Sys.CappedAt, Monitor.caps, proxy_init_entry hv hs hp, Option.map_some, hcaps,
    ProviderConfig.caps, hcap]
  rfl

end capped

/-- From any reachable state on and whatever the requests do, no more is forwarded to a provider
under the gate than one second's burst above its rate, and the only other forwards to it are
those of degraded decisions. -/
theorem proxy_rate_cap (config : Config) (client : String → Bool) (hv : config.validate = .ok ())
    (name : String) (p : ProviderConfig) (maxRps : Nat) (hp : config.provider name = some p)
    (hcap : p.maxRps = some maxRps) (s t : Sys) (es : List Event)
    (hs : (proxy config client).Reachable s) (hrun : (proxy config client).run s es = some t) :
    t.forwardsTo name = s.forwardsTo name +
        (forwardsMade config client name true s es + forwardsMade config client name false s es) ∧
      (forwardsMade config client name true s es : ℚ) ≤ maxRps + maxRps * seconds (t.now - s.now) := by
  have hc := proxy_cappedAt hv hp hcap hs
  have htotal := System.total_add_le (I := Sys.CappedAt name maxRps)
    (f := fun s e => (if s.forwarded config client e = some (name, true) then 1 else 0 : ℚ))
    (g := fun _ _ => 0) (φ := fun s => s.held name - maxRps * seconds s.now)
    (fun _ _ _ hc h => hc.step h) (fun _ _ _ hc h => hc.step_held hp hcap h) hc hrun
  have hheld : s.held name ≤ maxRps := by
    obtain ⟨e, b, he, hb, -, hcapacity⟩ := hc.bucket
    have hle := b.heldAt_le_capacity s.now
    simpa [Sys.held, he, ProviderEntry.heldAt, hb, hcapacity] using hle
  have hleft : 0 ≤ t.held name := by
    obtain ⟨e, b, he, hb, -⟩ := (System.invariant_run (fun _ _ _ hc h => hc.step h) hc hrun).bucket
    simpa [Sys.held, he, ProviderEntry.heldAt, hb] using b.heldAt_nonneg t.now
  have htime : seconds t.now = seconds s.now + seconds (t.now - s.now) := by
    rw [← seconds_add, Nat.add_sub_cancel' (run_now hrun)]
  refine ⟨forwardsTo_eq hrun name, ?_⟩
  rw [forwardsMade, System.total_natCast]
  simp only [System.total_zero, Nat.cast_ite, Nat.cast_one, Nat.cast_zero] at htotal ⊢
  rw [htime] at htotal
  linarith

/-- Two requests a second apart, at one token a second: both are forwarded, which is the bound. -/
def requestsASecondApart : List Event :=
  [.arrive sendTransaction.body, .move 0 .snapshot, .move 0 (.route 0), .move 0 .dispatch,
    .tick 1000000000, .arrive sendTransaction.body, .move 1 .snapshot, .move 1 (.route 0),
    .move 1 .dispatch]

theorem proxy_rate_cap_reached :
    let client : String → Bool := fun _ => true
    ∃ t, (proxy oneCapped client).run (Sys.start oneCapped) requestsASecondApart = some t ∧
      forwardsMade oneCapped client "a" true (Sys.start oneCapped) requestsASecondApart = 2 ∧
      (2 : ℚ) ≤ 1 + 1 * seconds t.now := by
  intro client
  obtain ⟨t, ht⟩ : ∃ t, (proxy oneCapped client).run (Sys.start oneCapped) requestsASecondApart =
      some t := Option.isSome_iff_exists.mp (by decide +kernel)
  have hmade : forwardsMade oneCapped client "a" true (Sys.start oneCapped) requestsASecondApart = 2 := by
    decide +kernel
  have hcap := (proxy_rate_cap oneCapped client rfl "a" _ 1 rfl rfl (Sys.start oneCapped) t
    requestsASecondApart ⟨_, [], Sys.start_init _ _, rfl⟩ ht).2
  rw [hmade] at hcap
  exact ⟨t, ht, hmade, by simpa [Sys.start] using hcap⟩

end RpcPlane
