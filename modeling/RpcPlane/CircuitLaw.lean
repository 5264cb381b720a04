import RpcPlane.CircuitRuns

/-! The law of the circuit breaker: what one call can do to the circuit, and what ties the
circuit, its opening time and the failure count together along every run. -/

namespace RpcPlane

/-- The hard failures recorded since the last success. -/
def failureStreak (calls : List RecordCall) : Nat :=
  (calls.reverse.takeWhile (·.sample != .success)).countP (·.sample == .failure)

theorem failureStreak_snoc (calls : List RecordCall) (call : RecordCall) :
    failureStreak (calls ++ [call]) =
      match call.sample with
      | .success => 0
      | .failure => failureStreak calls + 1
      | .throttle => failureStreak calls := by
  unfold failureStreak
  rw [List.reverse_append, List.reverse_singleton, List.singleton_append]
  cases h : call.sample with
  | success => simp [h]
  | failure => simp [h]
  | throttle => simp [h]

theorem failureStreak_le (calls : List RecordCall) : failureStreak calls ≤ calls.length := by
  have hsub := calls.reverse.takeWhile_sublist (·.sample != .success)
  have hcount : failureStreak calls ≤ (calls.reverse.takeWhile (·.sample != .success)).length :=
    List.countP_le_length
  have hlen := hsub.length_le
  rw [List.length_reverse] at hlen
  exact hcount.trans hlen

/-- The times at which a run opened the circuit. -/
def openings (cfg : HealthConfig) (calls : List RecordCall) : List Instant :=
  ((recordings cfg).steps (0, {}) calls).filterMap fun (s, call, t) =>
    if s.2.circuit ≠ .opened ∧ t.2.circuit = .opened then some call.time else none

/-- What one call may do to the circuit and its opening time. -/
inductive CircuitMove (cfg : HealthConfig) (call : RecordCall) :
    CircuitState × Option Instant → CircuitState × Option Instant → Prop
  | stay (c : CircuitState × Option Instant) : CircuitMove cfg call c c
  | trip : CircuitMove cfg call (.closed, none) (.opened, some call.time)
  | cool {openedAt : Instant} (h : fromSecs cfg.circuitCooldownSecs ≤ call.time - openedAt) :
    CircuitMove cfg call (.opened, some openedAt) (.halfOpen, none)
  | recover (h : call.sample = .success) : CircuitMove cfg call (.halfOpen, none) (.closed, none)
  | reopen (h : call.sample = .failure) :
    CircuitMove cfg call (.halfOpen, none) (.opened, some call.time)

def Inner.breaker (g : Inner) : CircuitState × Option Instant := (g.circuit, g.circuitOpenedAt)

/-- The opening time is set exactly while the circuit is open. -/
def Inner.Timed (g : Inner) : Prop := g.circuit = .opened ↔ g.circuitOpenedAt.isSome

theorem Inner.Timed.openedAt_eq_none {g : Inner} (h : g.Timed) (hc : g.circuit ≠ .opened) :
    g.circuitOpenedAt = none := by
  have hn : ¬ g.circuitOpenedAt.isSome := fun hs => hc (h.mpr hs)
  simpa using hn

theorem Inner.pushSample_breaker (g : Inner) (now : Instant) (sample : Sample) (latencyMs : ℚ)
    (update : Bool) (windowSecs : Nat) :
    (g.pushSample now sample latencyMs update windowSecs).breaker = g.breaker := by
  cases sample <;> rfl

theorem applyCircuitTransitions_move {g : Inner} {call : RecordCall} (cfg : HealthConfig)
    (ht : g.Timed) (hlast : g.window.getLast?.map Prod.snd = some call.sample) :
    CircuitMove cfg call g.breaker (applyCircuitTransitions g call.time cfg).breaker := by
  unfold applyCircuitTransitions
  cases hc : g.circuit with
  | closed =>
    have hnone := ht.openedAt_eq_none (by simp [hc])
    by_cases ho : cfg.circuitOpenFailures ≤ g.consecutiveFailures ∨
        cfg.circuitErrorThreshold < g.hardErrorRate
    · simpa [ho, Inner.breaker, hc, hnone] using CircuitMove.trip
    · simpa [ho] using CircuitMove.stay g.breaker
  | opened =>
    obtain ⟨openedAt, hat⟩ := Option.isSome_iff_exists.mp (ht.mp hc)
    by_cases hcool : fromSecs cfg.circuitCooldownSecs ≤ call.time - openedAt
    · simpa [hat, hcool, Inner.breaker, hc] using CircuitMove.cool hcool
    · simpa [hat, hcool] using CircuitMove.stay g.breaker
  | halfOpen =>
    have hnone := ht.openedAt_eq_none (by simp [hc])
    cases hs : call.sample with
    | success =>
      have hm : CircuitMove cfg call (.halfOpen, none) (.closed, none) := .recover hs
      simpa [hlast, hs, Inner.breaker, hc, hnone] using hm
    | failure =>
      have hm : CircuitMove cfg call (.halfOpen, none) (.opened, some call.time) := .reopen hs
      simpa [hlast, hs, Inner.breaker, hc, hnone] using hm
    | throttle => simpa [hlast, hs] using CircuitMove.stay g.breaker

theorem Inner.recordCall_move {g : Inner} (ht : g.Timed) (call : RecordCall) (cfg : HealthConfig) :
    CircuitMove cfg call g.breaker (g.recordCall call cfg).breaker := by
  obtain ⟨update, he⟩ := g.recordCall_eq call cfg
  have hb := g.pushSample_breaker call.time call.sample call.latencyMs update cfg.windowSecs
  have hw := g.pushSample_window call.time call.sample call.latencyMs update cfg.windowSecs
  have hc := congrArg Prod.fst hb
  have ha := congrArg Prod.snd hb
  rw [he, ← hb]
  refine applyCircuitTransitions_move cfg ?_ (by rw [hw]; simp)
  simp only [breaker] at hc ha
  rw [Timed, hc, ha]
  exact ht

theorem CircuitMove.timed {cfg : HealthConfig} {call : RecordCall} {g h : Inner}
    (hm : CircuitMove cfg call g.breaker h.breaker) (hg : g.Timed) : h.Timed := by
  unfold Inner.Timed at *
  unfold Inner.breaker at hm
  generalize g.circuit = c, g.circuitOpenedAt = a, h.circuit = c', h.circuitOpenedAt = a' at *
  cases hm with
  | stay => exact hg
  | trip => simp
  | cool => simp
  | recover => simp
  | reopen => simp

theorem recordings_step {cfg : HealthConfig} {s t : Instant × Inner} {call : RecordCall}
    (h : (recordings cfg).step s call = some t) :
    s.1 ≤ call.time ∧ t = (call.time, s.2.recordCall call cfg) := by
  by_cases hle : s.1 ≤ call.time
  · exact ⟨hle, (by simpa [recordings, hle] using h.symm)⟩
  · simp [recordings, hle] at h

/-- What the circuit and its opening time say about the calls so far. -/
structure BreakerHistory (cfg : HealthConfig) (calls : List RecordCall) (s : Instant × Inner) :
    Prop where
  timed : s.2.Timed
  last : ∀ openedAt, s.2.circuitOpenedAt = some openedAt →
    (openings cfg calls).getLast? = some openedAt
  streak : (∀ front, front <+: calls → failureStreak front < 2 ^ 32) →
    s.2.consecutiveFailures.toNat = failureStreak calls

theorem BreakerHistory.start (cfg : HealthConfig) : BreakerHistory cfg [] (0, {}) where
  timed := by simp [Inner.Timed]
  last := by simp
  streak := fun _ => rfl

theorem openings_snoc {cfg : HealthConfig} {calls : List RecordCall} {s t : Instant × Inner}
    {call : RecordCall} (hr : (recordings cfg).run (0, {}) calls = some s)
    (h : (recordings cfg).step s call = some t) :
    openings cfg (calls ++ [call]) = openings cfg calls ++
      (if s.2.circuit ≠ .opened ∧ t.2.circuit = .opened then [call.time] else []) := by
  unfold openings
  rw [System.steps_snoc hr h, List.filterMap_append]
  congr 1
  by_cases ho : s.2.circuit ≠ .opened ∧ t.2.circuit = .opened
  · simp [ho]
  · simp only [List.filterMap_cons, List.filterMap_nil, if_neg ho]

theorem BreakerHistory.step {cfg : HealthConfig} {calls : List RecordCall} {s t : Instant × Inner}
    {call : RecordCall} (hr : (recordings cfg).run (0, {}) calls = some s)
    (hi : BreakerHistory cfg calls s) (h : (recordings cfg).step s call = some t) :
    BreakerHistory cfg (calls ++ [call]) t := by
  have hopen := openings_snoc hr h
  obtain ⟨-, rfl⟩ := recordings_step h
  have hm := Inner.recordCall_move hi.timed call cfg
  refine ⟨hm.timed hi.timed, ?_, ?_⟩
  · intro openedAt hat
    rw [hopen]
    have hlast := hi.last
    dsimp only at hat ⊢
    unfold Inner.breaker at hm
    generalize s.2.circuit = c, s.2.circuitOpenedAt = a, (s.2.recordCall call cfg).circuit = c',
      (s.2.recordCall call cfg).circuitOpenedAt = a' at *
    cases hm with
    | stay => simpa using hlast openedAt hat
    | trip => simpa using hat
    | cool => simp at hat
    | recover => simp at hat
    | reopen => simpa using hat
  · intro hbound
    have hold := hi.streak (fun front hf => hbound front (hf.trans (List.prefix_append _ _)))
    have hnew := hbound _ (List.prefix_refl _)
    rw [failureStreak_snoc] at hnew ⊢
    rw [Inner.recordCall_failures]
    cases hs : call.sample with
    | success => rfl
    | failure =>
      rw [hs] at hnew
      dsimp only at hnew ⊢
      rw [UInt32.toNat_add, hold]
      simpa using hnew
    | throttle => exact hold

theorem circuit_run_law (cfg : HealthConfig) (hopen : 1 ≤ cfg.circuitOpenFailures)
    (calls : List RecordCall) (s : Instant × Inner)
    (hrun : (recordings cfg).run (0, {}) calls = some s)
    (hstreak : ∀ front, front <+: calls → failureStreak front < 2 ^ 32) :
    (s.2.circuit = .opened ↔ s.2.circuitOpenedAt.isSome) ∧
      (∀ openedAt, s.2.circuitOpenedAt = some openedAt →
        (openings cfg calls).getLast? = some openedAt) ∧
      s.2.consecutiveFailures.toNat = failureStreak calls ∧
      (s.2.circuit = .closed → failureStreak calls < cfg.circuitOpenFailures.toNat) ∧
      ∀ call t, (recordings cfg).step s call = some t →
        CircuitMove cfg call (s.2.circuit, s.2.circuitOpenedAt)
          (t.2.circuit, t.2.circuitOpenedAt) := by
  have hi : BreakerHistory cfg calls s := System.invariant_history (BreakerHistory.start cfg)
    (fun _ _ _ _ hr hi h => hi.step hr h) hrun
  have hbelow : RecordInv cfg s := System.invariant_run (fun _ _ _ hi h => hi.step h)
    (RecordInv.start cfg) hrun
  have hcount := hi.streak hstreak
  refine ⟨hi.timed, hi.last, hcount, ?_, ?_⟩
  · intro hc
    have hpos : 0 < cfg.circuitOpenFailures :=
      UInt32.lt_iff_toNat_lt.mpr (UInt32.le_iff_toNat_le.mp hopen)
    have hlt := UInt32.lt_iff_toNat_lt.mp (hbelow.below hc hpos)
    omega
  · intro call t h
    obtain ⟨-, rfl⟩ := recordings_step h
    exact Inner.recordCall_move hi.timed call cfg

theorem circuit_run_law_second_failure :
    let cfg : HealthConfig := { circuitOpenFailures := 2, circuitErrorThreshold := 1 }
    let calls : List RecordCall := [⟨0, .failure, 1, true⟩, ⟨5, .throttle, 1, false⟩,
      ⟨7, .failure, 1, false⟩]
    ∃ s, (recordings cfg).run (0, {}) calls = some s ∧ s.2.circuit = .opened ∧
      s.2.circuitOpenedAt.isSome ∧ s.2.consecutiveFailures.toNat = 2 := by
  intro cfg calls
  have hlaw := circuit_run_law cfg (by decide) calls _ rfl ?_
  · exact ⟨_, rfl, by decide +kernel, hlaw.1.mp (by decide +kernel), hlaw.2.2.1⟩
  · intro front hf
    have hlen := (failureStreak_le front).trans hf.length_le
    have hcalls : calls.length = 3 := rfl
    omega

end RpcPlane
