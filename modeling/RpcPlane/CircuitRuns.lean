import RpcPlane.Circuit
import RpcPlane.Transition
import Mathlib.Tactic.Positivity

/-! Runs of `record` and `record_throttled` calls on one provider, and when such a run
can open the circuit. -/

namespace RpcPlane

structure RecordCall where
  time : Instant
  sample : Sample
  latencyMs : ℚ := 0
  isProbe : Bool := false

def Inner.recordCall (g : Inner) (call : RecordCall) (cfg : HealthConfig) : Inner :=
  match call.sample with
  | .success => g.record call.time true call.latencyMs call.isProbe cfg
  | .failure => g.record call.time false call.latencyMs call.isProbe cfg
  | .throttle => g.recordThrottled call.time call.latencyMs cfg

def recordings (cfg : HealthConfig) : System (Instant × Inner) RecordCall where
  init s := s = (0, {})
  step s call := if s.1 ≤ call.time then some (call.time, s.2.recordCall call cfg) else none

theorem Inner.recordCall_eq (g : Inner) (call : RecordCall) (cfg : HealthConfig) :
    ∃ update, g.recordCall call cfg = applyCircuitTransitions
      (g.pushSample call.time call.sample call.latencyMs update cfg.windowSecs) call.time cfg := by
  cases h : call.sample with
  | success => exact ⟨call.isProbe, by simp [recordCall, h, record, pushResult]⟩
  | failure => exact ⟨call.isProbe, by simp [recordCall, h, record, pushResult]⟩
  | throttle => exact ⟨false, by simp [recordCall, h, recordThrottled]⟩

section

variable (g : Inner) (now : Instant) (sample : Sample) (latencyMs : ℚ) (update : Bool)
  (windowSecs : Nat)

theorem Inner.pushSample_circuit :
    (g.pushSample now sample latencyMs update windowSecs).circuit = g.circuit := by
  cases sample <;> rfl

theorem Inner.pushSample_window :
    (g.pushSample now sample latencyMs update windowSecs).window =
      (g.pruneWindow now windowSecs).window ++ [(now, sample)] := by
  cases sample <;> rfl

theorem Inner.pushSample_failures :
    (g.pushSample now sample latencyMs update windowSecs).consecutiveFailures =
      match sample with
      | .success => 0
      | .failure => g.consecutiveFailures + 1
      | .throttle => g.consecutiveFailures := by
  cases sample <;> rfl

theorem applyCircuitTransitions_window (cfg : HealthConfig) :
    (applyCircuitTransitions g now cfg).window = g.window := by
  unfold applyCircuitTransitions
  split
  · split <;> rfl
  · split
    · split <;> rfl
    · rfl
  · split <;> rfl

theorem applyCircuitTransitions_failures (cfg : HealthConfig) :
    (applyCircuitTransitions g now cfg).consecutiveFailures = g.consecutiveFailures := by
  unfold applyCircuitTransitions
  split
  · split <;> rfl
  · split
    · split <;> rfl
    · rfl
  · split <;> rfl

end

def Inner.inWindow (g : Inner) (now : Instant) (windowSecs : Nat) : Window :=
  g.window.filter (now - fromSecs windowSecs ≤ ·.1)

theorem Inner.pruneWindow_window {g : Inner} (h : (g.window.map Prod.fst).Pairwise (· ≤ ·))
    (now : Instant) (windowSecs : Nat) :
    (g.pruneWindow now windowSecs).window = g.inWindow now windowSecs :=
  dropWhile_key_lt h _

/-- What every run keeps: samples in the order they were recorded, none later than the
last call, and a closed circuit below its limit of consecutive failures. -/
structure RecordInv (cfg : HealthConfig) (s : Instant × Inner) : Prop where
  sorted : (s.2.window.map Prod.fst).Pairwise (· ≤ ·)
  past : ∀ p ∈ s.2.window, p.1 ≤ s.1
  below : s.2.circuit = .closed → 0 < cfg.circuitOpenFailures →
    s.2.consecutiveFailures < cfg.circuitOpenFailures

theorem Inner.recordCall_window (g : Inner) (call : RecordCall) (cfg : HealthConfig) :
    (g.recordCall call cfg).window =
      (g.pruneWindow call.time cfg.windowSecs).window ++ [(call.time, call.sample)] := by
  obtain ⟨update, he⟩ := g.recordCall_eq call cfg
  rw [he, applyCircuitTransitions_window, pushSample_window]

theorem Inner.recordCall_failures (g : Inner) (call : RecordCall) (cfg : HealthConfig) :
    (g.recordCall call cfg).consecutiveFailures =
      match call.sample with
      | .success => 0
      | .failure => g.consecutiveFailures + 1
      | .throttle => g.consecutiveFailures := by
  obtain ⟨update, he⟩ := g.recordCall_eq call cfg
  rw [he, applyCircuitTransitions_failures, pushSample_failures]

def Inner.shouldOpen (g : Inner) (cfg : HealthConfig) : Prop :=
  cfg.circuitOpenFailures ≤ g.consecutiveFailures ∨ cfg.circuitErrorThreshold < g.hardErrorRate

theorem Inner.shouldOpen_congr {g h : Inner} (hw : g.window = h.window)
    (hf : g.consecutiveFailures = h.consecutiveFailures) (cfg : HealthConfig) :
    g.shouldOpen cfg ↔ h.shouldOpen cfg := by
  simp only [shouldOpen, hardErrorRate, hw, hf]

theorem applyCircuitTransitions_closed {g : Inner} (hg : g.circuit = .closed) (now : Instant)
    (cfg : HealthConfig) :
    (applyCircuitTransitions g now cfg).circuit = .opened ∧ g.shouldOpen cfg ∨
      (applyCircuitTransitions g now cfg).circuit = .closed ∧ ¬ g.shouldOpen cfg := by
  unfold applyCircuitTransitions
  rw [hg]
  by_cases ht : cfg.circuitOpenFailures ≤ g.consecutiveFailures ∨
      cfg.circuitErrorThreshold < g.hardErrorRate
  · exact Or.inl ⟨by simp [ht], ht⟩
  · exact Or.inr ⟨by simp [ht, hg], ht⟩

theorem applyCircuitTransitions_opened {g : Inner} (hg : g.circuit = .opened) (now : Instant)
    (cfg : HealthConfig) : (applyCircuitTransitions g now cfg).circuit ≠ .closed := by
  unfold applyCircuitTransitions
  rw [hg]
  dsimp only
  split
  · split <;> simp [hg]
  · simp [hg]

def Sample.verdict : Sample → CircuitState
  | .success => .closed
  | .failure => .opened
  | .throttle => .halfOpen

theorem applyCircuitTransitions_halfOpen {g : Inner} (hg : g.circuit = .halfOpen) (now : Instant)
    (cfg : HealthConfig) {sample : Sample} (hs : g.window.getLast?.map Prod.snd = some sample) :
    (applyCircuitTransitions g now cfg).circuit = sample.verdict := by
  unfold applyCircuitTransitions
  rw [hg]
  dsimp only
  rw [hs]
  cases sample <;> simp [Sample.verdict, hg]

theorem Inner.recordCall_circuit (g : Inner) (call : RecordCall) (cfg : HealthConfig) :
    match g.circuit with
    | .closed =>
      (g.recordCall call cfg).circuit = .opened ∧ (g.recordCall call cfg).shouldOpen cfg ∨
        (g.recordCall call cfg).circuit = .closed ∧ ¬ (g.recordCall call cfg).shouldOpen cfg
    | .opened => (g.recordCall call cfg).circuit ≠ .closed
    | .halfOpen => (g.recordCall call cfg).circuit = call.sample.verdict := by
  have hf := g.recordCall_failures call cfg
  have hw := g.recordCall_window call cfg
  obtain ⟨update, he⟩ := g.recordCall_eq call cfg
  have hc := g.pushSample_circuit call.time call.sample call.latencyMs update cfg.windowSecs
  have hpw := g.pushSample_window call.time call.sample call.latencyMs update cfg.windowSecs
  have hpf := g.pushSample_failures call.time call.sample call.latencyMs update cfg.windowSecs
  have ht := shouldOpen_congr (hw.trans hpw.symm) (hf.trans hpf.symm) cfg
  rw [ht, he]
  cases hg : g.circuit with
  | closed => exact applyCircuitTransitions_closed (hc.trans hg) call.time cfg
  | opened => exact applyCircuitTransitions_opened (hc.trans hg) call.time cfg
  | halfOpen =>
    exact applyCircuitTransitions_halfOpen (hc.trans hg) call.time cfg (by rw [hpw]; simp)

theorem Inner.recordCall_below (g : Inner) (call : RecordCall) (cfg : HealthConfig)
    (hc : (g.recordCall call cfg).circuit = .closed) (hpos : 0 < cfg.circuitOpenFailures) :
    (g.recordCall call cfg).consecutiveFailures < cfg.circuitOpenFailures := by
  have hcase := g.recordCall_circuit call cfg
  cases hg : g.circuit with
  | closed =>
    rw [hg] at hcase
    rcases hcase with ⟨ho, _⟩ | ⟨_, hn⟩
    · exact absurd (hc.symm.trans ho) (by decide)
    · exact UInt32.not_le.mp (fun h => hn (Or.inl h))
  | opened =>
    rw [hg] at hcase
    exact absurd hc hcase
  | halfOpen =>
    rw [hg] at hcase
    have hsuccess : call.sample = .success := by
      cases hs : call.sample with
      | success => rfl
      | failure => rw [hs] at hcase; exact absurd (hc.symm.trans hcase) (by simp [Sample.verdict])
      | throttle => rw [hs] at hcase; exact absurd (hc.symm.trans hcase) (by simp [Sample.verdict])
    have hz := g.recordCall_failures call cfg
    rw [hsuccess] at hz
    exact hz ▸ hpos

theorem RecordInv.start (cfg : HealthConfig) : RecordInv cfg (0, {}) where
  sorted := List.Pairwise.nil
  past := by simp
  below := fun _ h => h

theorem RecordInv.step {cfg : HealthConfig} {s t : Instant × Inner} {call : RecordCall}
    (hi : RecordInv cfg s) (h : (recordings cfg).step s call = some t) : RecordInv cfg t := by
  have hle : s.1 ≤ call.time := by
    by_contra hn
    simp [recordings, hn] at h
  obtain rfl : (call.time, s.2.recordCall call cfg) = t := by simpa [recordings, hle] using h
  have hw := s.2.recordCall_window call cfg
  rw [Inner.pruneWindow_window hi.sorted] at hw
  have hold : ∀ p ∈ s.2.inWindow call.time cfg.windowSecs, p.1 ≤ call.time :=
    fun p hp => (hi.past p (List.mem_of_mem_filter hp)).trans hle
  refine ⟨?_, ?_, ?_⟩
  · rw [hw, List.map_append, List.pairwise_append]
    refine ⟨?_, by simp, ?_⟩
    · exact hi.sorted.sublist (List.filter_sublist.map Prod.fst)
    · intro a ha b hb
      obtain ⟨p, hp, rfl⟩ := List.mem_map.mp ha
      obtain rfl : b = call.time := by simpa using hb
      exact hold p hp
  · intro p hp
    rw [hw] at hp
    rcases List.mem_append.mp hp with hp | hp
    · exact hold p hp
    · have he : p = (call.time, call.sample) := by simpa using hp
      simp [he]
  · exact s.2.recordCall_below call cfg

def OpensOnlyOnFailure (cfg : HealthConfig) (s : Instant × Inner) (call : RecordCall) : Prop :=
  call.sample ≠ .failure → s.2.circuit ≠ .opened → (s.2.recordCall call cfg).circuit ≠ .opened

/-- The state before a call leaves the circuit no reason to open on a sample that is no
hard failure: it is not closed, or hard failures are within the threshold once every
sample older than the window is gone and the new one is counted. -/
def StaysClosed (cfg : HealthConfig) (s : Instant × Inner) (call : RecordCall) : Prop :=
  call.sample ≠ .failure → s.2.circuit = .closed →
    0 < cfg.circuitOpenFailures ∧
    ((s.2.inWindow call.time cfg.windowSecs).countP (·.2 == .failure) : ℚ) ≤
      cfg.circuitErrorThreshold * ((s.2.inWindow call.time cfg.windowSecs).length + 1)

theorem Inner.recordCall_hardErrorRate {g : Inner}
    (hsorted : (g.window.map Prod.fst).Pairwise (· ≤ ·)) {call : RecordCall}
    (hs : call.sample ≠ .failure) (cfg : HealthConfig) :
    (g.recordCall call cfg).hardErrorRate =
      ((g.inWindow call.time cfg.windowSecs).countP (·.2 == .failure) : ℚ) /
        ((g.inWindow call.time cfg.windowSecs).length + 1) := by
  have hw := g.recordCall_window call cfg
  rw [pruneWindow_window hsorted] at hw
  have hb : (call.sample == .failure) = false := by simpa using hs
  simp [hardErrorRate, hw, List.countP_append, hb]

theorem shouldOpen_of_not_failure {cfg : HealthConfig} {s : Instant × Inner} {call : RecordCall}
    (hi : RecordInv cfg s) (hs : call.sample ≠ .failure) (hg : s.2.circuit = .closed) :
    (s.2.recordCall call cfg).shouldOpen cfg ↔ ¬ (0 < cfg.circuitOpenFailures ∧
      ((s.2.inWindow call.time cfg.windowSecs).countP (·.2 == .failure) : ℚ) ≤
        cfg.circuitErrorThreshold * ((s.2.inWindow call.time cfg.windowSecs).length + 1)) := by
  have hrate := Inner.recordCall_hardErrorRate hi.sorted hs cfg
  have hlen : (0 : ℚ) < (s.2.inWindow call.time cfg.windowSecs).length + 1 := by positivity
  have hfail := s.2.recordCall_failures call cfg
  rw [Inner.shouldOpen, hrate, lt_div_iff₀ hlen, not_and_or, not_le, UInt32.not_lt]
  apply or_congr_left
  have hle : (s.2.recordCall call cfg).consecutiveFailures ≤ s.2.consecutiveFailures := by
    rw [hfail]
    cases hcall : call.sample with
    | success => simp
    | failure => exact absurd hcall hs
    | throttle => simp
  constructor
  · intro h
    by_contra hpos
    have hlt := hi.below hg (UInt32.not_le.mp hpos)
    exact absurd (UInt32.le_trans h hle) (UInt32.not_le.mpr hlt)
  · intro h
    exact UInt32.le_trans h UInt32.zero_le

theorem opensOnlyOnFailure_iff {cfg : HealthConfig} {s : Instant × Inner} {call : RecordCall}
    (hi : RecordInv cfg s) : OpensOnlyOnFailure cfg s call ↔ StaysClosed cfg s call := by
  have hcase := s.2.recordCall_circuit call cfg
  unfold OpensOnlyOnFailure StaysClosed
  apply imp_congr_right
  intro hs
  cases hg : s.2.circuit with
  | closed =>
    rw [hg] at hcase
    have hiff := shouldOpen_of_not_failure hi hs hg
    rcases hcase with ⟨ho, ht⟩ | ⟨hc, ht⟩
    · simp only [ho, ne_eq, not_true_eq_false, imp_false, true_imp_iff, reduceCtorEq,
        not_false_eq_true]
      exact iff_of_false (by simp) (hiff.mp ht)
    · simp only [hc, ne_eq, reduceCtorEq, not_false_eq_true, true_imp_iff, true_iff]
      exact not_not.mp (fun h => ht (hiff.mpr h))
  | opened => simp
  | halfOpen =>
    rw [hg] at hcase
    rw [hcase]
    cases hcall : call.sample with
    | success => simp [Sample.verdict]
    | failure => exact absurd hcall hs
    | throttle => simp [Sample.verdict]

/-- Along any run from a new provider, the samples that open the circuit are all hard
failures exactly when every other sample finds the state of `StaysClosed`. -/
theorem recordings_open_only_on_failure_iff (cfg : HealthConfig) (calls : List RecordCall) :
    (recordings cfg).Meets (OpensOnlyOnFailure cfg) (0, {}) calls ↔
      (recordings cfg).Meets (StaysClosed cfg) (0, {}) calls :=
  System.meets_congr (I := RecordInv cfg) (fun _ _ _ hi h => hi.step h) (fun _ _ _ hi _ => opensOnlyOnFailure_iff hi)
    (RecordInv.start cfg) calls

/-- Two successes, two failures a second later, and a success at 61 s: the first two
samples have aged out, and the last one finds two failures in three. -/
theorem success_opens_circuit :
    ¬ ∀ config : Config, config.validate = .ok () → ∀ calls,
      (recordings config.health).Meets (OpensOnlyOnFailure config.health) (0, {}) calls := by
  intro h
  have hm := h { providers := [{ name := "a", url := "http://a" }] } rfl
    ([⟨0, .success, 0, false⟩, ⟨0, .success, 0, false⟩,
      ⟨fromSecs 1, .failure, 0, false⟩, ⟨fromSecs 1, .failure, 0, false⟩] ++
      [⟨fromSecs 61, .success, 0, false⟩])
  have hp := hm.last rfl rfl
  exact hp (by decide) (by decide +kernel) (by decide +kernel)

end RpcPlane
