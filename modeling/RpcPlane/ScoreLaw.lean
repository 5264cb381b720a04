import RpcPlane.CircuitRuns
import RpcPlane.Health

/-! The divisions behind a score, and the states in which one of them divides by zero. -/

namespace RpcPlane

/-- `none` for a zero denominator, where floats give an infinity or a NaN. -/
def checkedDiv (a b : ℚ) : Option ℚ := if b = 0 then none else some (a / b)

theorem checkedDiv_of_ne {a b : ℚ} (h : b ≠ 0) : checkedDiv a b = some (a / b) := by
  simp [checkedDiv, h]

def Inner.errorRateChecked (g : Inner) : Option ℚ :=
  if g.window.isEmpty then some 0
  else checkedDiv (g.window.countP (·.2 != .success)) g.window.length

def Inner.latencyScoreChecked (g : Inner) : Option ℚ :=
  if g.latencyEmaMs = 0 then some (1 / 2) else checkedDiv 200 (200 + g.latencyEmaMs)

def Inner.slotScoreChecked (g : Inner) (tips : TipSource) (cfg : HealthConfig) : Option ℚ :=
  match g.worstDrift tips with
  | some drift => checkedDiv cfg.slotDriftThreshold (cfg.slotDriftThreshold + drift)
  | none => some (1 / 2)

/-- `score` with each division checked, in the order the source makes them. -/
def Inner.scoreChecked (g : Inner) (tips : TipSource) (cfg : HealthConfig) : Option ℚ :=
  if g.circuit = .opened then some 0
  else do
    let latencyScore ← g.latencyScoreChecked
    let errorRate ← g.errorRateChecked
    let errorScore := 1 - errorRate
    let slotScore ← g.slotScoreChecked tips cfg
    let successScore := 1 - errorRate
    let totalW := cfg.wLatency + cfg.wError + cfg.wSlot + cfg.wSuccess
    if totalW ≤ 0 then some (1 / 2)
    else checkedDiv (cfg.wLatency * latencyScore + cfg.wError * errorScore +
      cfg.wSlot * slotScore + cfg.wSuccess * successScore) totalW

section

variable (g : Inner)

theorem Inner.errorRateChecked_eq : g.errorRateChecked = some g.errorRate := by
  unfold errorRateChecked errorRate
  by_cases h : g.window.isEmpty
  · simp [h]
  · have hlen : (g.window.length : ℚ) ≠ 0 := by
      have hne : g.window.length ≠ 0 := by simpa using h
      exact_mod_cast hne
    simp [h, checkedDiv_of_ne hlen]

theorem Inner.latencyScoreChecked_eq (h : 0 ≤ g.latencyEmaMs) :
    g.latencyScoreChecked = some g.latencyScore := by
  unfold latencyScoreChecked latencyScore
  by_cases hz : g.latencyEmaMs = 0
  · simp [hz]
  · have hpos : (200 : ℚ) + g.latencyEmaMs ≠ 0 := by linarith
    simp [hz, checkedDiv_of_ne hpos]

variable (tips : TipSource) (cfg : HealthConfig)

/-- A threshold of zero leaves a provider that is at its tip with zero over zero. -/
def Inner.SlotScoreDefined : Prop :=
  0 < cfg.slotDriftThreshold ∨ (∀ c, g.slots.get c = none) ∨
    ∃ c slot, g.slots.get c = some slot ∧ slot < tips c (g.rounds.get c)

theorem Inner.mem_drifts {d : Nat} : d ∈ Commitment.all.filterMap (g.drift · tips) ↔
    ∃ c slot, g.slots.get c = some slot ∧ tips c (g.rounds.get c) - slot = d := by
  have hall : ∀ c, c ∈ Commitment.all := by
    intro c
    cases c <;> simp [Commitment.all]
  simp [List.mem_filterMap, hall, drift]

theorem Inner.worstDrift_eq_zero_iff : g.worstDrift tips = some 0 ↔
    (∃ c, g.slots.get c ≠ none) ∧
      ∀ c slot, g.slots.get c = some slot → tips c (g.rounds.get c) ≤ slot := by
  unfold worstDrift
  rw [List.max?_eq_some_iff]
  constructor
  · intro ⟨hmem, hmax⟩
    obtain ⟨c, slot, hs, hd⟩ := (g.mem_drifts tips).mp hmem
    refine ⟨⟨c, by simp [hs]⟩, ?_⟩
    intro c' slot' hs'
    have hle := hmax _ ((g.mem_drifts tips).mpr ⟨c', slot', hs', rfl⟩)
    omega
  · intro ⟨⟨c, hc⟩, hle⟩
    obtain ⟨slot, hs⟩ := Option.ne_none_iff_exists'.mp hc
    refine ⟨(g.mem_drifts tips).mpr ⟨c, slot, hs, Nat.sub_eq_zero_of_le (hle c slot hs)⟩, ?_⟩
    intro d hd
    obtain ⟨c', slot', hs', rfl⟩ := (g.mem_drifts tips).mp hd
    exact (Nat.sub_eq_zero_of_le (hle c' slot' hs')).le

theorem Inner.slotScoreDefined_iff :
    g.SlotScoreDefined tips cfg ↔ 0 < cfg.slotDriftThreshold ∨ g.worstDrift tips ≠ some 0 := by
  unfold SlotScoreDefined
  apply or_congr_right
  rw [ne_eq, g.worstDrift_eq_zero_iff tips, not_and_or]
  push Not
  rfl

theorem Inner.slotScoreChecked_of_defined (h : g.SlotScoreDefined tips cfg) :
    g.slotScoreChecked tips cfg = some (g.slotScore tips cfg) := by
  unfold slotScoreChecked slotScore
  cases hd : g.worstDrift tips with
  | none => rfl
  | some drift =>
    have hpos : cfg.slotDriftThreshold + drift ≠ 0 := by
      have hdef := (g.slotScoreDefined_iff tips cfg).mp h
      rw [hd] at hdef
      rcases hdef with hthr | hne
      · omega
      · have hdrift : drift ≠ 0 := fun hz => hne (congrArg some hz)
        omega
    exact checkedDiv_of_ne (by exact_mod_cast hpos)

theorem Inner.slotScoreChecked_of_not_defined (h : ¬ g.SlotScoreDefined tips cfg) :
    g.slotScoreChecked tips cfg = none := by
  rw [slotScoreDefined_iff, not_or, not_not, not_lt] at h
  obtain ⟨hthr, hd⟩ := h
  have hz : cfg.slotDriftThreshold = 0 := Nat.le_zero.mp hthr
  simp [slotScoreChecked, hd, hz, checkedDiv]

theorem Inner.scoreChecked_eq_iff (h : 0 ≤ g.latencyEmaMs) :
    g.scoreChecked tips cfg = some (g.score tips cfg) ↔
      g.circuit = .opened ∨ g.SlotScoreDefined tips cfg := by
  have hlatency := g.latencyScoreChecked_eq h
  have herror := g.errorRateChecked_eq
  unfold scoreChecked score
  by_cases ho : g.circuit = .opened
  · simp [ho]
  · by_cases hdef : g.SlotScoreDefined tips cfg
    · have hslot := g.slotScoreChecked_of_defined tips cfg hdef
      by_cases hw : cfg.wLatency + cfg.wError + cfg.wSlot + cfg.wSuccess ≤ 0
      · simp [ho, hdef, hlatency, herror, hslot, hw]
      · have hne := (not_le.mp hw).ne'
        simp [ho, hdef, hlatency, herror, hslot, hw, checkedDiv_of_ne hne]
    · have hslot := g.slotScoreChecked_of_not_defined tips cfg hdef
      simp [ho, hdef, hlatency, herror, hslot]

end

/-- One call on the health of a provider. Latencies are measured durations. -/
inductive HealthCall where
  | recorded (call : RecordCall)
  | slotsUpdated (slots : CommitmentSlots) (round : Option Nat)

def ProviderHealth.after (h : ProviderHealth) (cfg : HealthConfig) : HealthCall → ProviderHealth
  | .recorded call => { h with inner := h.inner.recordCall call cfg }
  | .slotsUpdated slots round => h.updateSlotsInRound slots round

def healthCalls (cfg : HealthConfig) (name : String) :
    System (Instant × ProviderHealth) HealthCall where
  init s := s = (0, ⟨name, {}⟩)
  step s call :=
    match call with
    | .recorded c =>
      if s.1 ≤ c.time ∧ 0 ≤ c.latencyMs then some (c.time, s.2.after cfg call) else none
    | .slotsUpdated _ _ => some (s.1, s.2.after cfg call)

theorem Inner.pushSample_latency {g : Inner} (h : 0 ≤ g.latencyEmaMs) (now : Instant)
    (sample : Sample) {latencyMs : ℚ} (hl : 0 ≤ latencyMs) (update : Bool) (windowSecs : Nat) :
    0 ≤ (g.pushSample now sample latencyMs update windowSecs).latencyEmaMs := by
  cases sample with
  | success =>
    by_cases hu : update
    · by_cases hz : g.latencyEmaMs = 0
      · simpa [pushSample, pruneWindow, hu, hz] using hl
      · have hema : 0 ≤ 85 / 100 * g.latencyEmaMs + 15 / 100 * latencyMs := by positivity
        simpa [pushSample, pruneWindow, hu, hz] using hema
    · simpa [pushSample, pruneWindow, hu] using h
  | failure => exact h
  | throttle => exact h

theorem applyCircuitTransitions_latency (g : Inner) (now : Instant) (cfg : HealthConfig) :
    (applyCircuitTransitions g now cfg).latencyEmaMs = g.latencyEmaMs := by
  unfold applyCircuitTransitions
  split
  · split <;> rfl
  · split
    · split <;> rfl
    · rfl
  · split <;> rfl

theorem ProviderHealth.after_latency {s t : Instant × ProviderHealth} {cfg : HealthConfig}
    {name : String} {call : HealthCall} (hs : 0 ≤ s.2.inner.latencyEmaMs)
    (h : (healthCalls cfg name).step s call = some t) : 0 ≤ t.2.inner.latencyEmaMs := by
  cases call with
  | recorded c =>
    by_cases hc : s.1 ≤ c.time ∧ 0 ≤ c.latencyMs
    · obtain rfl : (c.time, s.2.after cfg (.recorded c)) = t := by
        simpa [healthCalls, hc] using h
      obtain ⟨update, he⟩ := s.2.inner.recordCall_eq c cfg
      show 0 ≤ (s.2.inner.recordCall c cfg).latencyEmaMs
      rw [he, applyCircuitTransitions_latency]
      exact Inner.pushSample_latency hs _ _ hc.2 _ _
    · simp [healthCalls, hc] at h
  | slotsUpdated slots round =>
    obtain rfl : (s.1, s.2.after cfg (.slotsUpdated slots round)) = t := Option.some.inj h
    exact hs

/-- In every reachable state the divisions of a score are all defined exactly when the
circuit is open, so that none is made, or the slot score does not divide by zero. -/
theorem score_defined_iff (cfg : HealthConfig) (name : String) (now : Instant)
    (health : ProviderHealth) (hr : (healthCalls cfg name).Reachable (now, health))
    (tips : TipSource) :
    (health.inner.errorRateChecked = some health.inner.errorRate ∧
      health.inner.scoreChecked tips cfg = some (health.inner.score tips cfg)) ↔
    health.inner.circuit = .opened ∨ 0 < cfg.slotDriftThreshold ∨
      (∀ c, health.inner.slots.get c = none) ∨
      ∃ c slot, health.inner.slots.get c = some slot ∧
        slot < tips c (health.inner.rounds.get c) := by
  have hlatency : 0 ≤ health.inner.latencyEmaMs := by
    refine System.invariant_reachable (T := healthCalls cfg name)
      (I := fun s => 0 ≤ s.2.inner.latencyEmaMs) ?_ ?_ hr
    · intro s hs
      rw [show s = (0, ⟨name, {}⟩) from hs]
    · exact fun s call t hs h => ProviderHealth.after_latency hs h
  have hscore := health.inner.scoreChecked_eq_iff tips cfg hlatency
  exact (and_iff_right health.inner.errorRateChecked_eq).trans hscore

/-- A provider that one probe found ten slots behind the tip, with one call answered. -/
def behindTheTip : ProviderHealth :=
  (⟨"a", {}⟩ : ProviderHealth).after { slotDriftThreshold := 0 }
    (.slotsUpdated { processed := some 90 } (some 1)) |>.after { slotDriftThreshold := 0 }
    (.recorded ⟨0, .success, 50, true⟩)

/-- Behind the tip a threshold of zero divides by the drift alone: the slot score is zero
and every division of the score is defined. -/
theorem score_defined_behind :
    behindTheTip.inner.slotScore (SlotTips.tip { processed := 100 })
        { slotDriftThreshold := 0 } = 0 ∧
      behindTheTip.inner.errorRateChecked = some behindTheTip.inner.errorRate ∧
        behindTheTip.inner.scoreChecked (SlotTips.tip { processed := 100 })
          { slotDriftThreshold := 0 } =
            some (behindTheTip.inner.score (SlotTips.tip { processed := 100 })
              { slotDriftThreshold := 0 }) :=
  ⟨by decide +kernel, (score_defined_iff { slotDriftThreshold := 0 } "a" 0 behindTheTip
    ⟨_, [.slotsUpdated { processed := some 90 } (some 1), .recorded ⟨0, .success, 50, true⟩],
      rfl, rfl⟩ (SlotTips.tip { processed := 100 })).mpr
    (.inr (.inr (.inr ⟨.processed, 90, by decide +kernel, by decide +kernel⟩)))⟩

/-- A threshold of zero passes validation, and a probe that finds the provider at the tip
then leaves its slot score zero over zero. -/
theorem score_zero_over_zero :
    ¬ ∀ config : Config, config.validate = .ok () → ∀ name now health,
      (healthCalls config.health name).Reachable (now, health) → ∀ tips : TipSource,
        health.inner.errorRateChecked = some health.inner.errorRate ∧
          health.inner.scoreChecked tips config.health =
            some (health.inner.score tips config.health) := by
  intro h
  have hs := h
    { providers := [{ name := "a", url := "http://a" }], health := { slotDriftThreshold := 0 } }
    rfl "a" 0 _
    ⟨_, [.slotsUpdated { processed := some 100 } (some 1), .recorded ⟨0, .success, 50, true⟩],
      rfl, rfl⟩
    (TipBook.tip ⟨{ processed := 100 }, fun _ => none⟩)
  exact absurd hs.2 (by decide +kernel)

end RpcPlane
