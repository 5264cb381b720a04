import RpcPlane.CircuitRuns
import RpcPlane.Health

/-! What the window of a provider holds after a run of calls, and what the error rate read
at some later time says about the samples of the window then. -/

namespace RpcPlane

/-- The score at a given error rate. -/
def Inner.scoreAt (g : Inner) (rate : ℚ) (tips : TipSource) (cfg : HealthConfig) : ℚ :=
  if g.circuit = .opened then 0
  else
    let totalW := cfg.wLatency + cfg.wError + cfg.wSlot + cfg.wSuccess
    if totalW ≤ 0 then 1 / 2
    else
      (cfg.wLatency * g.latencyScore + cfg.wError * (1 - rate) +
        cfg.wSlot * g.slotScore tips cfg + cfg.wSuccess * (1 - rate)) / totalW

theorem Inner.score_eq_scoreAt (g : Inner) (tips : TipSource) (cfg : HealthConfig) :
    g.score tips cfg = g.scoreAt g.errorRate tips cfg := rfl

def failingRate (calls : List RecordCall) : ℚ :=
  if calls.isEmpty then 0
  else (calls.countP (·.sample != .success) : ℚ) / calls.length

/-- The calls in the window that ends at `now`. -/
def callsWithin (calls : List RecordCall) (now : Instant) (windowSecs : Nat) : List RecordCall :=
  calls.filter (now - fromSecs windowSecs ≤ ·.time)

/-- The calls that were in the window at `last` and have left it at `now`. -/
def callsAged (calls : List RecordCall) (last now : Instant) (windowSecs : Nat) :
    List RecordCall :=
  (callsWithin calls last windowSecs).filter (·.time < now - fromSecs windowSecs)

theorem failingRate_of_ne {calls : List RecordCall} (h : calls ≠ []) :
    failingRate calls = (calls.countP (·.sample != .success) : ℚ) / calls.length := by
  simp [failingRate, h]

/-- Adding samples keeps a rate only when they fail at that rate. -/
theorem mediant_eq_iff {a b c d : ℚ} (hc : 0 < c) (hd : 0 < d) :
    (a + b) / (c + d) = b / d ↔ a / c = b / d := by
  rw [div_eq_div_iff (by positivity) hd.ne', div_eq_div_iff hc.ne' hd.ne']
  constructor
  · intro h
    linarith
  · intro h
    linarith

theorem failingRate_perm {xs ys : List RecordCall} (h : xs.Perm ys) :
    failingRate xs = failingRate ys := by
  unfold failingRate
  rw [h.countP_eq, h.length_eq, h.isEmpty_eq]

theorem failingRate_append_eq_iff (aged fresh : List RecordCall) :
    failingRate (aged ++ fresh) = failingRate fresh ↔
      aged = [] ∨ failingRate aged = failingRate fresh := by
  by_cases ha : aged = []
  · simp [ha]
  · have hapos : (0 : ℚ) < aged.length := by
      exact_mod_cast List.length_pos_of_ne_nil ha
    by_cases hf : fresh = []
    · simp [hf, ha]
    · have hfpos : (0 : ℚ) < fresh.length := by
        exact_mod_cast List.length_pos_of_ne_nil hf
      rw [or_iff_right ha, failingRate_of_ne ha, failingRate_of_ne hf,
        failingRate_of_ne (by simp [ha]), List.countP_append, List.length_append]
      push_cast
      exact mediant_eq_iff hapos hfpos

theorem callsWithin_callsWithin (calls : List RecordCall) {last now : Instant} (h : last ≤ now)
    (windowSecs : Nat) :
    callsWithin (callsWithin calls last windowSecs) now windowSecs =
      callsWithin calls now windowSecs := by
  unfold callsWithin
  rw [List.filter_filter]
  apply List.filter_congr
  intro call _
  have hcut : last - fromSecs windowSecs ≤ now - fromSecs windowSecs := Nat.sub_le_sub_right h _
  by_cases hc : now - fromSecs windowSecs ≤ call.time
  · simp [hc, hcut.trans hc]
  · simp [hc]

theorem callsWithin_perm (calls : List RecordCall) {last now : Instant} (h : last ≤ now)
    (windowSecs : Nat) :
    (callsWithin calls last windowSecs).Perm
      (callsAged calls last now windowSecs ++ callsWithin calls now windowSecs) := by
  have hsplit := List.filter_append_perm
    (fun call : RecordCall => decide (call.time < now - fromSecs windowSecs))
    (callsWithin calls last windowSecs)
  have hrest : (callsWithin calls last windowSecs).filter
      (fun call => !decide (call.time < now - fromSecs windowSecs)) =
      callsWithin calls now windowSecs := by
    rw [← callsWithin_callsWithin calls h windowSecs]
    apply List.filter_congr
    intro call _
    by_cases hc : call.time < now - fromSecs windowSecs
    · simp only [hc, not_le.mpr hc, decide_true, decide_false, Bool.not_true]
    · simp only [hc, not_lt.mp hc, decide_true, decide_false, Bool.not_false]
  rw [hrest] at hsplit
  exact hsplit.symm

/-- What a run of calls leaves: every sample within the window of the last call. -/
structure CallsInv (cfg : HealthConfig) (calls : List RecordCall) (s : Instant × Inner) :
    Prop where
  kept : s.2.window = (callsWithin calls s.1 cfg.windowSecs).map (fun c => (c.time, c.sample))
  past : ∀ c ∈ calls, c.time ≤ s.1
  inv : RecordInv cfg s

theorem CallsInv.start (cfg : HealthConfig) : CallsInv cfg [] (0, {}) where
  kept := rfl
  past := by simp
  inv := RecordInv.start cfg

theorem CallsInv.step {cfg : HealthConfig} {calls : List RecordCall} {s t : Instant × Inner}
    {call : RecordCall} (hi : CallsInv cfg calls s)
    (h : (recordings cfg).step s call = some t) : CallsInv cfg (calls ++ [call]) t := by
  have hinv := hi.inv.step h
  have hle : s.1 ≤ call.time := by
    by_contra hn
    simp [recordings, hn] at h
  obtain rfl : (call.time, s.2.recordCall call cfg) = t := by simpa [recordings, hle] using h
  refine ⟨?_, ?_, hinv⟩
  · have hself : callsWithin [call] call.time cfg.windowSecs = [call] := by
      simp [callsWithin]
    have hold : s.2.inWindow call.time cfg.windowSecs =
        (callsWithin calls call.time cfg.windowSecs).map (fun c => (c.time, c.sample)) := by
      rw [← callsWithin_callsWithin calls hle cfg.windowSecs, Inner.inWindow, hi.kept,
        List.filter_map]
      rfl
    show (s.2.recordCall call cfg).window = _
    rw [s.2.recordCall_window call cfg, Inner.pruneWindow_window hi.inv.sorted, hold]
    unfold callsWithin at hself ⊢
    rw [List.filter_append, hself, List.map_append]
    rfl
  · intro c hc
    rcases List.mem_append.mp hc with hc | hc
    · exact (hi.past c hc).trans hle
    · obtain rfl := List.mem_singleton.mp hc
      exact le_rfl

theorem CallsInv.errorRate {cfg : HealthConfig} {calls : List RecordCall}
    {s : Instant × Inner} (hi : CallsInv cfg calls s) :
    s.2.errorRate = failingRate (callsWithin calls s.1 cfg.windowSecs) := by
  unfold Inner.errorRate failingRate
  rw [hi.kept, List.isEmpty_map, List.length_map, List.countP_map]
  rfl

theorem recordings_history {cfg : HealthConfig} {calls : List RecordCall} {s : Instant × Inner}
    (hrun : (recordings cfg).run (0, {}) calls = some s) : CallsInv cfg calls s :=
  System.invariant_history (CallsInv.start cfg) (fun _ _ _ _ _ hi h => hi.step h) hrun

/-- A snapshot reads the samples as the last call left them, so its rate is that of the
window at the time it is taken exactly when the samples that have left since then
failed in the same proportion as those still in the window. -/
theorem snapshot_rate_iff (cfg : HealthConfig) (calls : List RecordCall) (last : Instant)
    (g : Inner) (hrun : (recordings cfg).run (0, {}) calls = some (last, g)) (now : Instant)
    (hnow : last ≤ now) (name : String) (tips : TipSource) :
    (((⟨name, g⟩ : ProviderHealth).snapshot tips cfg).errorRate =
        failingRate (callsWithin calls now cfg.windowSecs) ∧
      ((⟨name, g⟩ : ProviderHealth).snapshot tips cfg).score =
        g.scoreAt (failingRate (callsWithin calls now cfg.windowSecs)) tips cfg) ↔
    callsAged calls last now cfg.windowSecs = [] ∨
      failingRate (callsAged calls last now cfg.windowSecs) =
        failingRate (callsWithin calls now cfg.windowSecs) := by
  have hrate : g.errorRate = failingRate (callsAged calls last now cfg.windowSecs ++
      callsWithin calls now cfg.windowSecs) :=
    (recordings_history hrun).errorRate.trans
      (failingRate_perm (callsWithin_perm calls hnow cfg.windowSecs))
  rw [← failingRate_append_eq_iff, ← hrate]
  constructor
  · intro h
    exact h.1
  · intro h
    refine ⟨h, ?_⟩
    show g.score tips cfg = _
    rw [g.score_eq_scoreAt, h]

/-- Half of the calls fail, of the two at the start and of the four after them. -/
def evenCalls : List RecordCall :=
  [⟨0, .failure, 0, false⟩, ⟨0, .success, 50, true⟩, ⟨fromSecs 40, .failure, 0, false⟩,
    ⟨fromSecs 41, .success, 70, true⟩, ⟨fromSecs 45, .throttle, 0, false⟩,
    ⟨fromSecs 50, .success, 90, true⟩]

/-- After seventy seconds the first two have left the window. -/
theorem snapshot_rate_iff_even :
    ∃ g, (recordings {}).run (0, {}) evenCalls = some (fromSecs 50, g) ∧
      (callsAged evenCalls (fromSecs 50) (fromSecs 70) 60).length = 2 ∧
      (callsWithin evenCalls (fromSecs 70) 60).length = 4 ∧
      ((⟨"a", g⟩ : ProviderHealth).snapshot (SlotTips.tip {}) {}).errorRate = 1 / 2 ∧
      ((⟨"a", g⟩ : ProviderHealth).snapshot (SlotTips.tip {}) {}).errorRate =
        failingRate (callsWithin evenCalls (fromSecs 70) 60) ∧
      ((⟨"a", g⟩ : ProviderHealth).snapshot (SlotTips.tip {}) {}).score =
        g.scoreAt (failingRate (callsWithin evenCalls (fromSecs 70) 60)) (SlotTips.tip {}) {} := by
  let g : Inner := evenCalls.foldl (fun g call => g.recordCall call {}) {}
  have hrun : (recordings {}).run (0, {}) evenCalls = some (fromSecs 50, g) := rfl
  have haged : failingRate (callsAged evenCalls (fromSecs 50) (fromSecs 70) 60) = 1 / 2 := by
    decide +kernel
  have hwithin : failingRate (callsWithin evenCalls (fromSecs 70) 60) = 1 / 2 := by decide +kernel
  have hsnapshot := (snapshot_rate_iff {} evenCalls (fromSecs 50) g hrun (fromSecs 70) (by decide)
    "a" (SlotTips.tip {})).mpr (.inr (haged.trans hwithin.symm))
  exact ⟨g, hrun, by decide +kernel, by decide +kernel, hsnapshot.1.trans hwithin, hsnapshot⟩

/-- One failure, then a minute and more without a call. -/
theorem snapshot_rate_after_silence :
    ¬ ∀ config : Config, config.validate = .ok () → ∀ calls last g,
      (recordings config.health).run (0, {}) calls = some (last, g) → ∀ now, last ≤ now →
      ∀ name tips, ((⟨name, g⟩ : ProviderHealth).snapshot tips config.health).errorRate =
          failingRate (callsWithin calls now config.health.windowSecs) ∧
        ((⟨name, g⟩ : ProviderHealth).snapshot tips config.health).score =
          g.scoreAt (failingRate (callsWithin calls now config.health.windowSecs)) tips
            config.health := by
  intro h
  have hs := h { providers := [{ name := "a", url := "http://a" }] } rfl
    [⟨0, .failure, 0, false⟩] 0 _ rfl (fromSecs 61) (by decide) "a" (SlotTips.tip {})
  exact absurd hs.1 (by decide +kernel)

end RpcPlane
