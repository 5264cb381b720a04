import RpcPlane.Handle

/-! Writes without `broadcast_writes`: one provider at a time, unless the race strategy
gets hold of them. -/

namespace RpcPlane

def Effect.inFlight : Effect → Int
  | .sent _ => 1
  | .completed _ => -1
  | _ => 0

def inFlight (effects : List Effect) : Int := (effects.map Effect.inFlight).sum

/-- Every forward starts only after the ones before it have completed. -/
def OneAtATime (effects : List Effect) : Prop := ∀ n, inFlight (effects.take n) ≤ 1

theorem inFlight_append (a b : List Effect) : inFlight (a ++ b) = inFlight a + inFlight b := by
  simp [inFlight]

theorem inFlight_quiet {a : List Effect} (h : ∀ e ∈ a, e.inFlight = 0) : inFlight a = 0 := by
  rw [inFlight, List.map_congr_left h]
  simp

theorem oneAtATime_quiet {a : List Effect} (h : ∀ e ∈ a, e.inFlight = 0) : OneAtATime a := by
  intro n
  rw [inFlight_quiet (fun e he => h e (List.mem_of_mem_take he))]
  decide

theorem OneAtATime.append {a b : List Effect} (ha : OneAtATime a) (hz : inFlight a = 0)
    (hb : OneAtATime b) : OneAtATime (a ++ b) := by
  intro n
  rw [List.take_append, inFlight_append]
  rcases Nat.le_total n a.length with hn | hn
  · rw [Nat.sub_eq_zero_of_le hn, List.take_zero]
    simpa [inFlight] using ha n
  · rw [List.take_of_length_le hn, hz, zero_add]
    exact hb _

variable {config : Config} {ctx : RequestCtx} {env : Env} {rateGate : Bool} {max : Nat}

theorem Loop.failover_quiet (l : Loop) (name : String) :
    ∀ e ∈ l.failover name, e.inFlight = 0 := by
  intro e he
  rw [Loop.failover_eq] at he
  obtain ⟨f, -, rfl⟩ := List.mem_map.mp he
  rfl

theorem forwardEffects_oneAtATime (ctx : RequestCtx) (l : Loop) (name : String) (outcome : Outcome)
    (latencyMs : ℚ) :
    OneAtATime (forwardEffects ctx l name outcome latencyMs) ∧
      inFlight (forwardEffects ctx l name outcome latencyMs) = 0 := by
  have hq := l.failover_quiet name
  refine ⟨(oneAtATime_quiet hq).append (inFlight_quiet hq) ?_, ?_⟩
  · intro n
    match n with
    | 0 | 1 | 2 => simp [inFlight, Effect.inFlight]
    | n + 3 => simp [inFlight, Effect.inFlight]
  · rw [forwardEffects, inFlight_append, inFlight_quiet hq]
    rfl

theorem exhausted_quiet (ctx : RequestCtx) (l : Loop) :
    ∀ e ∈ (exhausted ctx l).effects, e.inFlight = 0 := by
  obtain ⟨status, h⟩ := exhausted_effects ctx l
  rw [h]
  intro e he
  obtain rfl := List.mem_singleton.mp he
  rfl

theorem Course.oneAtATime {names : List String} {l : Loop} {run : Run}
    (h : Course config ctx env rateGate max names l run) : OneAtATime run.effects := by
  induction h with
  | @exhausted _ l => exact oneAtATime_quiet (exhausted_quiet ctx l)
  | skipped _ _ _ ih => exact ih
  | shed _ _ _ ih => exact OneAtATime.append (oneAtATime_quiet (by simp [Effect.inFlight])) rfl ih
  | @retried name _ l _ _ _ outcome _ _ _ _ ih =>
    obtain ⟨ho, hz⟩ := forwardEffects_oneAtATime ctx l name outcome
      (env.forward name).latencyMs
    exact ho.append hz ih
  | @answered name _ l _ outcome =>
    obtain ⟨ho, hz⟩ := forwardEffects_oneAtATime ctx l name outcome
      (env.forward name).latencyMs
    exact ho.append hz (oneAtATime_quiet (by simp [Effect.inFlight]))

/-- With `broadcast_writes` off, a write or any other request goes to one provider at a
time exactly when the strategy is no race or no provider is routable. -/
theorem write_one_at_a_time_iff (config : Config) (world : World) (body : Body)
    (hb : config.routing.broadcastWrites = false) :
    ((world.decision config (requestClass config body)).broadcast = false ∧
      OneAtATime (handleRpc config world body).effects) ↔
    config.routing.strategy ≠ .parallelRace ∨
      availableFor (requestClass config body).method world.snapshots config.providers
        (requestClass config body).fullHistory = [] := by
  have hbroadcast : (world.decision config (requestClass config body)).broadcast = false ↔
      config.routing.strategy ≠ .parallelRace ∨
        availableFor (requestClass config body).method world.snapshots config.providers
          (requestClass config body).fullHistory = [] := by
    rw [World.decision, RequestClass.decision, route_broadcast, hb]
    simp [List.isEmpty_iff, imp_iff_not_or]
  rw [← hbroadcast, and_iff_left_iff_imp]
  intro h
  rw [handleRpc]
  simp only [h, Bool.false_eq_true, if_false]
  exact (sequentialLoop_course _ _ _ _ _ _ _).oneAtATime

def bothClosed : World where
  snapshots := [{ name := "a", score := 1 }, { name := "b", score := 1 / 2 }]
  env := ⟨fun _ => true, fun _ => true, fun _ => ⟨.error "connection refused", 1⟩⟩

theorem write_one_at_a_time_best_score :
    OneAtATime (handleRpc twoProviders bothClosed sendTransaction.body).effects :=
  ((write_one_at_a_time_iff twoProviders bothClosed sendTransaction.body rfl).mpr (Or.inl (by decide))).2

def racingProviders : Config :=
  { twoProviders with routing := { strategy := .parallelRace } }

theorem race_broadcasts_write :
    racingProviders.routing.broadcastWrites = false ∧
      (requestClass racingProviders sendTransaction.body).method ∈ racingProviders.routing.writeMethods ∧
      (bothClosed.decision racingProviders (requestClass racingProviders sendTransaction.body)).broadcast =
        true ∧
      ¬ OneAtATime (handleRpc racingProviders bothClosed sendTransaction.body).effects := by
  refine ⟨rfl, List.mem_singleton_self _, by decide +kernel, fun h => ?_⟩
  have hh := h 2
  exact absurd hh (by decide +kernel)

end RpcPlane
