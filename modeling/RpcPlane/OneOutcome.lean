import RpcPlane.BroadcastOrder

/-! One answer, one outcome: the sequential path classifies a leg as the broadcast path
does, in every state of its loop. -/

namespace RpcPlane

variable {config : Config} {ctx : RequestCtx} {env : Env} {rateGate : Bool}

/-- The leg is recorded with the outcome that `from_leg` gives its answer. -/
def RecordedLeg.Classified (config : Config) (ctx : RequestCtx) (env : Env) (leg : RecordedLeg) :
    Prop :=
  ∃ provider, config.provider leg.provider = some provider ∧
    ∀ r, (env.forward leg.provider).result = .ok r →
      leg.outcome = .fromLeg r.status.asU16 r.body ctx.historyLookup provider

theorem classified_of_outcome {leg : RecordedLeg} {provider : ProviderConfig}
    (hp : config.provider leg.provider = some provider)
    (ho : leg.outcome = (env.forward leg.provider).outcome ctx.historyLookup provider) :
    leg.Classified config ctx env := by
  refine ⟨provider, hp, ?_⟩
  intro r hr
  rw [ho, Leg.outcome, hr]

theorem spawnLeg_provider {name : String} {leg : BroadcastLeg}
    (h : (spawnLeg config env rateGate name).2 = some leg) :
    config.provider leg.name = some leg.provider := by
  unfold spawnLeg at h
  cases hp : config.provider name with
  | none => simp [hp] at h
  | some provider =>
    rw [hp] at h
    dsimp only at h
    split_ifs at h
    obtain rfl := Option.some.inj h
    exact hp

theorem completedLegs_provider {order : Race} {providers : List String} {leg : BroadcastLeg}
    (h : leg ∈ completedLegs config env rateGate order providers) :
    config.provider leg.name = some leg.provider := by
  have hspawned : leg ∈ (spawnLegs config env rateGate providers).2 :=
    (order.perm _).subset (List.mem_filter.mp h).1
  obtain ⟨name, -, hname⟩ := List.mem_filterMap.mp hspawned
  exact spawnLeg_provider hname

theorem broadcast_classified (config : Config) (ctx : RequestCtx) (env : Env) (rateGate : Bool)
    (order : Race) (providers : List String) :
    ∀ leg ∈ (broadcast config ctx env rateGate order providers).records,
      leg.Classified config ctx env := by
  rw [broadcast_records]
  intro recorded hrecorded
  obtain ⟨leg, hleg, rfl⟩ := List.mem_map.mp hrecorded
  exact classified_of_outcome (completedLegs_provider hleg) rfl

/-- For every answer, provider and state of the sequential loop, the outcome that is
recorded is the one of `from_leg`, which is what a broadcast records too. -/
theorem one_classification (config : Config) (ctx : RequestCtx) (env : Env) (rateGate : Bool) :
    (∀ max l name provider rest r,
      (receive config ctx max l name provider rest (.ok r)).1 =
        .fromLeg r.status.asU16 r.body ctx.historyLookup provider) ∧
    (∀ max l providers, let run := sequentialLoop config ctx env rateGate max providers l
      run.records.map (·.provider) = run.forwards ∧
        ∀ leg ∈ run.records, leg.Classified config ctx env) ∧
    ∀ order providers, ∀ leg ∈ (broadcast config ctx env rateGate order providers).records,
      leg.Classified config ctx env := by
  refine ⟨?_, ?_, broadcast_classified config ctx env rateGate⟩
  · intro max l name provider rest r
    exact receive_outcome config ctx max l name provider rest ⟨.ok r, 0⟩
  · intro max l providers run
    have hcourse : Course config ctx env rateGate max providers l run :=
      sequentialLoop_course config ctx env rateGate max providers l
    refine ⟨hcourse.records_eq, ?_⟩
    intro leg hleg
    obtain ⟨provider, hp, ho⟩ := hcourse.records_outcome leg hleg
    exact classified_of_outcome hp ho

end RpcPlane
