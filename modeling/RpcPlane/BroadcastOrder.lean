import RpcPlane.Broadcast

/-! What a broadcast returns and records, whatever the order in which its legs complete. -/

namespace RpcPlane

def BroadcastLeg.outcome (ctx : RequestCtx) (env : Env) (leg : BroadcastLeg) : Outcome :=
  (env.forward leg.name).outcome ctx.historyLookup leg.provider

def BroadcastLeg.recorded (ctx : RequestCtx) (env : Env) (leg : BroadcastLeg) : RecordedLeg :=
  ⟨ctx.method, leg.name, leg.outcome ctx env, (env.forward leg.name).latencyMs, ctx.count⟩

variable {config : Config} {ctx : RequestCtx} {env : Env} {rateGate : Bool}
  {panics : String → Bool}

theorem BroadcastLeg.result_of_ok {leg : BroadcastLeg} (h : leg.outcome ctx env = .ok) :
    ∃ r, (env.forward leg.name).result = .ok r := by
  cases hr : (env.forward leg.name).result with
  | error e => simp [outcome, Leg.outcome, hr] at h
  | ok r => exact ⟨r, rfl⟩

theorem BroadcastLeg.answer_of_error? {leg : BroadcastLeg} {e : BestError}
    (h : leg.error? ctx env = some e) :
    ∃ r, (env.forward leg.name).result = .ok r ∧ Reply.of e.status e.body = ⟨r.status, r.body⟩ := by
  cases hr : (env.forward leg.name).result with
  | error _ => simp [error?, hr] at h
  | ok r =>
    obtain rfl := Option.some.inj ((error?_ok hr).symm.trans h)
    exact ⟨r, rfl, by simp [Reply.of]⟩

theorem legEffects_recorded (leg : BroadcastLeg) :
    (legEffects ctx env leg).filterMap Effect.recorded = [leg.recorded ctx env] := rfl

theorem legEffects_finished (leg : BroadcastLeg) :
    (legEffects ctx env leg).filterMap Effect.finished = [] := rfl

theorem stragglerDrain_cons (leg : BroadcastLeg) (rest : List BroadcastLeg) :
    stragglerDrain ctx env panics (leg :: rest) =
      (if panics leg.name then [.completed leg.name] else legEffects ctx env leg) ++
        stragglerDrain ctx env panics rest := by
  simp [stragglerDrain]

theorem stragglerDrain_recorded (legs : List BroadcastLeg) :
    (stragglerDrain ctx env panics legs).filterMap Effect.recorded =
      (legs.filter (!panics ·.name)).map (BroadcastLeg.recorded ctx env) := by
  induction legs with
  | nil => rfl
  | cons leg rest ih =>
    rw [stragglerDrain_cons, List.filterMap_append, ih]
    by_cases hp : panics leg.name
    · simp [hp, Effect.recorded]
    · simp [hp, legEffects_recorded]

theorem stragglerDrain_finished (legs : List BroadcastLeg) :
    (stragglerDrain ctx env panics legs).filterMap Effect.finished = [] := by
  induction legs with
  | nil => rfl
  | cons leg rest ih =>
    rw [stragglerDrain_cons, List.filterMap_append, ih]
    by_cases hp : panics leg.name
    · simp [hp, Effect.finished]
    · simp [hp, legEffects_finished]

/-- One turn of the loop over `join_next`: the leg ends the race, or the race goes on with
what the leg left. -/
theorem race_cons (ctx : RequestCtx) (env : Env) (leg : BroadcastLeg) (rest : List BroadcastLeg) (best : Option BestError)
    (hp : panics leg.name = false) :
    (∃ r, leg.outcome ctx env = .ok ∧ (env.forward leg.name).result = .ok r ∧
      race ctx env panics (leg :: rest) best =
        ⟨legEffects ctx env leg ++ [.finish (ctx.finish r.body 200 (some leg.name))] ++
          stragglerDrain ctx env panics rest, .of 200 r.body⟩) ∨
    (leg.outcome ctx env ≠ .ok ∧ ∃ best', race ctx env panics (leg :: rest) best =
      (race ctx env panics rest best').after (legEffects ctx env leg)) := by
  by_cases ho : leg.outcome ctx env = .ok
  · obtain ⟨r, hr⟩ := BroadcastLeg.result_of_ok ho
    have ho' : (env.forward leg.name).outcome ctx.historyLookup leg.provider = .ok := ho
    exact Or.inl ⟨r, ho, hr, by simp [race, hp, hr, ho']⟩
  · have ho' : (env.forward leg.name).outcome ctx.historyLookup leg.provider ≠ .ok := ho
    refine Or.inr ⟨ho, ?_⟩
    cases hr : (env.forward leg.name).result with
    | error e => exact ⟨best, by simp [race, hp, hr]⟩
    | ok r => exact ⟨_, by simp [race, hp, hr, ho']; rfl⟩

theorem race_first_ok {legs : List BroadcastLeg} {best : Option BestError} {leg : BroadcastLeg}
    (h : (legs.filter (!panics ·.name)).find? (fun l => decide (l.outcome ctx env = .ok)) =
      some leg) :
    ∃ r, (env.forward leg.name).result = .ok r ∧
      (race ctx env panics legs best).reply = ⟨.ok, r.body⟩ := by
  induction legs generalizing best with
  | nil => simp at h
  | cons first rest ih =>
    by_cases hp : panics first.name = true
    · rw [List.filter_cons_of_neg (by simp [hp])] at h
      rw [race_of_panics hp]
      exact ih h
    · rw [List.filter_cons_of_pos (by simpa using hp)] at h
      have hp' := Bool.eq_false_iff.mpr hp
      rcases race_cons ctx env first rest best hp' with
        ⟨r, ho, hr, he⟩ | ⟨ho, best', he⟩
      · rw [List.find?_cons_of_pos (by simpa using ho)] at h
        obtain rfl := Option.some.inj h
        exact ⟨r, hr, by rw [he]; rfl⟩
      · rw [List.find?_cons_of_neg (by simpa using ho)] at h
        rw [he]
        exact ih h

theorem race_records (legs : List BroadcastLeg) (best : Option BestError) :
    (race ctx env panics legs best).records =
      (legs.filter (!panics ·.name)).map (BroadcastLeg.recorded ctx env) := by
  induction legs generalizing best with
  | nil => cases best <;> rfl
  | cons leg rest ih =>
    by_cases hp : panics leg.name = true
    · rw [race_of_panics hp, List.filter_cons_of_neg (by simp [hp]), Run.after_records, ih]
      rfl
    · rw [List.filter_cons_of_pos (by simpa using hp), List.map_cons]
      rcases race_cons ctx env leg rest best (Bool.eq_false_iff.mpr hp) with
        ⟨r, -, -, he⟩ | ⟨-, best', he⟩
      · rw [he]
        simp only [Run.records, List.filterMap_append, legEffects_recorded,
          stragglerDrain_recorded]
        rfl
      · rw [he, Run.after_records, legEffects_recorded, ih]
        rfl

/-- `finish_analytics` is called once, with the body and status that the client gets. -/
theorem race_finishes (legs : List BroadcastLeg) {best : Option BestError} :
    ∃ call, (race ctx env panics legs best).finishes = [call] ∧
      (race ctx env panics legs best).reply = .of call.status call.response := by
  induction legs generalizing best with
  | nil => cases best <;> exact ⟨_, rfl, rfl⟩
  | cons leg rest ih =>
    by_cases hp : panics leg.name = true
    · rw [race_of_panics hp, Run.after_finishes]
      exact ih
    · rcases race_cons ctx env leg rest best (Bool.eq_false_iff.mpr hp) with
        ⟨r, -, -, he⟩ | ⟨-, best', he⟩
      · rw [he]
        simp only [Run.finishes, List.filterMap_append, legEffects_finished,
          stragglerDrain_finished]
        exact ⟨_, rfl, rfl⟩
      · rw [he, Run.after_finishes, legEffects_finished]
        exact ih

/-- The spawned legs that do not panic, in the order of the provider list. -/
def answeringLegs (config : Config) (env : Env) (rateGate : Bool) (panics : String → Bool)
    (providers : List String) : List BroadcastLeg :=
  (spawnLegs config env rateGate providers).2.filter (!panics ·.name)

theorem completedLegs_perm (config : Config) (env : Env) (rateGate : Bool) (order : Race)
    (providers : List String) :
    (completedLegs config env rateGate order providers).Perm
      (answeringLegs config env rateGate order.panics providers) :=
  (order.perm _).filter _

theorem spawnLegs_filterMap {β : Type} {f : Effect → Option β}
    (hlimited : ∀ n, f (.rateLimited n) = none) (hsent : ∀ n, f (.sent n) = none)
    (providers : List String) :
    (spawnLegs config env rateGate providers).1.filterMap f = [] := by
  simp only [spawnLegs, List.filterMap_flatMap, List.flatMap_eq_nil_iff]
  intro n _
  unfold spawnLeg
  split
  · rfl
  · split_ifs
    · rfl
    · simp [hlimited]
    · simp [hsent]

theorem broadcast_of_ne_nil {providers : List String} (h : providers ≠ []) (order : Race) :
    broadcast config ctx env rateGate order providers =
      (race ctx env order.panics (order.arrange (spawnLegs config env rateGate providers).2)
        none).after (spawnLegs config env rateGate providers).1 := by
  rw [broadcast, if_neg (by simpa using h)]

theorem completedLegs_nil (order : Race) : completedLegs config env rateGate order [] = [] := by
  have hnil : order.arrange [] = [] := List.perm_nil.mp (order.perm [])
  simp [completedLegs, spawnLegs, hnil]

theorem broadcast_records (config : Config) (ctx : RequestCtx) (env : Env) (rateGate : Bool)
    (order : Race) (providers : List String) :
    (broadcast config ctx env rateGate order providers).records =
      (completedLegs config env rateGate order providers).map (BroadcastLeg.recorded ctx env) := by
  by_cases h : providers = []
  · subst h
    rw [completedLegs_nil]
    rfl
  · rw [broadcast_of_ne_nil h, Run.after_records,
      spawnLegs_filterMap (fun _ => rfl) (fun _ => rfl), race_records]
    rfl

theorem broadcast_finishes (config : Config) (ctx : RequestCtx) (env : Env) (rateGate : Bool)
    (order : Race) (providers : List String) :
    ∃ call, (broadcast config ctx env rateGate order providers).finishes = [call] ∧
      (broadcast config ctx env rateGate order providers).reply = .of call.status call.response := by
  by_cases h : providers = []
  · subst h
    exact ⟨_, rfl, rfl⟩
  · rw [broadcast_of_ne_nil h, Run.after_finishes,
      spawnLegs_filterMap (fun _ => rfl) (fun _ => rfl)]
    exact race_finishes _

section

variable {order : Race} {providers : List String}

theorem broadcast_first_ok {leg : BroadcastLeg}
    (h : (completedLegs config env rateGate order providers).find?
      (fun l => decide (l.outcome ctx env = .ok)) = some leg) :
    ∃ r, (env.forward leg.name).result = .ok r ∧
      (broadcast config ctx env rateGate order providers).reply = ⟨.ok, r.body⟩ := by
  have hne : providers ≠ [] := by
    rintro rfl
    simp [completedLegs_nil] at h
  rw [broadcast_of_ne_nil hne, Run.after_reply]
  exact race_first_ok h

def bestAnswer (ctx : RequestCtx) (env : Env) (legs : List BroadcastLeg) : Option BestError :=
  firstMax BestError.rank none (legs.filterMap (BroadcastLeg.error? ctx env))

theorem broadcast_no_ok (hne : providers ≠ [])
    (h : ∀ leg ∈ completedLegs config env rateGate order providers, leg.outcome ctx env ≠ .ok) :
    (broadcast config ctx env rateGate order providers).reply =
      (bestErrorRun ctx (bestAnswer ctx env
        (completedLegs config env rateGate order providers))).reply := by
  rw [broadcast_of_ne_nil hne, Run.after_reply, race_reply h]
  rfl

theorem bestAnswer_eq_some {legs : List BroadcastLeg} {e : BestError}
    (h : bestAnswer ctx env legs = some e) :
    (∃ leg ∈ legs, leg.error? ctx env = some e) ∧
      ∀ leg ∈ legs, ∀ e', leg.error? ctx env = some e' → e'.rank ≤ e.rank := by
  obtain ⟨hmem, -, hle⟩ := firstMax_eq_some h
  have hin : e ∈ legs.filterMap (BroadcastLeg.error? ctx env) := by simpa using hmem
  exact ⟨List.mem_filterMap.mp hin,
    fun leg hl e' he => hle e' (List.mem_filterMap.mpr ⟨leg, hl, he⟩)⟩

theorem bestAnswer_isSome {legs : List BroadcastLeg} {leg : BroadcastLeg} (hl : leg ∈ legs)
    (h : (leg.error? ctx env).isSome) : (bestAnswer ctx env legs).isSome := by
  obtain ⟨e, he⟩ := Option.isSome_iff_exists.mp h
  exact firstMax_isSome (Or.inr (List.ne_nil_of_mem (List.mem_filterMap.mpr ⟨leg, hl, he⟩)))

theorem bestAnswer_perm {legs legs' : List BroadcastLeg} (hp : legs.Perm legs') {e e' : BestError}
    (h : bestAnswer ctx env legs = some e) (h' : bestAnswer ctx env legs' = some e') :
    e.rank = e'.rank :=
  firstMax_rank_perm (hp.filterMap _) h h'

end

section reply

variable {order : Race} {providers : List String}

theorem broadcast_success (h : ∃ leg ∈ completedLegs config env rateGate order providers,
    leg.outcome ctx env = .ok) : ∃ leg r,
      (completedLegs config env rateGate order providers).find?
        (fun l => decide (l.outcome ctx env = .ok)) = some leg ∧
      (env.forward leg.name).result = .ok r ∧
      (broadcast config ctx env rateGate order providers).reply = ⟨.ok, r.body⟩ := by
  obtain ⟨leg, hl, ho⟩ := h
  have hsome : ((completedLegs config env rateGate order providers).find?
      (fun l => decide (l.outcome ctx env = .ok))).isSome :=
    List.find?_isSome.mpr ⟨leg, hl, by simpa using ho⟩
  obtain ⟨first, hfirst⟩ := Option.isSome_iff_exists.mp hsome
  obtain ⟨r, hr, hreply⟩ := broadcast_first_ok hfirst
  exact ⟨first, r, hfirst, hr, hreply⟩

variable (hok : ∀ leg ∈ completedLegs config env rateGate order providers,
  leg.outcome ctx env ≠ .ok)

include hok

/-- Without a success the answer is the best one there is. -/
theorem broadcast_best {e : BestError} (hbest : bestAnswer ctx env
    (completedLegs config env rateGate order providers) = some e) :
    ∃ leg ∈ completedLegs config env rateGate order providers, ∃ r,
      (env.forward leg.name).result = .ok r ∧
      (broadcast config ctx env rateGate order providers).reply = ⟨r.status, r.body⟩ ∧
      leg.error? ctx env = some e := by
  obtain ⟨⟨leg, hl, he⟩, -⟩ := bestAnswer_eq_some hbest
  obtain ⟨r, hr, hof⟩ := BroadcastLeg.answer_of_error? he
  have hne : providers ≠ [] := by
    rintro rfl
    simp [completedLegs_nil] at hl
  have hreply := broadcast_no_ok hne hok
  rw [hbest] at hreply
  exact ⟨leg, hl, r, hr, hreply.trans hof, he⟩

theorem broadcast_no_answer (hnil : ∀ leg ∈ completedLegs config env rateGate order providers,
    leg.error? ctx env = none) :
    (broadcast config ctx env rateGate order providers).reply =
      if providers = [] then noProvidersAvailable else allProvidersFailed := by
  by_cases hne : providers = []
  · subst hne
    rfl
  · have hreply := broadcast_no_ok hne hok
    have hbest : bestAnswer ctx env (completedLegs config env rateGate order providers) = none := by
      rw [bestAnswer, List.filterMap_eq_nil_iff.mpr hnil]
      rfl
    rw [hbest] at hreply
    rw [if_neg hne]
    exact hreply

end reply

/-- Every leg set and every order of completion: the first success wins, else an answer of
the greatest rank there is, and every leg is recorded once. `rank` does not depend on the
order. -/
theorem broadcast_order_law (config : Config) (ctx : RequestCtx) (env : Env) (rateGate : Bool)
    (panics : String → Bool) (providers : List String) :
    let legs := answeringLegs config env rateGate panics providers
    ∃ rank, ∀ order : Race, order.panics = panics →
      let completed := completedLegs config env rateGate order providers
      let run := broadcast config ctx env rateGate order providers
      completed.Perm legs ∧
      ((∃ leg ∈ legs, leg.outcome ctx env = .ok) → ∃ leg r,
        completed.find? (fun l => decide (l.outcome ctx env = .ok)) = some leg ∧
        (env.forward leg.name).result = .ok r ∧ run.reply = ⟨.ok, r.body⟩) ∧
      ((∀ leg ∈ legs, leg.outcome ctx env ≠ .ok) →
        ((∃ leg ∈ legs, (leg.error? ctx env).isSome) → ∃ leg ∈ legs, ∃ r e,
          (env.forward leg.name).result = .ok r ∧ run.reply = ⟨r.status, r.body⟩ ∧
          leg.error? ctx env = some e ∧ e.rank = rank ∧
          ∀ other ∈ legs, ∀ e', other.error? ctx env = some e' → e'.rank ≤ rank) ∧
        ((∀ leg ∈ legs, leg.error? ctx env = none) → run.reply =
          if providers = [] then noProvidersAvailable else allProvidersFailed)) ∧
      run.records = completed.map (BroadcastLeg.recorded ctx env) ∧
      run.finishes.length = 1 := by
  intro legs
  refine ⟨((bestAnswer ctx env legs).map BestError.rank).getD 0, ?_⟩
  rintro order rfl
  intro completed run
  have hp : completed.Perm legs := completedLegs_perm config env rateGate order providers
  have hdone : (∀ leg ∈ legs, leg.outcome ctx env ≠ .ok) →
      ∀ leg ∈ completed, leg.outcome ctx env ≠ .ok := fun hok l hl => hok l (hp.subset hl)
  refine ⟨hp, ?_, fun hok => ⟨?_, ?_⟩, broadcast_records config ctx env rateGate order providers,
    ?_⟩
  · rintro ⟨leg, hl, ho⟩
    exact broadcast_success ⟨leg, hp.symm.subset hl, ho⟩
  · rintro ⟨leg, hl, he⟩
    obtain ⟨e, hbest⟩ := Option.isSome_iff_exists.mp
      (bestAnswer_isSome (hp.symm.subset hl) he)
    obtain ⟨b, hb⟩ := Option.isSome_iff_exists.mp (bestAnswer_isSome hl he)
    have hrank : e.rank = b.rank := bestAnswer_perm hp hbest hb
    obtain ⟨winner, hw, r, hr, hreply, hwe⟩ := broadcast_best (hdone hok) hbest
    refine ⟨winner, hp.subset hw, r, e, hr, hreply, hwe, by simp [hb, hrank], ?_⟩
    intro other ho e' he'
    have hle := (bestAnswer_eq_some hbest).2 other (hp.symm.subset ho) e' he'
    simpa [hb, ← hrank] using hle
  · intro hnil
    exact broadcast_no_answer (hdone hok) (fun l hl => hnil l (hp.subset hl))
  · obtain ⟨call, hcall, -⟩ := broadcast_finishes config ctx env rateGate order providers
    simp [run, hcall]

end RpcPlane
