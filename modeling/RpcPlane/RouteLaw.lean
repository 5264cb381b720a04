import RpcPlane.Router

/-! What `route` decides: exactly the providers that can serve the request, in the order
its strategy asks for. -/

namespace RpcPlane

/-- The configuration lets the provider of a snapshot serve the request. -/
def CanServe (providers : List ProviderConfig) (method : String) (fullHistory : Bool)
    (s : HealthSnapshot) : Prop :=
  ∀ p ∈ providers, p.name = s.name →
    p.supports method = true ∧ ¬ (fullHistory = true ∧ p.history = .recent)

instance (providers : List ProviderConfig) (method : String) (fullHistory : Bool)
    (s : HealthSnapshot) : Decidable (CanServe providers method fullHistory s) :=
  inferInstanceAs (Decidable (∀ p ∈ providers, _ → _))

def routable (providers : List ProviderConfig) (method : String) (fullHistory : Bool)
    (snapshots : List HealthSnapshot) : List HealthSnapshot :=
  snapshots.filter (fun s => s.isAvailable && decide (CanServe providers method fullHistory s))

section

variable {providers : List ProviderConfig} {method : String} {fullHistory : Bool}
  {snapshots : List HealthSnapshot}

theorem routeSupports_eq (hp : (providers.map (·.name)).Nodup) (s : HealthSnapshot) :
    routeSupports providers method fullHistory s.name =
      decide (CanServe providers method fullHistory s) := by
  rw [Bool.eq_iff_iff, decide_eq_true_iff]
  unfold routeSupports
  constructor
  · intro h p hm hn
    have hfind := find?_key_of_mem hp hm
    rw [hn] at hfind
    simp only [hfind, Option.all_some, Bool.and_eq_true, Bool.not_eq_true', Bool.and_eq_false_iff,
      beq_eq_false_iff_ne] at h
    refine ⟨h.1, fun hfull => ?_⟩
    rcases h.2 with hf | hr
    · exact absurd hfull.1 (by simp [hf])
    · exact hr hfull.2
  · intro h
    cases hfind : providers.find? (·.name == s.name) with
    | none => rfl
    | some p =>
      obtain ⟨hm, hn⟩ := key_of_find? hfind
      obtain ⟨hs, hfull⟩ := h p hm hn
      by_cases hf : fullHistory = true
      · have hr : p.history ≠ .recent := fun hr => hfull ⟨hf, hr⟩
        simp [hs, hr]
      · simp [hs, hf]

theorem availableFor_eq (hp : (providers.map (·.name)).Nodup) :
    availableFor method snapshots providers fullHistory =
      routable providers method fullHistory snapshots := by
  unfold availableFor routable
  simp only [routeSupports_eq hp]

end

def ByScore (l : List HealthSnapshot) : Prop := l.Pairwise (fun a b => b.score ≤ a.score)

theorem sortByScore_byScore (l : List HealthSnapshot) : ByScore (sortByScore l) := by
  have htotal : Std.Total (fun a b : HealthSnapshot => b.score ≤ a.score) :=
    ⟨fun a b => le_total b.score a.score⟩
  have htrans : IsTrans HealthSnapshot (fun a b => b.score ≤ a.score) :=
    ⟨fun a b c hab hbc => hbc.trans hab⟩
  exact List.pairwise_insertionSort _ l

theorem weightedOrder_tail (providers : List ProviderConfig) (random : ℚ)
    (available : List HealthSnapshot) :
    ByScore (weightedOrder providers random available).tail := by
  unfold weightedOrder
  dsimp only
  generalize (pickPrimary _ _ _ _).getD 0 = primary
  have hsorted := sortByScore_byScore (available.eraseIdx primary)
  cases available[primary]? with
  | none => exact hsorted.sublist (List.tail_sublist _)
  | some s => exact hsorted

/-- The configuration's order, then the names it does not list. -/
def configOrder (providers : List ProviderConfig) (names : List String) : List String :=
  (providers.map (·.name)).filter (fun n => decide (n ∈ names)) ++
    names.filter (fun n => decide (n ∉ providers.map (·.name)))

theorem failoverOrder_names (providers : List ProviderConfig) (available : List HealthSnapshot) :
    (failoverOrder providers available).map (·.name) =
      configOrder providers (available.map (·.name)) := by
  unfold failoverOrder configOrder
  rw [List.map_append]
  congr 1
  · induction providers with
    | nil => rfl
    | cons p rest ih =>
      rw [List.map_cons, List.filter_cons]
      by_cases hm : p.name ∈ available.map (·.name)
      · obtain ⟨s, hs⟩ := exists_find?_key HealthSnapshot.name hm
        rw [List.filterMap_cons, hs, if_pos (by simpa using hm), ← ih]
        dsimp only
        rw [List.map_cons, (key_of_find? hs).2]
      · have hnone : available.find? (·.name == p.name) = none := by
          rw [List.find?_eq_none]
          intro s hs he
          have hn : s.name = p.name := by simpa using he
          exact hm (List.mem_map.mpr ⟨s, hs, hn⟩)
        rw [List.filterMap_cons, hnone, if_neg (by simpa using hm), ← ih]
  · rw [List.filter_map]
    congr 1
    apply List.filter_congr
    intro s _
    rw [Function.comp_apply, Bool.eq_iff_iff, Bool.not_eq_true', List.any_eq_false,
      decide_eq_true_iff, List.mem_map]
    simp only [beq_iff_eq, not_exists, not_and]

def StrategyOrder (strategy : RoutingStrategy) (providers : List ProviderConfig)
    (names : List String) (ranked : List HealthSnapshot) : Prop :=
  match strategy with
  | .bestScore => ByScore ranked
  | .parallelRace => ByScore ranked
  | .weightedRandom => ByScore ranked.tail
  | .failoverOrdered => ranked.map (·.name) = configOrder providers names

section

variable (method : String) (snapshots : List HealthSnapshot) (strategy : RoutingStrategy)
  (providers : List ProviderConfig) (broadcastWrites : Bool) (writeMethods : List String)
  (fullHistory : Bool) (random : ℚ)

/-- A route that is not degraded: the available snapshots, rearranged. -/
theorem route_ranked (h : availableFor method snapshots providers fullHistory ≠ []) :
    ∃ ranked, (route method snapshots strategy providers broadcastWrites writeMethods fullHistory
        random).providers = ranked.map (·.name) ∧
      (∀ s ∈ ranked, s ∈ availableFor method snapshots providers fullHistory) ∧
      (¬ (classify method writeMethods = .write ∧ broadcastWrites = true) →
        StrategyOrder strategy providers
          ((availableFor method snapshots providers fullHistory).map (·.name)) ranked) := by
  have he : (availableFor method snapshots providers fullHistory).isEmpty = false := by
    simpa using h
  generalize ha : availableFor method snapshots providers fullHistory = available at h he
  by_cases hw : classify method writeMethods = .write ∧ broadcastWrites = true
  · exact ⟨available, by simp [route, ha, he, hw], fun _ hs => hs, fun hn => absurd hw hn⟩
  · have hw' : (classify method writeMethods == .write && broadcastWrites) = false := by
      rw [Bool.eq_false_iff]
      simpa using hw
    cases strategy with
    | bestScore =>
      refine ⟨sortByScore available, by simp [route, ha, he, hw'], fun _ => mem_sortByScore.mp,
        fun _ => sortByScore_byScore available⟩
    | parallelRace =>
      refine ⟨sortByScore available, by simp [route, ha, he, hw'], fun _ => mem_sortByScore.mp,
        fun _ => sortByScore_byScore available⟩
    | weightedRandom =>
      refine ⟨weightedOrder providers random available, by simp [route, ha, he, hw'], ?_,
        fun _ => weightedOrder_tail providers random available⟩
      exact fun _ => (weightedOrder_perm providers random available).mem_iff.mp
    | failoverOrdered =>
      refine ⟨failoverOrder providers available, by simp [route, ha, he, hw'], ?_,
        fun _ => failoverOrder_names providers available⟩
      intro s hs
      rcases List.mem_append.mp hs with hs | hs
      · obtain ⟨p, -, hf⟩ := List.mem_filterMap.mp hs
        exact (key_of_find? hf).1
      · exact List.mem_of_mem_filter hs

theorem route_sound_complete (hs : (snapshots.map (·.name)).Nodup)
    (hp : (providers.map (·.name)).Nodup) :
    let decision := route method snapshots strategy providers broadcastWrites writeMethods
      fullHistory random
    let e := routable providers method fullHistory snapshots
    decision.providers.Nodup ∧
      (e ≠ [] → decision.degraded = false ∧ decision.providers.Perm (e.map (·.name)) ∧
        (¬ (classify method writeMethods = .write ∧ broadcastWrites = true) →
          ∃ ranked, decision.providers = ranked.map (·.name) ∧ (∀ s ∈ ranked, s ∈ snapshots) ∧
            StrategyOrder strategy providers (e.map (·.name)) ranked)) ∧
      (e = [] → decision.degraded = true ∧ decision.providers =
        (snapshots.filter (fun s => decide (CanServe providers method fullHistory s))).map
          (·.name)) := by
  intro decision e
  have he : availableFor method snapshots providers fullHistory = e := availableFor_eq hp
  have hnd : decision.providers.Nodup := route_nodup _ _ _ _ _ _ _ _ hs hp
  have hdeg : decision.degraded = e.isEmpty := by
    rw [← he]
    exact route_degraded _ _ _ _ _ _ _ _
  refine ⟨hnd, fun hne => ⟨?_, ?_, fun hw => ?_⟩, fun hnil => ⟨?_, ?_⟩⟩
  · rw [hdeg]
    simpa using hne
  · refine (List.perm_ext_iff_of_nodup hnd ((List.filter_sublist.map _).nodup hs)).mpr ?_
    intro name
    have hmem : name ∈ decision.providers ↔ name ∈
        (availableFor method snapshots providers fullHistory).map (·.name) :=
      mem_route_available _ _ _ _ _ _ _ _ (he ▸ hne)
    rw [he] at hmem
    exact hmem
  · obtain ⟨ranked, hmap, hmem, horder⟩ := route_ranked method snapshots strategy providers
      broadcastWrites writeMethods fullHistory random (he ▸ hne)
    refine ⟨ranked, hmap, fun s hr => List.mem_of_mem_filter (hmem s hr), ?_⟩
    rw [he] at horder
    exact horder hw
  · rw [hdeg, hnil]
    rfl
  · have hempty : (availableFor method snapshots providers fullHistory).isEmpty = true := by
      rw [he, hnil]
      rfl
    simp only [decision, route, hempty, if_true, routeSupports_eq hp]

end

theorem route_sound_complete_weighted :
    let snapshots : List HealthSnapshot := [{ name := "a", score := 1 / 2 },
      { name := "gone", score := 1 }, { name := "b", score := 1, circuit := .opened }]
    let providers : List ProviderConfig := [{ name := "a", url := "http://a" },
      { name := "b", url := "http://b", methods := some ["getSlot"] }]
    let decision := route "getSlot" snapshots .weightedRandom providers true [] true (1 / 4)
    decision.providers.Nodup ∧ decision.degraded = false := by
  intro snapshots providers decision
  have hlaw := route_sound_complete "getSlot" snapshots .weightedRandom providers true [] true
    (1 / 4) (by decide) (by decide)
  exact ⟨hlaw.1, (hlaw.2.1 (by decide +kernel)).1⟩

end RpcPlane
