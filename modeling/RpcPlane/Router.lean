import RpcPlane.Health
import Mathlib.Data.List.Sort
import Mathlib.Data.List.Perm.Basic

/-! `route`: which providers a request is sent to, in which order, and whether it is
broadcast. The roll of `WeightedRandom` is an argument in `[0, 1)`. -/

namespace RpcPlane

inductive MethodClass where
  | read
  | write
  deriving DecidableEq, Repr

def classify (method : String) (writeMethods : List String) : MethodClass :=
  if writeMethods.contains method then .write else .read

structure RouteDecision where
  providers : List String
  broadcast : Bool
  degraded : Bool
  deriving DecidableEq, Repr

/-- The closure `supports` of `route`. A snapshot whose provider has left the
configuration supports everything. -/
def routeSupports (providers : List ProviderConfig) (method : String) (fullHistory : Bool)
    (name : String) : Bool :=
  (providers.find? (·.name == name)).all
    (fun p => p.supports method && !(fullHistory && p.history == .recent))

def availableFor (method : String) (snapshots : List HealthSnapshot)
    (providers : List ProviderConfig) (fullHistory : Bool) : List HealthSnapshot :=
  snapshots.filter (fun s => s.isAvailable && routeSupports providers method fullHistory s.name)

def sortByScore (l : List HealthSnapshot) : List HealthSnapshot :=
  l.insertionSort (fun a b => b.score ≤ a.score)

def weightOf (providers : List ProviderConfig) (s : HealthSnapshot) : ℚ :=
  let w : ℚ := ((providers.find? (·.name == s.name)).map (·.weight)).getD 1
  max (w * s.score) (1 / 1000000000)

def pickPrimary (roll : ℚ) : List ℚ → ℚ → Nat → Option Nat
  | [], _, _ => none
  | w :: ws, cum, i => if roll ≤ cum + w then some i else pickPrimary roll ws (cum + w) (i + 1)

def weightedOrder (providers : List ProviderConfig) (random : ℚ)
    (available : List HealthSnapshot) : List HealthSnapshot :=
  let weights := available.map (weightOf providers)
  let roll := random * weights.sum
  let primary := (pickPrimary roll weights 0 0).getD 0
  available[primary]?.toList ++ sortByScore (available.eraseIdx primary)

def failoverOrder (providers : List ProviderConfig) (available : List HealthSnapshot) :
    List HealthSnapshot :=
  providers.filterMap (fun p => available.find? (·.name == p.name)) ++
    available.filter (fun s => !providers.any (·.name == s.name))

def route (method : String) (snapshots : List HealthSnapshot) (strategy : RoutingStrategy)
    (providers : List ProviderConfig) (broadcastWrites : Bool) (writeMethods : List String)
    (fullHistory : Bool) (random : ℚ) : RouteDecision :=
  let cls := classify method writeMethods
  let available := availableFor method snapshots providers fullHistory
  if available.isEmpty then
    { providers :=
        (snapshots.filter (fun s => routeSupports providers method fullHistory s.name)).map (·.name)
      broadcast := broadcastWrites && cls == .write
      degraded := true }
  else if cls == .write && broadcastWrites then
    { providers := available.map (·.name), broadcast := true, degraded := false }
  else
    match strategy with
    | .bestScore =>
      { providers := (sortByScore available).map (·.name), broadcast := false, degraded := false }
    | .weightedRandom =>
      { providers := (weightedOrder providers random available).map (·.name)
        broadcast := false
        degraded := false }
    | .failoverOrdered =>
      { providers := (failoverOrder providers available).map (·.name)
        broadcast := false
        degraded := false }
    | .parallelRace =>
      { providers := (sortByScore available).map (·.name), broadcast := true, degraded := false }

theorem mem_sortByScore {l : List HealthSnapshot} {s : HealthSnapshot} :
    s ∈ sortByScore l ↔ s ∈ l :=
  (List.perm_insertionSort _ l).mem_iff

theorem pickPrimary_lt {roll : ℚ} {ws : List ℚ} {cum : ℚ} {i j : Nat}
    (h : pickPrimary roll ws cum i = some j) : i ≤ j ∧ j < i + ws.length := by
  induction ws generalizing cum i with
  | nil => simp [pickPrimary] at h
  | cons w ws ih =>
    by_cases hr : roll ≤ cum + w
    · obtain rfl : i = j := by simpa [pickPrimary, hr] using h
      simp
    · have hh := ih (by simpa [pickPrimary, hr] using h)
      simp only [List.length_cons]
      omega

theorem weightedOrder_perm (providers : List ProviderConfig) (random : ℚ)
    (available : List HealthSnapshot) :
    (weightedOrder providers random available).Perm available := by
  cases available with
  | nil => simp [weightedOrder, sortByScore]
  | cons a as =>
    let weights := (a :: as).map (weightOf providers)
    let primary := (pickPrimary (random * weights.sum) weights 0 0).getD 0
    have hlt : primary < (a :: as).length := by
      cases hp : pickPrimary (random * weights.sum) weights 0 0 with
      | none => simp [primary, hp]
      | some j =>
        have hh := (pickPrimary_lt hp).2
        simp only [weights, List.length_map] at hh
        simpa [primary, hp] using hh
    have hsort := List.perm_insertionSort (fun a b : HealthSnapshot => b.score ≤ a.score)
      ((a :: as).eraseIdx primary)
    have he : weightedOrder providers random (a :: as) =
        (a :: as)[primary] :: sortByScore ((a :: as).eraseIdx primary) := by
      simp only [weightedOrder]
      change (a :: as)[primary]?.toList ++ _ = _
      rw [List.getElem?_eq_getElem hlt]
      rfl
    rw [he]
    exact (hsort.cons _).trans (List.getElem_cons_eraseIdx_perm hlt)

theorem name_mem_failoverOrder {providers : List ProviderConfig}
    {available : List HealthSnapshot} {name : String} :
    name ∈ (failoverOrder providers available).map (·.name) ↔
      name ∈ available.map (·.name) := by
  constructor
  · intro h
    obtain ⟨s, hs, rfl⟩ := List.mem_map.mp h
    apply List.mem_map_of_mem
    rcases List.mem_append.mp hs with hs | hs
    · obtain ⟨p, -, hf⟩ := List.mem_filterMap.mp hs
      exact (key_of_find? hf).1
    · exact List.mem_of_mem_filter hs
  · intro h
    obtain ⟨s, hs, rfl⟩ := List.mem_map.mp h
    by_cases hp : s.name ∈ providers.map (·.name)
    · obtain ⟨p, hp, he⟩ := List.mem_map.mp hp
      obtain ⟨t, ht⟩ := exists_find?_key HealthSnapshot.name (k := p.name)
        (List.mem_map.mpr ⟨s, hs, he.symm⟩)
      refine List.mem_map.mpr ⟨t, ?_, (key_of_find? ht).2.trans he⟩
      exact List.mem_append_left _ (List.mem_filterMap.mpr ⟨p, hp, ht⟩)
    · refine List.mem_map.mpr ⟨s, List.mem_append_right _ (List.mem_filter.mpr ⟨hs, ?_⟩), rfl⟩
      simp only [List.any_eq_true, beq_iff_eq, not_exists, not_and, Bool.not_eq_true',
        Bool.eq_false_iff, ne_eq]
      exact fun p hm he => hp (List.mem_map.mpr ⟨p, hm, he⟩)

theorem failoverOrder_nodup {providers : List ProviderConfig} {available : List HealthSnapshot}
    (hp : (providers.map (·.name)).Nodup) (ha : (available.map (·.name)).Nodup) :
    ((failoverOrder providers available).map (·.name)).Nodup := by
  have hlisted : ∀ p ∈ providers, ∀ s, available.find? (·.name == p.name) = some s →
      s.name = p.name := fun p _ s hs => (key_of_find? hs).2
  rw [failoverOrder, List.map_append, List.nodup_append]
  refine ⟨?_, (List.filter_sublist.map _).nodup ha, ?_⟩
  · rw [List.map_filterMap]
    refine List.Nodup.sublist ?_ hp
    clear hp ha
    induction providers with
    | nil => simp
    | cons p ps ih =>
      have hh := ih (fun q hq => hlisted q (List.mem_cons_of_mem _ hq))
      rw [List.map_cons]
      cases hf : available.find? (·.name == p.name) with
      | none =>
        rw [List.filterMap_cons_none (by simp [hf])]
        exact hh.cons _
      | some s =>
        rw [List.filterMap_cons_some (b := p.name)
          (by simp [hf, hlisted p List.mem_cons_self s hf])]
        exact hh.cons_cons _
  · intro a hfirst b hrest hab
    obtain ⟨s, hs, rfl⟩ := List.mem_map.mp hfirst
    obtain ⟨t, ht, rfl⟩ := List.mem_map.mp hrest
    obtain ⟨p, hpm, hf⟩ := List.mem_filterMap.mp hs
    have hout := (List.mem_filter.mp ht).2
    simp only [Bool.not_eq_true', List.any_eq_false, beq_iff_eq] at hout
    exact hout p hpm ((hlisted p hpm s hf).symm.trans hab)

theorem availableFor_eq_nil {method : String} {snapshots : List HealthSnapshot}
    {providers : List ProviderConfig} {fullHistory : Bool} :
    availableFor method snapshots providers fullHistory = [] ↔ ∀ s ∈ snapshots,
      routeSupports providers method fullHistory s.name = true → s.isAvailable = false := by
  simp only [availableFor, List.filter_eq_nil_iff, Bool.and_eq_true, not_and]
  constructor
  · intro h s hs hr
    exact Bool.eq_false_iff.mpr (fun ha => h s hs ha hr)
  · intro h s hs ha hr
    exact Bool.eq_false_iff.mp (h s hs hr) ha

section

variable (method : String) (snapshots : List HealthSnapshot) (strategy : RoutingStrategy)
  (providers : List ProviderConfig) (broadcastWrites : Bool) (writeMethods : List String)
  (fullHistory : Bool) (random : ℚ)

theorem route_degraded :
    (route method snapshots strategy providers broadcastWrites writeMethods fullHistory
      random).degraded = (availableFor method snapshots providers fullHistory).isEmpty := by
  unfold route
  dsimp only
  cases ha : (availableFor method snapshots providers fullHistory).isEmpty with
  | true => rfl
  | false =>
    cases hw : classify method writeMethods == .write && broadcastWrites with
    | true => simp
    | false => cases strategy <;> simp

theorem mem_route_degraded (h : availableFor method snapshots providers fullHistory = [])
    {name : String} :
    name ∈ (route method snapshots strategy providers broadcastWrites writeMethods fullHistory
        random).providers ↔
      ∃ s ∈ snapshots, s.name = name ∧ routeSupports providers method fullHistory name = true := by
  simp only [route, h, List.isEmpty_nil, if_true, List.mem_map, List.mem_filter]
  constructor
  · rintro ⟨s, ⟨hs, hr⟩, rfl⟩
    exact ⟨s, hs, rfl, hr⟩
  · rintro ⟨s, hs, rfl, hr⟩
    exact ⟨s, ⟨hs, hr⟩, rfl⟩

theorem mem_route_available (h : availableFor method snapshots providers fullHistory ≠ [])
    {name : String} :
    name ∈ (route method snapshots strategy providers broadcastWrites writeMethods fullHistory
        random).providers ↔
      name ∈ (availableFor method snapshots providers fullHistory).map (·.name) := by
  have he : (availableFor method snapshots providers fullHistory).isEmpty = false := by
    simpa using h
  unfold route
  simp only [he, Bool.false_eq_true, if_false]
  cases hw : classify method writeMethods == .write && broadcastWrites with
  | true => simp only [if_true]
  | false =>
    simp only [Bool.false_eq_true, if_false]
    cases strategy with
    | bestScore => simp only [List.mem_map, mem_sortByScore]
    | weightedRandom => simp only [List.mem_map, (weightedOrder_perm _ _ _).mem_iff]
    | failoverOrdered => exact name_mem_failoverOrder
    | parallelRace => simp only [List.mem_map, mem_sortByScore]

theorem route_nodup (hs : (snapshots.map (·.name)).Nodup) (hp : (providers.map (·.name)).Nodup) :
    (route method snapshots strategy providers broadcastWrites writeMethods fullHistory
      random).providers.Nodup := by
  have ha : ((availableFor method snapshots providers fullHistory).map (·.name)).Nodup :=
    (List.filter_sublist.map _).nodup hs
  have hsort := List.perm_insertionSort (fun a b : HealthSnapshot => b.score ≤ a.score)
    (availableFor method snapshots providers fullHistory)
  unfold route
  dsimp only
  split
  · exact (List.filter_sublist.map _).nodup hs
  · split
    · exact ha
    · cases strategy with
      | bestScore => exact (hsort.map _).nodup_iff.mpr ha
      | weightedRandom => exact ((weightedOrder_perm _ _ _).map _).nodup_iff.mpr ha
      | failoverOrdered => exact failoverOrder_nodup hp ha
      | parallelRace => exact (hsort.map _).nodup_iff.mpr ha

theorem supports_of_mem_route {name : String}
    (h : name ∈ (route method snapshots strategy providers broadcastWrites writeMethods
      fullHistory random).providers) :
    name ∈ snapshots.map (·.name) ∧ routeSupports providers method fullHistory name = true := by
  by_cases ha : availableFor method snapshots providers fullHistory = []
  · obtain ⟨s, hs, rfl, hr⟩ := (mem_route_degraded _ _ _ _ _ _ _ _ ha).mp h
    exact ⟨List.mem_map_of_mem hs, hr⟩
  · obtain ⟨s, hs, rfl⟩ := List.mem_map.mp ((mem_route_available _ _ _ _ _ _ _ _ ha).mp h)
    simp only [availableFor, List.mem_filter, Bool.and_eq_true] at hs
    exact ⟨List.mem_map_of_mem hs.1, hs.2.2⟩

theorem route_providers_eq_nil :
    (route method snapshots strategy providers broadcastWrites writeMethods fullHistory
      random).providers = [] ↔
      ∀ s ∈ snapshots, routeSupports providers method fullHistory s.name = false := by
  constructor
  · intro h s hs
    by_contra hr
    have hr : routeSupports providers method fullHistory s.name = true := by simpa using hr
    by_cases ha : availableFor method snapshots providers fullHistory = []
    · have hm := (mem_route_degraded method snapshots strategy providers broadcastWrites
        writeMethods fullHistory random ha).mpr ⟨s, hs, rfl, hr⟩
      rw [h] at hm
      exact List.not_mem_nil hm
    · obtain ⟨t, ht⟩ := List.exists_mem_of_ne_nil _ ha
      have hm := (mem_route_available method snapshots strategy providers broadcastWrites
        writeMethods fullHistory random ha).mpr (List.mem_map_of_mem ht)
      rw [h] at hm
      exact List.not_mem_nil hm
  · intro h
    apply List.eq_nil_iff_forall_not_mem.mpr
    intro name hm
    obtain ⟨hs, hr⟩ := supports_of_mem_route _ _ _ _ _ _ _ _ hm
    obtain ⟨s, hs', rfl⟩ := List.mem_map.mp hs
    exact absurd hr (by simp [h s hs'])

/-- The broadcast flag: writes under `broadcast_writes`, and whatever `ParallelRace`
is handed while some provider is routable. -/
theorem route_broadcast :
    (route method snapshots strategy providers broadcastWrites writeMethods fullHistory
      random).broadcast = ((broadcastWrites && classify method writeMethods == .write) ||
        (strategy == .parallelRace &&
          !(availableFor method snapshots providers fullHistory).isEmpty)) := by
  unfold route
  dsimp only
  cases ha : (availableFor method snapshots providers fullHistory).isEmpty with
  | true => simp
  | false =>
    cases hw : classify method writeMethods == .write && broadcastWrites with
    | true =>
      rw [Bool.and_comm] at hw
      simp [hw]
    | false =>
      have hw' : (broadcastWrites && classify method writeMethods == .write) = false := by
        rw [Bool.and_comm, hw]
      cases strategy <;> simp [hw']

end

end RpcPlane
