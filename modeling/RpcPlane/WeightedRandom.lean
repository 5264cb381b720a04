import RpcPlane.Router
import RpcPlane.Shares
import Mathlib.Algebra.Order.BigOperators.Group.List
import Mathlib.Algebra.Order.Field.Basic

/-! `WeightedRandom`: the scan over the running sum splits the rolls among the available
providers in proportion to their weights. -/

namespace RpcPlane

theorem weightOf_pos (providers : List ProviderConfig) (s : HealthSnapshot) :
    0 < weightOf providers s := by
  have hfloor : (0 : ℚ) < 1 / 1000000000 := by norm_num
  exact lt_max_of_lt_right hfloor

/-- The scan stops at the first weight whose running sum reaches the roll. -/
theorem pickPrimary_iff {roll cum : ℚ} {ws : List ℚ} {i j : Nat} :
    pickPrimary roll ws cum i = some j ↔ ∃ k < ws.length, j = i + k ∧
      roll ≤ cum + (ws.take (k + 1)).sum ∧ ∀ m < k, cum + (ws.take (m + 1)).sum < roll := by
  induction ws generalizing cum i with
  | nil => simp [pickPrimary]
  | cons w ws ih =>
    have hsum : ∀ m, cum + ((w :: ws).take (m + 1)).sum = cum + w + (ws.take m).sum := by
      intro m
      rw [List.take_succ_cons, List.sum_cons, add_assoc]
    simp only [hsum]
    by_cases hw : roll ≤ cum + w
    · rw [pickPrimary, if_pos hw]
      constructor
      · intro h
        obtain rfl := Option.some.inj h
        exact ⟨0, Nat.succ_pos _, rfl, by simpa using hw, fun m hm => absurd hm (Nat.not_lt_zero m)⟩
      · rintro ⟨k, -, rfl, -, hearlier⟩
        cases k with
        | zero => rfl
        | succ k =>
          have hfirst := hearlier 0 (Nat.succ_pos k)
          rw [List.take_zero, List.sum_nil, add_zero] at hfirst
          exact absurd hw (not_le.mpr hfirst)
    · rw [pickPrimary, if_neg hw, ih]
      constructor
      · rintro ⟨k, hk, rfl, hup, hearlier⟩
        refine ⟨k + 1, Nat.succ_lt_succ hk, by omega, hup, ?_⟩
        intro m hm
        cases m with
        | zero => simpa using hw
        | succ m => exact hearlier m (by omega)
      · rintro ⟨k, hk, rfl, hup, hearlier⟩
        cases k with
        | zero =>
          rw [List.take_zero, List.sum_nil, add_zero] at hup
          exact absurd hup hw
        | succ k =>
          refine ⟨k, Nat.lt_of_succ_lt_succ hk, by omega, hup, ?_⟩
          intro m hm
          exact hearlier (m + 1) (by omega)

theorem pickPrimary_eq_share {roll : ℚ} {ws : List ℚ} {i : Nat} (hws : ∀ w ∈ ws, 0 < w)
    (hi : i < ws.length) (hroll : 0 ≤ roll) (h : roll ∈ share ws i) :
    pickPrimary roll ws 0 0 = some i := by
  obtain ⟨hup, hearlier⟩ := (mem_share_iff hws hi hroll).mp h
  rw [pickPrimary_iff]
  refine ⟨i, hi, (Nat.zero_add i).symm, ?_, ?_⟩
  · rwa [zero_add]
  · intro m hm
    rw [zero_add]
    exact hearlier m hm

section

variable (method : String) (snapshots : List HealthSnapshot) (providers : List ProviderConfig)
  (broadcastWrites : Bool) (writeMethods : List String) (fullHistory : Bool)

def availableWeights : List ℚ :=
  (availableFor method snapshots providers fullHistory).map (weightOf providers)

/-- The provider placed first for a roll in `[0, total)`. -/
def firstFor (roll : ℚ) : Option String :=
  (route method snapshots .weightedRandom providers broadcastWrites writeMethods fullHistory
    (roll / (availableWeights method snapshots providers fullHistory).sum)).providers.head?

/-- The rolls that place a provider first. -/
def rollsFor (name : String) : Set ℚ :=
  {roll | roll ∈ Set.Ico 0 (availableWeights method snapshots providers fullHistory).sum ∧
    firstFor method snapshots providers broadcastWrites writeMethods fullHistory roll = some name}

theorem availableWeights_pos :
    ∀ w ∈ availableWeights method snapshots providers fullHistory, 0 < w := by
  intro w hw
  obtain ⟨s, -, rfl⟩ := List.mem_map.mp hw
  exact weightOf_pos providers s

theorem availableWeights_length :
    (availableWeights method snapshots providers fullHistory).length =
      (availableFor method snapshots providers fullHistory).length :=
  List.length_map _

theorem availableWeights_sum_pos (h : availableFor method snapshots providers fullHistory ≠ []) :
    0 < (availableWeights method snapshots providers fullHistory).sum := by
  have hne : availableWeights method snapshots providers fullHistory ≠ [] := by
    simpa [availableWeights] using h
  exact List.sum_pos _ (availableWeights_pos method snapshots providers fullHistory) hne

variable {method snapshots providers broadcastWrites writeMethods fullHistory}

theorem firstFor_eq (hreached : (classify method writeMethods == .write && broadcastWrites) = false)
    {roll : ℚ} {i : Nat} (hi : i < (availableFor method snapshots providers fullHistory).length)
    (hroll : 0 ≤ roll)
    (hshare : roll ∈ share (availableWeights method snapshots providers fullHistory) i) :
    firstFor method snapshots providers broadcastWrites writeMethods fullHistory roll =
      some (availableFor method snapshots providers fullHistory)[i].name := by
  have hne : availableFor method snapshots providers fullHistory ≠ [] :=
    List.ne_nil_of_length_pos (by omega)
  have hnonempty : (availableFor method snapshots providers fullHistory).isEmpty = false :=
    List.isEmpty_eq_false_iff.mpr hne
  have htotal := availableWeights_sum_pos method snapshots providers fullHistory hne
  have hscaled : roll / (availableWeights method snapshots providers fullHistory).sum *
      (availableWeights method snapshots providers fullHistory).sum = roll :=
    div_mul_cancel₀ roll htotal.ne'
  have hlen := availableWeights_length method snapshots providers fullHistory
  have hpick := pickPrimary_eq_share
    (availableWeights_pos method snapshots providers fullHistory) (by omega) hroll hshare
  unfold availableWeights at hscaled hpick
  unfold firstFor route
  simp only [hnonempty, hreached, Bool.false_eq_true, if_false]
  unfold weightedOrder availableWeights
  simp only [hscaled, hpick, Option.getD_some, List.getElem?_eq_getElem hi, Option.toList_some,
    List.singleton_append, List.map_cons, List.head?_cons]

/-- Only a provider's own share places it first. -/
theorem rollsFor_eq (hreached : (classify method writeMethods == .write && broadcastWrites) = false)
    (hnd : (snapshots.map (·.name)).Nodup) {i : Nat}
    (hi : i < (availableFor method snapshots providers fullHistory).length) :
    rollsFor method snapshots providers broadcastWrites writeMethods fullHistory
        (availableFor method snapshots providers fullHistory)[i].name =
      share (availableWeights method snapshots providers fullHistory) i ∩
        Set.Ico 0 (availableWeights method snapshots providers fullHistory).sum := by
  have hnames : ((availableFor method snapshots providers fullHistory).map (·.name)).Nodup :=
    (List.filter_sublist.map _).nodup hnd
  have hlen := availableWeights_length method snapshots providers fullHistory
  have hne : availableWeights method snapshots providers fullHistory ≠ [] :=
    List.ne_nil_of_length_pos (by omega)
  ext roll
  constructor
  · rintro ⟨hrange, hfirst⟩
    obtain ⟨j, hj, hshare⟩ := exists_share
      (availableWeights_pos method snapshots providers fullHistory) hne hrange.1 hrange.2.le
    rw [firstFor_eq hreached (by omega) hrange.1 hshare] at hfirst
    have hj' : j < ((availableFor method snapshots providers fullHistory).map (·.name)).length := by
      rw [List.length_map]
      omega
    have hi' : i < ((availableFor method snapshots providers fullHistory).map (·.name)).length := by
      rwa [List.length_map]
    have hname : ((availableFor method snapshots providers fullHistory).map (·.name))[j] =
        ((availableFor method snapshots providers fullHistory).map (·.name))[i] := by
      simpa using hfirst
    have hsame : j = i := hnames.getElem_inj_iff.mp hname
    exact ⟨hsame ▸ hshare, hrange⟩
  · rintro ⟨hshare, hrange⟩
    exact ⟨hrange, firstFor_eq hreached hi hrange.1 hshare⟩

/-- A broadcast write does not come to the strategies, and the monitor's map has one entry for
each name. -/
theorem weightedRandom_proportional
    (hreached : (classify method writeMethods == .write && broadcastWrites) = false)
    (havailable : availableFor method snapshots providers fullHistory ≠ []) :
    let available := availableFor method snapshots providers fullHistory
    let weights := availableWeights method snapshots providers fullHistory
    (∀ roll ∈ Set.Ico 0 weights.sum, ∃! i, i < available.length ∧ roll ∈ share weights i) ∧
      (∀ roll ∈ Set.Ico 0 weights.sum, ∀ i (hi : i < available.length), roll ∈ share weights i →
        firstFor method snapshots providers broadcastWrites writeMethods fullHistory roll =
          some available[i].name) ∧
      ((snapshots.map (·.name)).Nodup → ∀ i (hi : i < available.length),
        HasLength (rollsFor method snapshots providers broadcastWrites writeMethods fullHistory
            available[i].name) (weightOf providers available[i]) ∧
          (rollsFor method snapshots providers broadcastWrites writeMethods fullHistory
            available[i].name).Nonempty) := by
  intro available weights
  have hpos : ∀ w ∈ weights, 0 < w := availableWeights_pos method snapshots providers fullHistory
  have hlen : weights.length = available.length :=
    availableWeights_length method snapshots providers fullHistory
  have hne : weights ≠ [] := by
    apply List.ne_nil_of_length_pos
    rw [hlen]
    exact List.length_pos_iff.mpr havailable
  refine ⟨?_, ?_, ?_⟩
  · intro roll hroll
    obtain ⟨i, hi, hshare⟩ := exists_share hpos hne hroll.1 hroll.2.le
    refine ⟨i, ⟨by omega, hshare⟩, ?_⟩
    rintro j ⟨hj, hjshare⟩
    exact share_unique hpos (by omega) hi hroll.1 hjshare hshare
  · intro roll hroll i hi hshare
    exact firstFor_eq hreached hi hroll.1 hshare
  · intro hnd i hi
    have hlength : HasLength (rollsFor method snapshots providers broadcastWrites writeMethods
        fullHistory available[i].name) (weightOf providers available[i]) := by
      have hshare := share_hasLength hpos (i := i) (by omega)
      have hweight : weights[i] = weightOf providers available[i] := List.getElem_map _
      rw [rollsFor_eq hreached hnd hi, ← hweight]
      exact hshare
    obtain ⟨a, hlow, -⟩ := hlength.ends
    exact ⟨hlength, hlow.nonempty⟩

end

theorem weightedRandom_proportional_two :
    let snapshots : List HealthSnapshot := [{ name := "a", score := 1 },
      { name := "gone", score := 1, circuit := .opened }, { name := "b", score := 1 / 2 }]
    let providers : List ProviderConfig := [{ name := "a", url := "http://a" },
      { name := "b", url := "http://b", weight := 4 }]
    HasLength (rollsFor "getSlot" snapshots providers true [] false "b") 2 := by
  intro snapshots providers
  have hlist : availableFor "getSlot" snapshots providers false =
      [{ name := "a", score := 1 }, { name := "b", score := 1 / 2 }] := by decide +kernel
  have hweight : weightOf providers { name := "b", score := 1 / 2 } = 2 := by decide +kernel
  have hlaw := @weightedRandom_proportional "getSlot" snapshots providers true [] false rfl
    (by simp [hlist])
  have hlength := (hlaw.2.2 (by decide) 1 (by simp [hlist])).1
  simp only [hlist, List.getElem_cons_succ, List.getElem_cons_zero, hweight] at hlength
  exact hlength

end RpcPlane
