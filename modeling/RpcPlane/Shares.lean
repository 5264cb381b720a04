import Mathlib.Algebra.BigOperators.Group.List.Basic
import Mathlib.Algebra.Order.Group.Defs
import Mathlib.Data.Nat.Find
import Mathlib.Order.Bounds.Basic
import Mathlib.Order.Interval.Set.OrdConnected

/-! Positive weights laid end to end from zero: their prefix sums cut `[0, total]` into one
interval for each weight. -/

namespace RpcPlane

variable {K : Type} [AddCommGroup K] [LinearOrder K] [IsOrderedAddMonoid K]

/-- From the sum of the earlier weights, not included, up to the sum with the weight's own. The
first share has its lower end too. -/
def share (ws : List K) (i : Nat) : Set K :=
  {x | x ∈ Set.Ioc (ws.take i).sum (ws.take (i + 1)).sum ∨ i = 0 ∧ x = 0}

/-- An interval, whichever of its ends are in it. -/
structure HasLength (s : Set K) (len : K) : Prop where
  ordConnected : s.OrdConnected
  ends : ∃ a, IsGLB s a ∧ IsLUB s (a + len)

variable {ws : List K} {i j : Nat} {x : K}

theorem sum_take_lt (hws : ∀ w ∈ ws, 0 < w) (hij : i < j) (hj : j ≤ ws.length) :
    (ws.take i).sum < (ws.take j).sum := by
  induction j with
  | zero => omega
  | succ j ih =>
    have hlt : j < ws.length := by omega
    have hstep : (ws.take j).sum < (ws.take (j + 1)).sum := by
      rw [List.sum_take_succ ws j hlt]
      exact lt_add_of_pos_right _ (hws _ (List.getElem_mem hlt))
    by_cases he : i = j
    · exact he ▸ hstep
    · exact (ih (by omega) (by omega)).trans hstep

theorem sum_take_le (hws : ∀ w ∈ ws, 0 < w) (hij : i ≤ j) (hj : j ≤ ws.length) :
    (ws.take i).sum ≤ (ws.take j).sum := by
  by_cases he : i = j
  · rw [he]
  · exact (sum_take_lt hws (by omega) hj).le

/-- A point is in the share whose upper end is the first to reach it. -/
theorem mem_share_iff (hws : ∀ w ∈ ws, 0 < w) (hi : i < ws.length) (hx : 0 ≤ x) :
    x ∈ share ws i ↔ x ≤ (ws.take (i + 1)).sum ∧ ∀ j < i, (ws.take (j + 1)).sum < x := by
  have hpos := sum_take_lt hws (Nat.succ_pos i) hi
  constructor
  · rintro (⟨hlow, hup⟩ | ⟨rfl, rfl⟩)
    · refine ⟨hup, ?_⟩
      intro j hj
      exact (sum_take_le hws hj hi.le).trans_lt hlow
    · exact ⟨hpos.le, fun j hj => absurd hj (Nat.not_lt_zero j)⟩
  · rintro ⟨hup, hearlier⟩
    cases i with
    | zero =>
      rcases hx.eq_or_lt with rfl | hlt
      · exact Or.inr ⟨rfl, rfl⟩
      · exact Or.inl ⟨hlt, hup⟩
    | succ i => exact Or.inl ⟨hearlier i (Nat.lt_succ_self i), hup⟩

theorem share_unique (hws : ∀ w ∈ ws, 0 < w) (hi : i < ws.length) (hj : j < ws.length)
    (hx : 0 ≤ x) (hxi : x ∈ share ws i) (hxj : x ∈ share ws j) : i = j := by
  obtain ⟨hupi, hlowi⟩ := (mem_share_iff hws hi hx).mp hxi
  obtain ⟨hupj, hlowj⟩ := (mem_share_iff hws hj hx).mp hxj
  rcases Nat.lt_trichotomy i j with hlt | he | hgt
  · exact absurd (hlowj i hlt) (not_lt.mpr hupi)
  · exact he
  · exact absurd (hlowi j hgt) (not_lt.mpr hupj)

theorem exists_share (hws : ∀ w ∈ ws, 0 < w) (hne : ws ≠ []) (hx : 0 ≤ x) (hsum : x ≤ ws.sum) :
    ∃ i < ws.length, x ∈ share ws i := by
  have hlen : 0 < ws.length := List.length_pos_iff.mpr hne
  have hlast : x ≤ (ws.take (ws.length - 1 + 1)).sum := by
    rw [Nat.sub_add_cancel hlen, List.take_length]
    exact hsum
  have hreach : ∃ i, x ≤ (ws.take (i + 1)).sum := ⟨_, hlast⟩
  have hle : Nat.find hreach ≤ ws.length - 1 := Nat.find_min' hreach hlast
  have hlt : Nat.find hreach < ws.length := by omega
  refine ⟨Nat.find hreach, hlt, (mem_share_iff hws hlt hx).mpr ⟨Nat.find_spec hreach, ?_⟩⟩
  intro j hj
  exact not_le.mp (Nat.find_min hreach hj)

theorem share_ordConnected (hws : ∀ w ∈ ws, 0 < w) (hi : i < ws.length) :
    (share ws i).OrdConnected := by
  cases i with
  | zero =>
    have hclosed : share ws 0 = Set.Icc 0 (ws.take 1).sum := by
      have hpos := sum_take_lt hws Nat.one_pos hi
      ext x
      constructor
      · rintro (⟨hlow, hup⟩ | ⟨-, rfl⟩)
        · exact ⟨hlow.le, hup⟩
        · exact ⟨le_refl _, hpos.le⟩
      · rintro ⟨hlow, hup⟩
        rcases hlow.eq_or_lt with rfl | hlt
        · exact Or.inr ⟨rfl, rfl⟩
        · exact Or.inl ⟨hlt, hup⟩
    rw [hclosed]
    exact Set.ordConnected_Icc
  | succ i =>
    have hopen : share ws (i + 1) = Set.Ioc (ws.take (i + 1)).sum (ws.take (i + 2)).sum := by
      ext x
      simp [share]
    rw [hopen]
    exact Set.ordConnected_Ioc

/-- The total itself is left out: it lies in the last share only. -/
theorem share_hasLength [DenselyOrdered K] (hws : ∀ w ∈ ws, 0 < w) (hi : i < ws.length) :
    HasLength (share ws i ∩ Set.Ico 0 ws.sum) ws[i] := by
  have hends := sum_take_lt hws (Nat.lt_succ_self i) hi
  have htop : (ws.take (i + 1)).sum ≤ ws.sum := by
    have hle := sum_take_le hws hi (le_refl _)
    rwa [List.take_length] at hle
  have hinner : Set.Ioo (ws.take i).sum (ws.take (i + 1)).sum ⊆ share ws i ∩ Set.Ico 0 ws.sum := by
    rintro x ⟨hlow, hup⟩
    have hzero : 0 ≤ (ws.take i).sum := sum_take_le hws (Nat.zero_le i) hi.le
    exact ⟨Or.inl ⟨hlow, hup.le⟩, hzero.trans hlow.le, hup.trans_le htop⟩
  have houter : share ws i ∩ Set.Ico 0 ws.sum ⊆ Set.Icc (ws.take i).sum (ws.take (i + 1)).sum := by
    rintro x ⟨⟨hlow, hup⟩ | ⟨rfl, rfl⟩, -⟩
    · exact ⟨hlow.le, hup⟩
    · exact ⟨le_refl _, hends.le⟩
  refine ⟨(share_ordConnected hws hi).inter Set.ordConnected_Ico, (ws.take i).sum, ?_, ?_⟩
  · exact (isGLB_Ioo hends).of_subset_of_superset (isGLB_Icc hends.le) hinner houter
  · rw [← List.sum_take_succ ws i hi]
    exact (isLUB_Ioo hends).of_subset_of_superset (isLUB_Icc hends.le) hinner houter

end RpcPlane
