import Mathlib.Data.List.Sort
import Mathlib.Order.Bounds.Basic

/-! The values of a list by rank: which one has at least `r` elements up to it, read off the
sorted list and the same for every order of the list. -/

namespace RpcPlane

variable {α : Type} [LinearOrder α] {l m : List α} {r k : Nat} {v : α}

/-- The elements that at least `r` elements do not exceed. -/
def ranked (l : List α) (r : Nat) : Set α := {v | v ∈ l ∧ r ≤ l.countP (· ≤ v)}

theorem ranked_perm (h : l.Perm m) (r : Nat) : ranked l r = ranked m r := by
  simp only [ranked, h.mem_iff, h.countP_eq]

theorem ranked_anti (h : r ≤ k) : ranked l k ⊆ ranked l r := fun _ hv => ⟨hv.1, h.trans hv.2⟩

theorem lt_countP_getElem (hs : l.Pairwise (· ≤ ·)) (hk : k < l.length) :
    k < l.countP (· ≤ l[k]) := by
  induction l generalizing k with
  | nil => exact absurd hk (Nat.not_lt_zero k)
  | cons a l ih =>
    obtain ⟨ha, hl⟩ := List.pairwise_cons.mp hs
    cases k with
    | zero =>
      rw [List.getElem_cons_zero, List.countP_cons_of_pos (by simp)]
      exact Nat.succ_pos _
    | succ k =>
      have hlen : k < l.length := Nat.lt_of_succ_lt_succ hk
      have hle : a ≤ l[k] := ha _ (List.getElem_mem hlen)
      rw [List.getElem_cons_succ, List.countP_cons_of_pos (by simpa using hle)]
      exact Nat.succ_lt_succ (ih hl hlen)

theorem countP_le_of_lt_getElem (hs : l.Pairwise (· ≤ ·)) (hk : k < l.length) (hv : v < l[k]) :
    l.countP (· ≤ v) ≤ k := by
  induction l generalizing k with
  | nil => exact absurd hk (Nat.not_lt_zero k)
  | cons a l ih =>
    obtain ⟨ha, hl⟩ := List.pairwise_cons.mp hs
    cases k with
    | zero =>
      have hnone : ∀ x ∈ a :: l, ¬ x ≤ v := by
        intro x hx
        rcases List.mem_cons.mp hx with rfl | hx
        · exact not_le.mpr hv
        · exact not_le.mpr (lt_of_lt_of_le hv (ha x hx))
      rw [List.countP_eq_zero.mpr (by simpa using hnone)]
    | succ k =>
      have hrest := ih hl (Nat.lt_of_succ_lt_succ hk) hv
      have hcons := List.countP_cons (p := (fun x => decide (x ≤ v))) (a := a) (l := l)
      split_ifs at hcons <;> omega

/-- In a sorted list the element at a rank is the least with that many elements up to it. -/
theorem getElem_isLeast_ranked (hs : l.Pairwise (· ≤ ·)) (hk : k < l.length) :
    IsLeast (ranked l (k + 1)) l[k] := by
  refine ⟨⟨List.getElem_mem hk, lt_countP_getElem hs hk⟩, ?_⟩
  rintro v ⟨-, hcount⟩
  by_contra hlt
  have hle := countP_le_of_lt_getElem hs hk (not_le.mp hlt)
  omega

theorem mergeSort_sorted (l : List α) : (l.mergeSort (· ≤ ·)).Pairwise (· ≤ ·) :=
  List.pairwise_mergeSort' (· ≤ ·) l

theorem mergeSort_eq_of_perm (h : l.Perm m) : l.mergeSort (· ≤ ·) = m.mergeSort (· ≤ ·) := by
  have hperm := (List.mergeSort_perm l (· ≤ ·)).trans (h.trans (List.mergeSort_perm m (· ≤ ·)).symm)
  exact hperm.eq_of_pairwise' (mergeSort_sorted l) (mergeSort_sorted m)

end RpcPlane
