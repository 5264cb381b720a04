import Mathlib.Order.Bounds.Basic
import Mathlib.Order.Lattice.Nat

/-! The maximum of a growing set of naturals, kept in a register that starts at zero. -/

namespace RpcPlane

/-- `m` bounds `s`, and is in it unless nothing but zero was ever seen. -/
structure Tops (s : Set Nat) (m : Nat) : Prop where
  bound : ∀ x ∈ s, x ≤ m
  attained : m = 0 ∨ m ∈ s

variable {s t : Set Nat} {m : Nat}

theorem Tops.zero (h : ∀ x, x ∉ s) : Tops s 0 :=
  ⟨fun x hx => absurd hx (h x), Or.inl rfl⟩

theorem Tops.congr (h : Tops s m) (hst : ∀ x, x ∈ t ↔ x ∈ s) : Tops t m :=
  ⟨fun x hx => h.bound x ((hst x).mp hx), h.attained.imp_right (hst m).mpr⟩

theorem Tops.observe (h : Tops s m) (o : Option Nat)
    (ht : ∀ x, x ∈ t ↔ x ∈ s ∨ o = some x) : Tops t (max m (o.getD 0)) := by
  constructor
  · intro x hx
    rcases (ht x).mp hx with hs | ho
    · exact (h.bound x hs).trans (le_max_left _ _)
    · rw [ho]
      exact le_max_right _ _
  · cases o with
    | none =>
      rw [Option.getD_none, Nat.max_zero]
      exact h.attained.imp_right (fun hm => (ht m).mpr (Or.inl hm))
    | some a =>
      rw [Option.getD_some]
      by_cases ha : m ≤ a
      · rw [max_eq_right ha]
        exact Or.inr ((ht a).mpr (Or.inr rfl))
      · have hlt : a ≤ m := by omega
        rw [max_eq_left hlt]
        exact h.attained.imp_right (fun hm => (ht m).mpr (Or.inl hm))

theorem Tops.isGreatest (h : Tops s m) {x : Nat} (hx : x ∈ s) : IsGreatest s m := by
  refine ⟨?_, fun y hy => h.bound y hy⟩
  rcases h.attained with hm | hm
  · have hle := h.bound x hx
    have he : x = m := by omega
    exact he ▸ hx
  · exact hm

end RpcPlane
