import Mathlib.Data.Bool.Basic

/-! A while loop run with fuel: its invariant rule, the states its body runs from, and fuel
that is enough. -/

namespace RpcPlane

variable {σ : Type} (guard : σ → Bool) (body : σ → σ)

def whileLoop : Nat → σ → σ
  | 0, s => s
  | fuel + 1, s => if guard s then whileLoop fuel (body s) else s

/-- The states from which the body runs, in order. -/
def whileStates : Nat → σ → List σ
  | 0, _ => []
  | fuel + 1, s => if guard s then s :: whileStates fuel (body s) else []

variable {guard : σ → Bool} {body : σ → σ} (inv : σ → Prop)

theorem whileLoop_invariant (hstep : ∀ s, inv s → guard s = true → inv (body s)) {fuel : Nat}
    {s : σ} (h : inv s) : inv (whileLoop guard body fuel s) := by
  induction fuel generalizing s with
  | zero => exact h
  | succ fuel ih =>
    by_cases hg : guard s = true
    · rw [whileLoop, if_pos hg]
      exact ih (hstep s h hg)
    · rw [whileLoop, if_neg hg]
      exact h

theorem whileStates_invariant (hstep : ∀ s, inv s → guard s = true → inv (body s)) {fuel : Nat}
    {s t : σ} (h : inv s) (ht : t ∈ whileStates guard body fuel s) : inv t ∧ guard t = true := by
  induction fuel generalizing s with
  | zero => simp [whileStates] at ht
  | succ fuel ih =>
    by_cases hg : guard s = true
    · rw [whileStates, if_pos hg] at ht
      rcases List.mem_cons.mp ht with rfl | ht
      · exact ⟨h, hg⟩
      · exact ih (hstep s h hg) ht
    · rw [whileStates, if_neg hg] at ht
      simp at ht

/-- Fuel for the measure of the first state is enough to leave the loop by its guard. -/
theorem whileLoop_exit (measure : σ → Nat)
    (hstep : ∀ s, inv s → guard s = true → inv (body s) ∧ measure (body s) < measure s)
    (hzero : ∀ s, inv s → measure s = 0 → guard s = false) {fuel : Nat} {s : σ} (h : inv s)
    (hfuel : measure s ≤ fuel) : guard (whileLoop guard body fuel s) = false := by
  induction fuel generalizing s with
  | zero => exact hzero s h (by omega)
  | succ fuel ih =>
    by_cases hg : guard s = true
    · obtain ⟨hi, hlt⟩ := hstep s h hg
      rw [whileLoop, if_pos hg]
      exact ih hi (by omega)
    · rw [whileLoop, if_neg hg]
      simpa using hg

end RpcPlane
