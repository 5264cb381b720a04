import RpcPlane.Transition
import Mathlib.Algebra.BigOperators.Ring.Finset
import Mathlib.Algebra.Order.Monoid.Unbundled.Basic

/-! Bookkeeping along a run: quantities that the steps add up, weighed against a potential of
the states, and runs of one system that trace out runs of another. -/

namespace RpcPlane

variable {σ α M : Type} {T : System σ α}

theorem sum_map_set {α : Type} (f : α → Nat) {l : List α} {i : Nat} {a : α} (h : l[i]? = some a)
    (b : α) : ((l.set i b).map f).sum + f a = (l.map f).sum + f b := by
  induction l generalizing i with
  | nil => simp at h
  | cons x rest ih =>
    cases i with
    | zero =>
      obtain rfl : x = a := by simpa using h
      simp only [List.set_cons_zero, List.map_cons, List.sum_cons]
      omega
    | succ i =>
      have hh := ih (by simpa using h)
      simp only [List.set_cons_succ, List.map_cons, List.sum_cons]
      omega

theorem System.Reachable.step {s t : σ} {a : α} (hs : T.Reachable s) (h : T.step s a = some t) :
    T.Reachable t := by
  obtain ⟨s₀, as, hi, hr⟩ := hs
  exact ⟨s₀, as ++ [a], hi, by rw [System.run_snoc, hr]; exact h⟩

theorem System.steps_cons {s t : σ} {a : α} (h : T.step s a = some t) (as : List α) :
    T.steps s (a :: as) = (s, a, t) :: T.steps t as := by
  simp [System.steps, h]

/-- The sum of a weight over the steps of a run. -/
def System.total [AddMonoid M] (T : System σ α) (f : σ → α → M) (s : σ) (as : List α) : M :=
  ((T.steps s as).map (fun step => f step.1 step.2.1)).sum

@[simp] theorem System.total_nil [AddMonoid M] (f : σ → α → M) (s : σ) : T.total f s [] = 0 := rfl

theorem System.total_cons [AddMonoid M] (f : σ → α → M) {s t : σ} {a : α}
    (h : T.step s a = some t) (as : List α) : T.total f s (a :: as) = f s a + T.total f t as := by
  rw [total, T.steps_cons h, List.map_cons, List.sum_cons, total]

theorem System.total_countP (p : α → Bool) {s t : σ} {as : List α} (h : T.run s as = some t) :
    T.total (fun _ a => if p a then 1 else 0) s as = as.countP p := by
  induction as generalizing s with
  | nil => rfl
  | cons a as ih =>
    obtain ⟨u, hu, hr⟩ := Option.bind_eq_some_iff.mp h
    rw [T.total_cons _ hu, ih hr, List.countP_cons, add_comm]

theorem System.total_add [AddCommMonoid M] (f g : σ → α → M) (s : σ) (as : List α) :
    T.total (fun s a => f s a + g s a) s as = T.total f s as + T.total g s as :=
  List.sum_map_add

@[simp] theorem System.total_zero [AddCommMonoid M] (s : σ) (as : List α) :
    T.total (fun _ _ => (0 : M)) s as = 0 := by
  simp [total]

theorem System.total_natCast [AddMonoidWithOne M] (f : σ → α → Nat) (s : σ) (as : List α) :
    ((T.total f s as : Nat) : M) = T.total (fun s a => (f s a : M)) s as := by
  rw [total, total, Nat.cast_list_sum, List.map_map]
  rfl

/-- What the steps spend is paid for by what they earn and by the potential they use up. -/
theorem System.total_add_le [AddCommMonoid M] [Preorder M] [AddLeftMono M] {I : σ → Prop}
    {f g : σ → α → M} {φ : σ → M} (hkeep : ∀ s a t, I s → T.step s a = some t → I t)
    (hstep : ∀ s a t, I s → T.step s a = some t → f s a + φ t ≤ g s a + φ s)
    {s t : σ} {as : List α} (hs : I s) (h : T.run s as = some t) :
    T.total f s as + φ t ≤ T.total g s as + φ s := by
  induction as generalizing s with
  | nil =>
    obtain rfl : s = t := by simpa [System.run] using h
    exact le_rfl
  | cons a as ih =>
    obtain ⟨u, hu, hr⟩ := Option.bind_eq_some_iff.mp h
    have hrest := ih (hkeep s a u hs hu) hr
    rw [T.total_cons f hu, T.total_cons g hu]
    calc f s a + T.total f u as + φ t = f s a + (T.total f u as + φ t) := add_assoc _ _ _
      _ ≤ f s a + (T.total g u as + φ u) := add_le_add_right hrest _
      _ = T.total g u as + (f s a + φ u) := add_left_comm _ _ _
      _ ≤ T.total g u as + (g s a + φ s) := add_le_add_right (hstep s a u hs hu) _
      _ = g s a + T.total g u as + φ s := by rw [add_left_comm, add_assoc]

/-- What the steps put in is what they take out and what the last state still holds. -/
theorem System.total_add_eq [AddCommMonoid M] {I : σ → Prop} {f g : σ → α → M} {φ : σ → M}
    (hkeep : ∀ s a t, I s → T.step s a = some t → I t)
    (hstep : ∀ s a t, I s → T.step s a = some t → f s a + φ s = g s a + φ t)
    {s t : σ} {as : List α} (hs : I s) (h : T.run s as = some t) :
    T.total f s as + φ s = T.total g s as + φ t := by
  induction as generalizing s with
  | nil =>
    obtain rfl : s = t := by simpa [System.run] using h
    rfl
  | cons a as ih =>
    obtain ⟨u, hu, hr⟩ := Option.bind_eq_some_iff.mp h
    have hrest := ih (hkeep s a u hs hu) hr
    rw [T.total_cons f hu, T.total_cons g hu]
    calc f s a + T.total f u as + φ s = T.total f u as + (f s a + φ s) := by
          rw [add_comm (f s a), add_assoc]
      _ = T.total f u as + (g s a + φ u) := by rw [hstep s a u hs hu]
      _ = g s a + (T.total f u as + φ u) := add_left_comm _ _ _
      _ = g s a + (T.total g u as + φ t) := by rw [hrest]
      _ = g s a + T.total g u as + φ t := (add_assoc _ _ _).symm

/-- The labels that the steps of a run are given in another system. -/
def System.trace {β : Type} (T : System σ α) (label : σ → α → List β) (s : σ) (as : List α) :
    List β :=
  (T.steps s as).flatMap (fun step => label step.1 step.2.1)

theorem System.trace_cons {β : Type} (label : σ → α → List β) {s t : σ} {a : α}
    (h : T.step s a = some t) (as : List α) :
    T.trace label s (a :: as) = label s a ++ T.trace label t as := by
  rw [trace, T.steps_cons h, List.flatMap_cons, trace]

theorem System.trace_snoc {β : Type} (label : σ → α → List β) {s t u : σ} {as : List α} {a : α}
    (h : T.run s as = some t) (ha : T.step t a = some u) :
    T.trace label s (as ++ [a]) = T.trace label s as ++ label t a := by
  rw [trace, T.steps_snoc h ha, List.flatMap_append, trace]
  simp

theorem System.countP_trace {β : Type} (p : β → Bool) (label : σ → α → List β) (s : σ) (as : List α) :
    (T.trace label s as).countP p = T.total (fun s a => (label s a).countP p) s as := by
  rw [trace, List.countP_flatMap, total]
  rfl

/-- If each step is matched by a run of `U` that keeps the states related, then so is each run. -/
theorem System.run_trace {τ β : Type} {U : System τ β} {R : σ → τ → Prop} (label : σ → α → List β)
    (hstep : ∀ s a t x, R s x → T.step s a = some t → ∃ y, U.run x (label s a) = some y ∧ R t y)
    {s t : σ} {as : List α} {x : τ} (hs : R s x) (h : T.run s as = some t) :
    ∃ y, U.run x (T.trace label s as) = some y ∧ R t y := by
  induction as generalizing s x with
  | nil =>
    obtain rfl : s = t := by simpa [System.run] using h
    exact ⟨x, rfl, hs⟩
  | cons a as ih =>
    obtain ⟨u, hu, hr⟩ := Option.bind_eq_some_iff.mp h
    obtain ⟨y, hy, hru⟩ := hstep s a u x hs hu
    obtain ⟨z, hz, hrt⟩ := ih hru hr
    refine ⟨z, ?_, hrt⟩
    rw [T.trace_cons label hu, U.run_append, hy]
    exact hz

end RpcPlane
