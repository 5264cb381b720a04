import RpcPlane.Potential

/-! Components of a system: each step of the whole is a run of the component, which its own
state and labels tell of. -/

namespace RpcPlane

variable {σ τ υ α β γ δ : Type} {T : System σ α} {U : System τ β} {V : System υ γ}

/-- `π` finds the component in a state of the whole, and `label` what a step of the whole is in
the component. -/
structure System.Projects (T : System σ α) (U : System τ β) (π : σ → τ)
    (label : σ → α → List β) : Prop where
  init : ∀ s, T.init s → U.init (π s)
  step : ∀ s a t, T.step s a = some t → U.run (π s) (label s a) = some (π t)

theorem System.trace_nil (f : σ → α → List δ) (s : σ) : T.trace f s [] = [] := rfl

theorem System.trace_singleton (f : σ → α → List δ) {s t : σ} {a : α} (h : T.step s a = some t) :
    T.trace f s [a] = f s a := by
  rw [T.trace_cons f h, T.trace_nil, List.append_nil]

theorem System.trace_append (f : σ → α → List δ) {s t : σ} {as : List α} (h : T.run s as = some t)
    (bs : List α) : T.trace f s (as ++ bs) = T.trace f s as ++ T.trace f t bs := by
  induction as generalizing s with
  | nil =>
    obtain rfl : s = t := by simpa [System.run] using h
    rfl
  | cons a as ih =>
    obtain ⟨u, hu, hr⟩ := Option.bind_eq_some_iff.mp h
    rw [List.cons_append, T.trace_cons f hu, T.trace_cons f hu, ih hr, List.append_assoc]

/-- A condition on the labels alone. -/
theorem System.meets_of_labels {P : α → Prop} {as : List α} (h : ∀ a ∈ as, P a) (s : σ) :
    T.Meets (fun _ => P) s as := by
  induction as generalizing s with
  | nil => trivial
  | cons a as ih =>
    intro t _
    exact ⟨h a List.mem_cons_self, ih (fun b hb => h b (List.mem_cons_of_mem _ hb)) t⟩

theorem System.mem_trace {f : σ → α → List δ} {s t : σ} {as : List α} (h : T.run s as = some t)
    {b : δ} (hb : b ∈ T.trace f s as) : ∃ u, ∃ a ∈ as, b ∈ f u a := by
  induction as generalizing s with
  | nil => cases hb
  | cons a as ih =>
    obtain ⟨u, hu, hr⟩ := Option.bind_eq_some_iff.mp h
    rw [T.trace_cons f hu] at hb
    rcases List.mem_append.mp hb with hb | hb
    · exact ⟨s, a, List.mem_cons_self, hb⟩
    · obtain ⟨v, c, hc, hbc⟩ := ih hr hb
      exact ⟨v, c, List.mem_cons_of_mem _ hc, hbc⟩

/-- Labels that do not depend on the state. -/
theorem System.trace_labels (f : α → List δ) {s t : σ} {as : List α} (h : T.run s as = some t) :
    T.trace (fun _ => f) s as = as.flatMap f := by
  induction as generalizing s with
  | nil => rfl
  | cons a as ih =>
    obtain ⟨u, hu, hr⟩ := Option.bind_eq_some_iff.mp h
    rw [T.trace_cons _ hu, ih hr, List.flatMap_cons]

theorem System.trace_congr {f g : σ → α → List δ}
    (h : ∀ s a t, T.step s a = some t → f s a = g s a) {s t : σ} {as : List α}
    (hrun : T.run s as = some t) : T.trace f s as = T.trace g s as := by
  induction as generalizing s with
  | nil => rfl
  | cons a as ih =>
    obtain ⟨u, hu, hr⟩ := Option.bind_eq_some_iff.mp hrun
    rw [T.trace_cons f hu, T.trace_cons g hu, h s a u hu, ih hr]

theorem System.total_congr {M : Type} [AddMonoid M] {f g : σ → α → M}
    (h : ∀ s a t, T.step s a = some t → f s a = g s a) {s t : σ} {as : List α}
    (hrun : T.run s as = some t) : T.total f s as = T.total g s as := by
  induction as generalizing s with
  | nil => rfl
  | cons a as ih =>
    obtain ⟨u, hu, hr⟩ := Option.bind_eq_some_iff.mp hrun
    rw [T.total_cons f hu, T.total_cons g hu, h s a u hu, ih hr]

/-- A history that each step extends. -/
theorem System.trace_of_extends {φ : σ → List δ} {f : σ → α → List δ}
    (h : ∀ s a t, T.step s a = some t → φ t = φ s ++ f s a) {s t : σ} {as : List α}
    (hrun : T.run s as = some t) : φ t = φ s ++ T.trace f s as := by
  induction as generalizing s with
  | nil =>
    obtain rfl : s = t := by simpa [System.run] using hrun
    exact (List.append_nil _).symm
  | cons a as ih =>
    obtain ⟨u, hu, hr⟩ := Option.bind_eq_some_iff.mp hrun
    rw [T.trace_cons f hu, ih hr, h s a u hu, List.append_assoc]

theorem System.filterMap_trace {ε : Type} (p : δ → Option ε) (f : σ → α → List δ) (s : σ)
    (as : List α) : (T.trace f s as).filterMap p = T.trace (fun s a => (f s a).filterMap p) s as :=
  List.filterMap_flatMap

theorem System.map_trace {ε : Type} (g : δ → ε) (f : σ → α → List δ) (s : σ) (as : List α) :
    (T.trace f s as).map g = T.trace (fun s a => (f s a).map g) s as :=
  List.map_flatMap

theorem System.filter_trace (p : δ → Bool) (f : σ → α → List δ) (s : σ) (as : List α) :
    (T.trace f s as).filter p = T.trace (fun s a => (f s a).filter p) s as :=
  List.filter_flatMap

theorem System.sum_trace (w : δ → Nat) (f : σ → α → List δ) (s : σ) (as : List α) :
    ((T.trace f s as).map w).sum = T.total (fun s a => ((f s a).map w).sum) s as := by
  rw [T.map_trace, trace, List.flatMap_def, List.sum_flatten, List.map_map]
  rfl

namespace System.Projects

variable {π : σ → τ} {label : σ → α → List β}

theorem run (h : T.Projects U π label) {s t : σ} {as : List α} (hrun : T.run s as = some t) :
    U.run (π s) (T.trace label s as) = some (π t) := by
  induction as generalizing s with
  | nil =>
    obtain rfl : s = t := by simpa [System.run] using hrun
    rfl
  | cons a as ih =>
    obtain ⟨u, hu, hr⟩ := Option.bind_eq_some_iff.mp hrun
    rw [T.trace_cons label hu, U.run_append, h.step s a u hu]
    exact ih hr

theorem reachable (h : T.Projects U π label) {s : σ} (hs : T.Reachable s) : U.Reachable (π s) := by
  obtain ⟨s₀, as, hi, hr⟩ := hs
  exact ⟨π s₀, T.trace label s₀ as, h.init s₀ hi, h.run hr⟩

/-- What a run of the component leaves behind, read off the run of the whole. -/
theorem trace (h : T.Projects U π label) (f : τ → β → List δ) {s t : σ} {as : List α}
    (hrun : T.run s as = some t) :
    U.trace f (π s) (T.trace label s as) = T.trace (fun s a => U.trace f (π s) (label s a)) s as := by
  induction as generalizing s with
  | nil => rfl
  | cons a as ih =>
    obtain ⟨u, hu, hr⟩ := Option.bind_eq_some_iff.mp hrun
    rw [T.trace_cons label hu, T.trace_cons _ hu, U.trace_append f (h.step s a u hu), ih hr]

/-- A component of a component. -/
theorem comp (h : T.Projects U π label) {ρ : τ → υ} {inner : τ → β → List γ}
    (g : U.Projects V ρ inner) :
    T.Projects V (ρ ∘ π) (fun s a => U.trace inner (π s) (label s a)) where
  init s hs := g.init (π s) (h.init s hs)
  step s a t ht := g.run (h.step s a t ht)

end System.Projects

end RpcPlane
