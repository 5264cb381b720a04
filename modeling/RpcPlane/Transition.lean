import Mathlib.Data.List.Induction
import Mathlib.Data.Option.Basic

/-! Systems that take labelled steps, their runs, and the two ways a fact about one
step becomes a fact about a run. -/

namespace RpcPlane

structure System (σ α : Type) where
  init : σ → Prop
  step : σ → α → Option σ

variable {σ α : Type}

def System.run (T : System σ α) : σ → List α → Option σ
  | s, [] => some s
  | s, a :: as => (T.step s a).bind (T.run · as)

def System.Reachable (T : System σ α) (s : σ) : Prop :=
  ∃ s₀ as, T.init s₀ ∧ T.run s₀ as = some s

/-- Every step of the run meets `P`, a condition on the label and the state before it. -/
def System.Meets (T : System σ α) (P : σ → α → Prop) : σ → List α → Prop
  | _, [] => True
  | s, a :: as => ∀ t, T.step s a = some t → P s a ∧ T.Meets P t as

variable {T : System σ α}

instance System.decidableMeets {P : σ → α → Prop} [∀ s a, Decidable (P s a)] :
    ∀ s as, Decidable (T.Meets P s as)
  | _, [] => isTrue trivial
  | s, a :: as =>
    match h : T.step s a with
    | none => isTrue (fun t ht => absurd (h.symm.trans ht) (by simp))
    | some t =>
      have : Decidable (T.Meets P t as) := System.decidableMeets t as
      decidable_of_iff (P s a ∧ T.Meets P t as)
        ⟨fun hm u hu => Option.some.inj (h.symm.trans hu) ▸ hm, fun hm => hm t h⟩

/-- A guarded step was taken, so its guard held. -/
theorem eq_of_guard {c : Prop} [Decidable c] {o : Option σ} {t : σ}
    (h : (if c then o else none) = some t) : c ∧ o = some t := by
  by_cases hc : c
  · exact ⟨hc, (if_pos hc).symm.trans h⟩
  · exact absurd ((if_neg hc).symm.trans h) (by simp)

theorem eq_of_refusal {c : Prop} [Decidable c] {o : Option σ} {t : σ}
    (h : (if c then none else o) = some t) : ¬ c ∧ o = some t := by
  by_cases hc : c
  · exact absurd ((if_pos hc).symm.trans h) (by simp)
  · exact ⟨hc, (if_neg hc).symm.trans h⟩

theorem System.invariant_run {I : σ → Prop}
    (hstep : ∀ s a t, I s → T.step s a = some t → I t)
    {s t : σ} {as : List α} (hs : I s) (h : T.run s as = some t) : I t := by
  induction as generalizing s with
  | nil =>
    have he : s = t := by simpa [System.run] using h
    exact he ▸ hs
  | cons a as ih =>
    obtain ⟨u, hu, hr⟩ := Option.bind_eq_some_iff.mp h
    exact ih (hstep s a u hs hu) hr

theorem System.invariant_reachable {I : σ → Prop} (hinit : ∀ s, T.init s → I s)
    (hstep : ∀ s a t, I s → T.step s a = some t → I t)
    {s : σ} (h : T.Reachable s) : I s := by
  obtain ⟨s₀, as, hi, hr⟩ := h
  exact System.invariant_run hstep (hinit s₀ hi) hr

/-- An invariant that a step keeps only when the step meets `P`. -/
theorem System.invariant_of_meets {I : σ → Prop} {P : σ → α → Prop}
    (hstep : ∀ s a t, I s → P s a → T.step s a = some t → I t)
    {s t : σ} {as : List α} (hs : I s) (hm : T.Meets P s as) (h : T.run s as = some t) :
    I t := by
  induction as generalizing s with
  | nil =>
    have he : s = t := by simpa [System.run] using h
    exact he ▸ hs
  | cons a as ih =>
    obtain ⟨u, hu, hr⟩ := Option.bind_eq_some_iff.mp h
    obtain ⟨hp, hrest⟩ := hm u hu
    exact ih (hstep s a u hs hp hu) hrest hr

theorem System.Meets.last {P : σ → α → Prop} {s t u : σ} {as : List α} {a : α}
    (hm : T.Meets P s (as ++ [a])) (h : T.run s as = some t) (ha : T.step t a = some u) :
    P t a := by
  induction as generalizing s with
  | nil =>
    have he : s = t := by simpa [System.run] using h
    subst he
    exact (hm u ha).1
  | cons b as ih =>
    obtain ⟨v, hv, hr⟩ := Option.bind_eq_some_iff.mp h
    exact ih (hm v hv).2 hr

theorem System.meets_congr {I : σ → Prop} {P Q : σ → α → Prop}
    (hstep : ∀ s a t, I s → T.step s a = some t → I t)
    (hiff : ∀ s a t, I s → T.step s a = some t → (P s a ↔ Q s a))
    {s : σ} (hs : I s) (as : List α) : T.Meets P s as ↔ T.Meets Q s as := by
  induction as generalizing s with
  | nil => exact Iff.rfl
  | cons a as ih =>
    have ht : ∀ t, T.step s a = some t → (T.Meets P t as ↔ T.Meets Q t as) :=
      fun t h => ih (hstep s a t hs h)
    constructor
    · intro hm t h
      exact ⟨(hiff s a t hs h).mp (hm t h).1, (ht t h).mp (hm t h).2⟩
    · intro hm t h
      exact ⟨(hiff s a t hs h).mpr (hm t h).1, (ht t h).mpr (hm t h).2⟩

/-- If a step keeps `Q` exactly when it meets `P`, then `Q` holds all along a run exactly when
every step meets `P`. -/
theorem System.states_iff_meets {I Q : σ → Prop} {P : σ → α → Prop}
    (hstep : ∀ s a t, I s → T.step s a = some t → I t)
    (hiff : ∀ s a t, I s → Q s → T.step s a = some t → (Q t ↔ P s a))
    {s : σ} (hs : I s) (hq : Q s) (as : List α) :
    (∀ bs cs t, as = bs ++ cs → T.run s bs = some t → Q t) ↔ T.Meets P s as := by
  induction as generalizing s with
  | nil =>
    refine iff_of_true ?_ trivial
    intro bs cs t he hr
    obtain ⟨rfl, -⟩ := List.append_eq_nil_iff.mp he.symm
    obtain rfl : s = t := by simpa [System.run] using hr
    exact hq
  | cons a as ih =>
    constructor
    · intro h t ht
      have hqt : Q t := h [a] as t rfl (by simp [System.run, ht])
      refine ⟨(hiff s a t hs hq ht).mp hqt, (ih (hstep s a t hs ht) hqt).mp ?_⟩
      intro bs cs u he hr
      exact h (a :: bs) cs u (by rw [he, List.cons_append]) (by simp [System.run, ht, hr])
    · intro hm bs cs t he hr
      cases bs with
      | nil =>
        obtain rfl : s = t := by simpa [System.run] using hr
        exact hq
      | cons b bs =>
        obtain ⟨rfl, rfl⟩ := List.cons.inj he
        obtain ⟨u, hu, hr⟩ := Option.bind_eq_some_iff.mp hr
        obtain ⟨hp, hrest⟩ := hm u hu
        have hqu : Q u := (hiff s a u hs hq hu).mpr hp
        exact (ih (hstep s a u hs hu) hqu).mpr hrest bs cs t rfl hr

/-- If a step ends in `Q` exactly when it starts in `Q` and meets `P`, then so does a run. -/
theorem System.last_iff_meets {I Q : σ → Prop} {P : σ → α → Prop}
    (hstep : ∀ s a t, I s → T.step s a = some t → I t)
    (hiff : ∀ s a t, I s → T.step s a = some t → (Q t ↔ Q s ∧ P s a))
    {s t : σ} (hs : I s) {as : List α} (h : T.run s as = some t) :
    Q t ↔ Q s ∧ T.Meets P s as := by
  induction as generalizing s with
  | nil =>
    obtain rfl : s = t := by simpa [System.run] using h
    exact ⟨fun hq => ⟨hq, trivial⟩, fun hq => hq.1⟩
  | cons a as ih =>
    obtain ⟨u, hu, hr⟩ := Option.bind_eq_some_iff.mp h
    rw [ih (hstep s a u hs hu) hr, hiff s a u hs hu, and_assoc]
    refine and_congr_right fun _ => ?_
    constructor
    · rintro ⟨hp, hrest⟩ v hv
      obtain rfl := Option.some.inj (hu.symm.trans hv)
      exact ⟨hp, hrest⟩
    · exact fun hm => hm u hu

theorem System.run_append (s : σ) (as bs : List α) :
    T.run s (as ++ bs) = (T.run s as).bind (T.run · bs) := by
  induction as generalizing s with
  | nil => rfl
  | cons a as ih =>
    rw [List.cons_append, System.run, System.run, Option.bind_assoc]
    exact congrArg (Option.bind (T.step s a)) (funext ih)

theorem System.run_snoc (s : σ) (as : List α) (a : α) :
    T.run s (as ++ [a]) = (T.run s as).bind (T.step · a) := by
  rw [System.run_append]
  refine congrArg (Option.bind (T.run s as)) (funext fun t => ?_)
  cases h : T.step t a <;> simp [System.run, h]

/-- The steps of a run: the state before, the label and the state after. -/
def System.steps (T : System σ α) : σ → List α → List (σ × α × σ)
  | _, [] => []
  | s, a :: as =>
    match T.step s a with
    | none => []
    | some t => (s, a, t) :: T.steps t as

theorem System.steps_snoc {s t u : σ} {as : List α} {a : α} (h : T.run s as = some t)
    (ha : T.step t a = some u) : T.steps s (as ++ [a]) = T.steps s as ++ [(t, a, u)] := by
  induction as generalizing s with
  | nil =>
    obtain rfl : s = t := by simpa [System.run] using h
    simp [System.steps, ha]
  | cons b as ih =>
    obtain ⟨v, hv, hr⟩ := Option.bind_eq_some_iff.mp h
    simp [System.steps, hv, ih hr]

/-- An invariant over the labels taken so far and the state they lead to. -/
theorem System.invariant_history {I : List α → σ → Prop} {s : σ} (hs : I [] s)
    (hstep : ∀ as t a u, T.run s as = some t → I as t → T.step t a = some u → I (as ++ [a]) u)
    {t : σ} {as : List α} (h : T.run s as = some t) : I as t := by
  induction as using List.reverseRecOn generalizing t with
  | nil =>
    obtain rfl : s = t := by simpa [System.run] using h
    exact hs
  | append_singleton as a ih =>
    rw [System.run_snoc] at h
    obtain ⟨u, hu, ha⟩ := Option.bind_eq_some_iff.mp h
    exact hstep as u a t hu (ih hu) ha

end RpcPlane
