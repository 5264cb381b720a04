import Mathlib.Order.Lattice
import Mathlib.Data.Option.Basic

/-! The first element of greatest rank, kept by a pass that replaces its choice only for a
strictly greater one. -/

namespace RpcPlane

variable {α β : Type} [LinearOrder β] {rank : α → β}

def keepBetter (rank : α → β) (best : Option α) (a : α) : Option α :=
  if best.all (rank · < rank a) then some a else best

def firstMax (rank : α → β) (best : Option α) (l : List α) : Option α :=
  l.foldl (keepBetter rank) best

theorem firstMax_of_ge {l : List α} {b : α} (h : ∀ a ∈ l, rank a ≤ rank b) :
    firstMax rank (some b) l = some b := by
  induction l with
  | nil => rfl
  | cons a l ih =>
    have ha : ¬ rank b < rank a := not_lt.mpr (h a List.mem_cons_self)
    have hk : keepBetter rank (some b) a = some b := by simp [keepBetter, ha]
    rw [firstMax, List.foldl_cons, hk]
    exact ih (fun c hc => h c (List.mem_cons_of_mem _ hc))

/-- When the greatest rank there can be occurs, the first element that has it is chosen. -/
theorem firstMax_eq_find? {l : List α} {best : Option α} {t : β}
    (hle : ∀ a ∈ l, rank a ≤ t) (hbest : ∀ b, best = some b → rank b < t)
    (hex : ∃ a ∈ l, rank a = t) :
    firstMax rank best l = l.find? (fun a => decide (rank a = t)) := by
  induction l generalizing best with
  | nil => simp at hex
  | cons a l ih =>
    have hle' : ∀ c ∈ l, rank c ≤ t := fun c hc => hle c (List.mem_cons_of_mem _ hc)
    by_cases ha : rank a = t
    · have hk : keepBetter rank best a = some a := by
        cases best with
        | none => rfl
        | some b => simp [keepBetter, ha, hbest b rfl]
      rw [firstMax, List.foldl_cons, hk, List.find?_cons_of_pos (by simpa using ha)]
      exact firstMax_of_ge (fun c hc => ha.symm ▸ hle' c hc)
    · have hlt : rank a < t := lt_of_le_of_ne (hle a List.mem_cons_self) ha
      rw [firstMax, List.foldl_cons, List.find?_cons_of_neg (by simpa using ha)]
      refine ih hle' ?_ ?_
      · intro b hb
        unfold keepBetter at hb
        split at hb
        · obtain rfl : a = b := Option.some.inj hb
          exact hlt
        · exact hbest b hb
      · obtain ⟨c, hc, he⟩ := hex
        rcases List.mem_cons.mp hc with rfl | hc
        · exact absurd he ha
        · exact ⟨c, hc, he⟩

theorem keepBetter_eq_some {best : Option α} {a m : α} (h : keepBetter rank best a = some m) :
    (m = a ∨ best = some m) ∧ rank a ≤ rank m ∧ ∀ b, best = some b → rank b ≤ rank m := by
  unfold keepBetter at h
  cases best with
  | none =>
    obtain rfl : a = m := by simpa using h
    exact ⟨Or.inl rfl, le_rfl, by simp⟩
  | some b =>
    by_cases hlt : rank b < rank a
    · obtain rfl : a = m := by simpa [hlt] using h
      exact ⟨Or.inl rfl, le_rfl, fun c hc => Option.some.inj hc ▸ hlt.le⟩
    · obtain rfl : b = m := by simpa [hlt] using h
      exact ⟨Or.inr rfl, not_lt.mp hlt, fun c hc => Option.some.inj hc ▸ le_rfl⟩

theorem firstMax_isSome {l : List α} {best : Option α} (h : best.isSome ∨ l ≠ []) :
    (firstMax rank best l).isSome := by
  induction l generalizing best with
  | nil => simpa [firstMax] using h
  | cons a l ih =>
    refine ih (Or.inl ?_)
    unfold keepBetter
    by_cases hb : best.all (rank · < rank a)
    · simp [hb]
    · cases best with
      | none => simp at hb
      | some b => simp [hb]

theorem firstMax_eq_some {l : List α} {best : Option α} {m : α}
    (h : firstMax rank best l = some m) :
    (best = some m ∨ m ∈ l) ∧ (∀ b, best = some b → rank b ≤ rank m) ∧
      ∀ a ∈ l, rank a ≤ rank m := by
  induction l generalizing best with
  | nil =>
    have hb : best = some m := h
    exact ⟨Or.inl hb, fun b hh => (Option.some.inj (hh.symm.trans hb)) ▸ le_rfl, by simp⟩
  | cons a l ih =>
    have hl : firstMax rank (keepBetter rank best a) l = some m := h
    obtain ⟨hmem, hkept, hrest⟩ := ih hl
    have hsome : (firstMax rank best [a]).isSome := firstMax_isSome (Or.inr (by simp))
    obtain ⟨c, hc⟩ : ∃ c, keepBetter rank best a = some c := Option.isSome_iff_exists.mp hsome
    obtain ⟨hfrom, ha, hbest⟩ := keepBetter_eq_some hc
    have hcm := hkept c hc
    refine ⟨?_, fun b hb => (hbest b hb).trans hcm, ?_⟩
    · rcases hmem with hm | hm
      · obtain rfl := Option.some.inj (hc.symm.trans hm)
        rcases hfrom with rfl | hb
        · exact Or.inr List.mem_cons_self
        · exact Or.inl hb
      · exact Or.inr (List.mem_cons_of_mem _ hm)
    · intro x hx
      rcases List.mem_cons.mp hx with rfl | hx
      · exact ha.trans hcm
      · exact hrest x hx

/-- Rearranging the elements keeps the greatest rank, though it may change who has it. -/
theorem firstMax_rank_perm {l l' : List α} (hp : l.Perm l') {m m' : α}
    (h : firstMax rank none l = some m) (h' : firstMax rank none l' = some m') :
    rank m = rank m' := by
  obtain ⟨hm, -, hle⟩ := firstMax_eq_some h
  obtain ⟨hm', -, hle'⟩ := firstMax_eq_some h'
  have hml : m ∈ l := by simpa using hm
  have hml' : m' ∈ l' := by simpa using hm'
  exact le_antisymm (hle' m (hp.subset hml)) (hle m' (hp.symm.subset hml'))

end RpcPlane
