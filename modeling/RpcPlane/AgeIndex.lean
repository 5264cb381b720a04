import Mathlib.Data.Finset.Max
import Mathlib.Data.List.AList
import Mathlib.Data.Prod.Lex

/-! A map whose entries carry a time, and an ordered set of the pairs of an entry's time and
its key: the index by which the oldest entry is found. -/

namespace RpcPlane

section first

variable {α : Type} [LinearOrder α]

def first? (s : Finset α) : Option α :=
  if h : s.Nonempty then some (s.min' h) else none

theorem first?_eq_some {s : Finset α} {a : α} :
    first? s = some a ↔ a ∈ s ∧ ∀ b ∈ s, a ≤ b := by
  unfold first?
  by_cases h : s.Nonempty
  · rw [dif_pos h, Option.some.injEq]
    constructor
    · rintro rfl
      exact ⟨s.min'_mem h, fun b hb => s.min'_le b hb⟩
    · rintro ⟨ha, hle⟩
      exact le_antisymm (s.min'_le a ha) (hle _ (s.min'_mem h))
  · rw [dif_neg h]
    simp only [reduceCtorEq, false_iff, not_and]
    exact fun ha => absurd ⟨a, ha⟩ h

theorem first?_eq_none {s : Finset α} : first? s = none ↔ s = ∅ := by
  unfold first?
  by_cases h : s.Nonempty
  · simp [h, h.ne_empty]
  · simp [Finset.not_nonempty_iff_eq_empty.mp h]

end first

abbrev KeyMap (κ ν : Type) := AList (fun _ : κ => ν)

variable {κ ν τ : Type} [LinearOrder κ] [LinearOrder τ] (age : ν → τ)

/-- The index holds exactly the time and the key of each entry. -/
def Indexed (state : KeyMap κ ν) (index : Finset (τ ×ₗ κ)) : Prop :=
  ∀ t k, toLex (t, k) ∈ index ↔ ∃ v, state.lookup k = some v ∧ age v = t

variable {age : ν → τ} {state : KeyMap κ ν} {index : Finset (τ ×ₗ κ)} {k : κ} {v : ν} {t : τ}

omit [LinearOrder τ] in
theorem Indexed.empty : Indexed age (∅ : KeyMap κ ν) ∅ := by
  intro t k
  simp

omit [LinearOrder τ] in
theorem Indexed.mem (h : Indexed age state index) (hv : state.lookup k = some v) :
    toLex (age v, k) ∈ index :=
  (h _ _).mpr ⟨v, hv, rfl⟩

theorem Indexed.erase (h : Indexed age state index) (hv : state.lookup k = some v) :
    Indexed age (state.erase k) (index.erase (toLex (age v, k))) := by
  intro t k'
  rw [Finset.mem_erase, h t k']
  by_cases hk : k' = k
  · subst hk
    rw [AList.lookup_erase, hv]
    constructor
    · rintro ⟨hne, w, hw, rfl⟩
      obtain rfl := Option.some.inj hw
      exact absurd rfl hne
    · rintro ⟨w, hw, -⟩
      cases hw
  · rw [AList.lookup_erase_ne hk]
    have hne : toLex (t, k') ≠ toLex (age v, k) := fun he => hk (Prod.mk.inj (toLex.injective he)).2
    exact and_iff_right hne

theorem Indexed.insert (h : Indexed age state index) (hk : state.lookup k = none) (v : ν) :
    Indexed age (state.insert k v) (insert (toLex (age v, k)) index) := by
  intro t k'
  rw [Finset.mem_insert, h t k']
  by_cases hkk : k' = k
  · subst hkk
    rw [AList.lookup_insert, hk]
    constructor
    · rintro (he | ⟨w, hw, -⟩)
      · exact ⟨v, rfl, (Prod.mk.inj (toLex.injective he)).1.symm⟩
      · cases hw
    · rintro ⟨w, hw, rfl⟩
      obtain rfl := Option.some.inj hw
      exact Or.inl rfl
  · rw [AList.lookup_insert_ne hkk]
    have hne : toLex (t, k') ≠ toLex (age v, k) := fun he => hkk (Prod.mk.inj (toLex.injective he)).2
    exact or_iff_right hne

omit [LinearOrder τ] in
theorem Indexed.card (h : Indexed age state index) : index.card = state.keys.length := by
  have himage : index.image (fun p => (ofLex p).2) = state.keys.toFinset := by
    ext k
    rw [Finset.mem_image, List.mem_toFinset, ← AList.mem_keys, ← AList.lookup_isSome,
      Option.isSome_iff_exists]
    constructor
    · rintro ⟨p, hp, rfl⟩
      obtain ⟨v, hv, -⟩ := (h (ofLex p).1 (ofLex p).2).mp hp
      exact ⟨v, hv⟩
    · rintro ⟨v, hv⟩
      exact ⟨_, h.mem hv, rfl⟩
  have hinj : Set.InjOn (fun p : τ ×ₗ κ => (ofLex p).2) index := by
    intro p hp q hq hpq
    obtain ⟨v, hv, hvt⟩ := (h (ofLex p).1 (ofLex p).2).mp hp
    obtain ⟨w, hw, hwt⟩ := (h (ofLex q).1 (ofLex q).2).mp hq
    dsimp only at hpq
    rw [hpq, hw] at hv
    obtain rfl := Option.some.inj hv
    exact ofLex.injective (Prod.ext (hvt.symm.trans hwt) hpq)
  rw [← Finset.card_image_of_injOn hinj, himage, List.toFinset_card_of_nodup state.keys_nodup]

/-- The first pair of the index belongs to an entry, and no entry is older. -/
theorem Indexed.first (h : Indexed age state index) {p : τ ×ₗ κ}
    (hp : first? index = some p) :
    ∃ v, state.lookup (ofLex p).2 = some v ∧ age v = (ofLex p).1 ∧
      ∀ k w, state.lookup k = some w → (ofLex p).1 ≤ age w := by
  obtain ⟨hmem, hle⟩ := first?_eq_some.mp hp
  obtain ⟨v, hv, hvt⟩ := (h (ofLex p).1 (ofLex p).2).mp hmem
  refine ⟨v, hv, hvt, fun k w hw => ?_⟩
  have hfirst := hle _ (h.mem hw)
  rw [Prod.Lex.le_iff] at hfirst
  rcases hfirst with hlt | ⟨heq, -⟩
  · exact hlt.le
  · exact heq.le

end RpcPlane
