import RpcPlane.AgeIndex
import RpcPlane.Keyed

/-! Passes over a list with distinct keys that patch a state, seen at one key: only the
element that has the key shows. -/

namespace RpcPlane

variable {σ α κ ν : Type} [DecidableEq κ] {key : α → κ}

theorem find?_key_perm {l m : List α} (hp : l.Perm m) (hnd : (m.map key).Nodup) (k : κ) :
    l.find? (key · == k) = m.find? (key · == k) := by
  have hl : (l.map key).Nodup := (hp.map key).nodup_iff.mpr hnd
  have hperm := hp.filter (key · == k)
  rw [filter_key_of_nodup key hl k, filter_key_of_nodup key hnd k] at hperm
  cases hf : m.find? (key · == k) with
  | none =>
    rw [hf] at hperm
    exact Option.toList_eq_nil_iff.mp hperm.eq_nil
  | some a =>
    rw [hf] at hperm
    exact Option.toList_eq_singleton_iff.mp (List.perm_singleton.mp hperm)

theorem find?_key_filter_ne (key : α → κ) (l : List α) (n k : κ) :
    (l.filter (key · != n)).find? (key · == k) =
      if n = k then none else l.find? (key · == k) := by
  rw [List.find?_filter]
  by_cases hk : n = k
  · rw [if_pos hk]
    apply List.find?_eq_none.mpr
    intro a _
    simp [hk]
  · rw [if_neg hk]
    congr 1
    funext a
    by_cases ha : key a = k
    · simp [ha, Ne.symm hk]
    · simp [ha]

theorem find?_updateKey {f : α → α} (hf : ∀ a, key (f a) = key a) (n k : κ) (l : List α) :
    (updateKey key n f l).find? (key · == k) =
      if n = k then (l.find? (key · == k)).map f else l.find? (key · == k) := by
  induction l with
  | nil => by_cases hk : n = k <;> simp [updateKey]
  | cons a l ih =>
    have hcons : updateKey key n f (a :: l) =
        (if key a = n then f a else a) :: updateKey key n f l := rfl
    have hkey : key (if key a = n then f a else a) = key a := by
      by_cases ha : key a = n <;> simp [ha, hf]
    rw [hcons, List.find?_cons, List.find?_cons, hkey, ih]
    by_cases ha : key a = k
    · by_cases hk : n = k
      · simp [ha, hk]
      · simp [ha, hk, Ne.symm hk]
    · simp [beq_false_of_ne ha]

theorem lookup_insert_key {β : Type} (m : KeyMap κ β) (n k : κ) (b : β) :
    (m.insert n b).lookup k = if n = k then some b else m.lookup k := by
  by_cases hk : n = k
  · rw [if_pos hk, hk, AList.lookup_insert]
  · rw [if_neg hk, AList.lookup_insert_ne (Ne.symm hk)]

theorem lookup_erase_key {β : Type} (m : KeyMap κ β) (n k : κ) :
    (m.erase n).lookup k = if n = k then none else m.lookup k := by
  by_cases hk : n = k
  · rw [if_pos hk, hk, AList.lookup_erase]
  · rw [if_neg hk, AList.lookup_erase_ne (Ne.symm hk)]

/-- `I` is what the pass needs of the state and of the elements that are still to come. -/
theorem view_foldl {I : List α → σ → Prop} {g : σ → α → σ} {V : σ → κ → ν} {f : α → ν → ν}
    (hkeep : ∀ a l s, I (a :: l) s → I l (g s a))
    (hview : ∀ a l s k, I (a :: l) s →
      V (g s a) k = if key a = k then f a (V s k) else V s k)
    {l : List α} (hnd : (l.map key).Nodup) {s : σ} (hs : I l s) (k : κ) :
    V (l.foldl g s) k = ((l.find? (key · == k)).map f).getD id (V s k) := by
  induction l generalizing s with
  | nil => rfl
  | cons a l ih =>
    have ha : key a ∉ l.map key ∧ (l.map key).Nodup := List.nodup_cons.mp hnd
    rw [List.foldl_cons, ih ha.2 (hkeep a l s hs), hview a l s k hs, List.find?_cons]
    by_cases hk : key a = k
    · have hnone : l.find? (key · == k) = none := by
        apply List.find?_eq_none.mpr
        intro b hb he
        have hbk : key b = k := by simpa using he
        exact ha.1 (List.mem_map.mpr ⟨b, hb, hbk.trans hk.symm⟩)
      simp [hk, hnone]
    · simp [hk, beq_false_of_ne hk]

theorem keep_foldl {I : List α → σ → Prop} {g : σ → α → σ}
    (hkeep : ∀ a l s, I (a :: l) s → I l (g s a)) {l : List α} {s : σ} (hs : I l s) :
    I [] (l.foldl g s) := by
  induction l generalizing s with
  | nil => exact hs
  | cons a l ih => exact ih (hkeep a l s hs)

end RpcPlane
