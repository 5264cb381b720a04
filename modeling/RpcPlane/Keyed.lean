import Mathlib.Data.List.Nodup
import Mathlib.Order.Lattice

/-! Lists whose elements carry a key, no two of them the same: lookup by key, and the
update of the element that has a given key. -/

namespace RpcPlane

variable {α κ : Type} [DecidableEq κ] {key : α → κ}

theorem find?_key_of_mem {l : List α} (hnd : (l.map key).Nodup) {a : α} (ha : a ∈ l) :
    l.find? (key · == key a) = some a := by
  induction l with
  | nil => simp at ha
  | cons x xs ih =>
    have hx : key x ∉ xs.map key ∧ (xs.map key).Nodup := by
      simpa only [List.map_cons, List.nodup_cons] using hnd
    rcases List.mem_cons.mp ha with rfl | ha
    · simp
    · have hne : key x ≠ key a := fun he => hx.1 (List.mem_map.mpr ⟨a, ha, he.symm⟩)
      simpa [hne] using ih hx.2 ha

theorem key_of_find? {l : List α} {k : κ} {a : α} (h : l.find? (key · == k) = some a) :
    a ∈ l ∧ key a = k :=
  ⟨List.mem_of_find?_eq_some h, by simpa using List.find?_some h⟩

theorem perm_eraseP_of_find? {p : α → Bool} {l : List α} {a : α}
    (h : l.find? p = some a) : (a :: l.eraseP p).Perm l := by
  obtain ⟨ha, as, bs, rfl, has⟩ := List.find?_eq_some_iff_append.mp h
  have herase : (as ++ a :: bs).eraseP p = as ++ bs := by
    rw [List.eraseP_append_right _ (by simpa using has)]
    simp [ha]
  rw [herase]
  exact List.perm_middle.symm

theorem find?_eraseP_key (key : α → κ) {l : List α} {k : κ} {a : α}
    (h : l.find? (key · == k) = some a) (hnd : (l.map key).Nodup) :
    key a = k ∧ (a :: l.eraseP (key · == k)).Perm l ∧ k ∉ (l.eraseP (key · == k)).map key := by
  obtain ⟨hk, as, bs, rfl, has⟩ := List.find?_eq_some_iff_append.mp h
  have hkey : key a = k := by simpa using hk
  have herase : (as ++ a :: bs).eraseP (key · == k) = as ++ bs := by
    rw [List.eraseP_append_right _ (by simpa using has)]
    simp [hkey]
  rw [herase]
  refine ⟨hkey, List.perm_middle.symm, ?_⟩
  have hperm : ((a :: (as ++ bs)).map key).Nodup :=
    (List.perm_middle.symm.map _).nodup_iff.mpr hnd
  rw [List.map_cons, List.nodup_cons, hkey] at hperm
  exact hperm.1

theorem filter_key_of_nodup (key : α → κ) {l : List α} (hnd : (l.map key).Nodup) (k : κ) :
    l.filter (key · == k) = (l.find? (key · == k)).toList := by
  induction l with
  | nil => rfl
  | cons x xs ih =>
    have hx : key x ∉ xs.map key ∧ (xs.map key).Nodup := by
      simpa only [List.map_cons, List.nodup_cons] using hnd
    by_cases he : key x = k
    · have hnil : xs.filter (key · == k) = [] := by
        apply List.filter_eq_nil_iff.mpr
        intro y hy hk
        have hk' : key y = k := by simpa using hk
        exact hx.1 (List.mem_map.mpr ⟨y, hy, hk'.trans he.symm⟩)
      simp [he, hnil]
    · simpa [he] using ih hx.2

theorem exists_find?_key (key : α → κ) {l : List α} {k : κ} (h : k ∈ l.map key) :
    ∃ a, l.find? (key · == k) = some a := by
  obtain ⟨a, ha, rfl⟩ := List.mem_map.mp h
  exact Option.isSome_iff_exists.mp (List.find?_isSome.mpr ⟨a, ha, by simp⟩)

/-- In a list ordered by its key, dropping the elements below a bound keeps exactly the
others. -/
theorem dropWhile_key_lt {β : Type} [LinearOrder β] {time : α → β} {l : List α}
    (h : (l.map time).Pairwise (· ≤ ·)) (c : β) :
    l.dropWhile (time · < c) = l.filter (c ≤ time ·) := by
  induction l with
  | nil => rfl
  | cons x xs ih =>
    have hx : (∀ t ∈ xs.map time, time x ≤ t) ∧ (xs.map time).Pairwise (· ≤ ·) :=
      List.pairwise_cons.mp h
    by_cases hc : time x < c
    · simpa [hc, not_le.mpr hc] using ih hx.2
    · have hle : c ≤ time x := not_lt.mp hc
      have hall : ∀ y ∈ xs, c ≤ time y :=
        fun y hy => le_trans hle (hx.1 _ (List.mem_map.mpr ⟨y, hy, rfl⟩))
      have hxs : xs.filter (c ≤ time ·) = xs :=
        List.filter_eq_self.mpr (fun y hy => decide_eq_true (hall y hy))
      simp [hc, hle, hxs]

def updateKey (key : α → κ) (k : κ) (f : α → α) (l : List α) : List α :=
  l.map (fun a => if key a = k then f a else a)

theorem map_key_updateKey {f : α → α} (hf : ∀ a, key (f a) = key a) (k : κ) (l : List α) :
    (updateKey key k f l).map key = l.map key := by
  simp only [updateKey, List.map_map]
  apply List.map_congr_left
  intro a _
  by_cases he : key a = k <;> simp [he, hf]

end RpcPlane
