import RpcPlane.AgeIndex
import RpcPlane.Keyed

/-! A map that collects, for each key, what is recorded under it, and that is emptied from
time to time. The recorded items of a key are cut into consecutive windows: one for each
entry that an emptying of the map gave for the key, and the last one still in the map. -/

namespace RpcPlane

/-- An order in which the entries of a hash map come out of it. -/
structure MapOrder (α : Type) where
  order : List α → List α
  perm : ∀ l, (order l).Perm l

def MapOrder.same (α : Type) : MapOrder α where
  order := id
  perm := List.Perm.refl

variable {κ α β : Type} [DecidableEq κ]

structure Collector (α β : Type) where
  zero : β
  add : β → α → β

def Collector.of (c : Collector α β) (items : List α) : β := items.foldl c.add c.zero

def Collector.pending (c : Collector α β) (items : List α) : Option β :=
  if items = [] then none else some (c.of items)

def Collector.record (c : Collector α β) (m : KeyMap κ β) (k : κ) (a : α) : KeyMap κ β :=
  m.insert k (c.add ((m.lookup k).getD c.zero) a)

abbrev Entry (κ β : Type) := (_ : κ) × β

/-- The values of a key among the entries of the emptyings so far. -/
def drainedAt (drained : List (List (Entry κ β))) (k : κ) : List β :=
  (drained.flatten.filter (·.1 == k)).map (·.2)

variable {c : Collector α β} {m : KeyMap κ β} {k : κ} {a : α}

theorem Collector.of_snoc (c : Collector α β) (items : List α) (a : α) :
    c.of (items ++ [a]) = c.add (c.of items) a := by
  simp [Collector.of]

theorem Collector.getD_pending (c : Collector α β) (items : List α) :
    (c.pending items).getD c.zero = c.of items := by
  by_cases h : items = [] <;> simp [Collector.pending, Collector.of, h]

theorem Collector.pending_ne (c : Collector α β) {items : List α} (h : items ≠ []) :
    c.pending items = some (c.of items) := by
  simp [Collector.pending, h]

theorem entries_at (m : KeyMap κ β) (order : MapOrder (Entry κ β)) (k : κ) :
    (((order.order m.entries).filter (·.1 == k)).map (·.2)) = (m.lookup k).toList := by
  have hperm := (order.perm m.entries).filter (·.1 == k)
  have hnodup : (m.entries.map Sigma.fst).Nodup := m.nodupKeys
  have hlen : (m.entries.filter (·.1 == k)) = ((m.lookup k).map (Sigma.mk k)).toList := by
    rw [filter_key_of_nodup Sigma.fst hnodup k]
    congr 1
    cases hl : m.lookup k with
    | none =>
      apply List.find?_eq_none.mpr
      intro e he hk
      have hkey : e.1 = k := by simpa using hk
      have hmem : k ∈ m := AList.mem_keys.mpr (hkey ▸ List.mem_map_of_mem he)
      exact absurd hmem (AList.lookup_eq_none.mp hl)
    | some v =>
      have hmem : Sigma.mk k v ∈ m.entries := AList.mem_lookup_iff.mp hl
      exact find?_key_of_mem hnodup hmem
  rw [hlen] at hperm
  cases hl : m.lookup k with
  | none =>
    rw [hl] at hperm
    rw [hperm.eq_nil]
    rfl
  | some v =>
    rw [hl] at hperm
    rw [List.perm_singleton.mp hperm]
    rfl

/-- The recorded items of each key are the windows of its drained entries, in order, and
what is pending. -/
structure Conserved (c : Collector α β) (items : κ → List α) (m : KeyMap κ β)
    (drained : List (List (Entry κ β))) : Prop where
  cut : ∀ k, ∃ (windows : List (List α)) (rest : List α), items k = windows.flatten ++ rest ∧ (∀ w ∈ windows, w ≠ []) ∧
    drainedAt drained k = windows.map c.of ∧ m.lookup k = c.pending rest
  once : ∀ entries ∈ drained, ∀ k, (entries.filter (·.1 == k)).length ≤ 1

theorem Conserved.start (c : Collector α β) :
    Conserved c (fun _ => []) (∅ : KeyMap κ β) [] where
  cut k := ⟨[], [], rfl, by simp, rfl, AList.lookup_empty k⟩
  once := by simp

theorem Conserved.record {items : κ → List α} {drained : List (List (Entry κ β))}
    (h : Conserved c items m drained) (k : κ) (a : α) :
    Conserved c (fun j => if j = k then items j ++ [a] else items j) (c.record m k a) drained where
  cut j := by
    obtain ⟨windows, rest, hitems, hne, hd, hl⟩ := h.cut j
    by_cases hj : j = k
    · subst hj
      refine ⟨windows, rest ++ [a], ?_, hne, hd, ?_⟩
      · rw [if_pos rfl, hitems, List.append_assoc]
      · unfold Collector.record
        rw [AList.lookup_insert, c.pending_ne (by simp), hl, c.getD_pending, c.of_snoc]
    · refine ⟨windows, rest, ?_, hne, hd, ?_⟩
      · rw [if_neg hj, hitems]
      · unfold Collector.record
        rw [AList.lookup_insert_ne hj, hl]
  once := h.once

theorem Conserved.drain {items : κ → List α} {drained : List (List (Entry κ β))}
    (h : Conserved c items m drained) (order : MapOrder (Entry κ β)) :
    Conserved c items ∅ (drained ++ [order.order m.entries]) where
  cut k := by
    obtain ⟨windows, rest, hitems, hne, hd, hl⟩ := h.cut k
    have hat : drainedAt (drained ++ [order.order m.entries]) k =
        windows.map c.of ++ (c.pending rest).toList := by
      rw [← hd, ← hl, ← entries_at m order k]
      simp [drainedAt]
    by_cases hr : rest = []
    · refine ⟨windows, [], ?_, hne, ?_, AList.lookup_empty k⟩
      · rw [hitems, hr]
      · rw [hat, hr]
        simp [Collector.pending]
    · refine ⟨windows ++ [rest], [], ?_, ?_, ?_, AList.lookup_empty k⟩
      · simp [hitems]
      · intro w hw
        rcases List.mem_append.mp hw with hw | hw
        · exact hne w hw
        · rw [List.mem_singleton.mp hw]
          exact hr
      · rw [hat, c.pending_ne hr, List.map_append]
        rfl
  once := by
    intro entries he k
    rcases List.mem_append.mp he with he | he
    · exact h.once entries he k
    · rw [List.mem_singleton.mp he]
      have hlen := congrArg List.length (entries_at m order k)
      rw [List.length_map] at hlen
      rw [hlen]
      cases m.lookup k <;> simp

end RpcPlane
