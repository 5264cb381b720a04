import RpcPlane.Historical

/-! The representation invariant of `AnalyzerCore`: `lru` is the age index of `state`, so
each eviction takes the oldest entry out of both. -/

namespace RpcPlane

def AnalyzerCore.Represents (core : AnalyzerCore) : Prop :=
  Indexed StateEntry.lastSeenAt core.state core.lru

theorem AnalyzerCore.Represents.card {core : AnalyzerCore} (h : core.Represents) :
    core.lru.card = core.state.keys.length :=
  Indexed.card h

/-- Under the invariant an eviction takes the least pair of `lru` and the entry it names. -/
theorem AnalyzerCore.evictOldest_eq {core : AnalyzerCore} (h : core.Represents)
    {oldest : Instant ×ₗ Fingerprint} (ho : first? core.lru = some oldest)
    (reason : HistoricalStateEvictionReason) :
    ∃ entry, core.state.lookup (ofLex oldest).2 = some entry ∧
      entry.lastSeenAt = (ofLex oldest).1 ∧
      core.evictOldest reason = AnalyzerCore.window
        { core with
          lru := core.lru.erase oldest
          state := core.state.erase (ofLex oldest).2 }
        entry.commitment (·.evicted reason entry) := by
  obtain ⟨entry, hv, ht, -⟩ := Indexed.first h ho
  refine ⟨entry, hv, ht, ?_⟩
  unfold evictOldest
  rw [ho]
  dsimp only
  rw [hv]

theorem AnalyzerCore.evictOldest_none {core : AnalyzerCore} (ho : first? core.lru = none)
    (reason : HistoricalStateEvictionReason) : core.evictOldest reason = core := by
  unfold evictOldest
  rw [ho]

@[simp] theorem AnalyzerCore.evictOldest_capacity (core : AnalyzerCore)
    (reason : HistoricalStateEvictionReason) :
    (core.evictOldest reason).capacity = core.capacity := by
  unfold evictOldest
  split
  · rfl
  · dsimp only
    split <;> rfl

@[simp] theorem AnalyzerCore.evictOldest_ttl (core : AnalyzerCore)
    (reason : HistoricalStateEvictionReason) : (core.evictOldest reason).ttl = core.ttl := by
  unfold evictOldest
  split
  · rfl
  · dsimp only
    split <;> rfl

theorem AnalyzerCore.Represents.evictOldest {core : AnalyzerCore} (h : core.Represents)
    (reason : HistoricalStateEvictionReason) : (core.evictOldest reason).Represents := by
  cases ho : first? core.lru with
  | none => rwa [evictOldest_none ho]
  | some oldest =>
    obtain ⟨entry, hv, ht, he⟩ := evictOldest_eq h ho reason
    have hpair : toLex (entry.lastSeenAt, (ofLex oldest).2) = oldest := by
      rw [ht]
      rfl
    have hi := Indexed.erase h hv
    rw [hpair] at hi
    rw [he]
    exact hi

theorem AnalyzerCore.evictOldest_card {core : AnalyzerCore} (h : core.Represents)
    (hne : core.lru.Nonempty) (reason : HistoricalStateEvictionReason) :
    (core.evictOldest reason).lru.card + 1 = core.lru.card := by
  cases ho : first? core.lru with
  | none => exact absurd (first?_eq_none.mp ho) hne.ne_empty
  | some oldest =>
    obtain ⟨entry, -, -, he⟩ := evictOldest_eq h ho reason
    rw [he]
    exact Finset.card_erase_add_one (first?_eq_some.mp ho).1

theorem AnalyzerCore.nonempty_of_over {core : AnalyzerCore} (h : core.Represents)
    (ho : core.overCapacity = true) : core.lru.Nonempty := by
  have hlt : core.capacity < core.state.keys.length := by simpa [overCapacity] using ho
  have hcard := h.card
  exact Finset.card_pos.mp (by omega)

theorem AnalyzerCore.nonempty_of_expired {core : AnalyzerCore} {now : Instant}
    (ho : core.oldestExpired now = true) : core.lru.Nonempty := by
  by_contra hne
  have hnone := first?_eq_none.mpr (Finset.not_nonempty_iff_eq_empty.mp hne)
  simp [oldestExpired, hnone] at ho

theorem AnalyzerCore.remove_lookup (core : AnalyzerCore) (fingerprint : Fingerprint) :
    (core.remove fingerprint).state.lookup fingerprint = none := by
  unfold remove
  cases hv : core.state.lookup fingerprint with
  | none => exact hv
  | some entry => exact AList.lookup_erase _ _

theorem AnalyzerCore.Represents.remove {core : AnalyzerCore} (h : core.Represents)
    (fingerprint : Fingerprint) : (core.remove fingerprint).Represents := by
  unfold AnalyzerCore.remove
  cases hv : core.state.lookup fingerprint with
  | none => exact h
  | some entry => exact Indexed.erase h hv

theorem AnalyzerCore.remove_capacity (core : AnalyzerCore) (fingerprint : Fingerprint) :
    (core.remove fingerprint).capacity = core.capacity ∧
      (core.remove fingerprint).ttl = core.ttl := by
  unfold remove
  split <;> exact ⟨rfl, rfl⟩

theorem AnalyzerCore.observe_frame (core : AnalyzerCore) (commitment : HistoricalCommitment)
    (previous : Option Lifecycle) (found : Bool) (now : Instant) :
    ∃ windows, (core.observe commitment previous found now).1 = { core with windows := windows } := by
  unfold observe
  split <;> exact ⟨_, rfl⟩

section

variable (core : AnalyzerCore) (fingerprint : Fingerprint) (commitment : HistoricalCommitment)
  (found : Bool) (slot : Option Nat) (now : Instant)

theorem AnalyzerCore.Represents.store {core : AnalyzerCore} (h : core.Represents) :
    (core.store fingerprint commitment found now).Represents := by
  obtain ⟨windows, he⟩ := (core.remove fingerprint).observe_frame commitment
    ((core.state.lookup fingerprint).map StateEntry.lifecycle) found now
  unfold AnalyzerCore.store
  dsimp only
  rw [he]
  exact Indexed.insert (h.remove fingerprint) (core.remove_lookup fingerprint)
    (StateEntry.mk _ commitment now)

theorem AnalyzerCore.store_capacity :
    (core.store fingerprint commitment found now).capacity = core.capacity ∧
      (core.store fingerprint commitment found now).ttl = core.ttl := by
  obtain ⟨windows, he⟩ := (core.remove fingerprint).observe_frame commitment
    ((core.state.lookup fingerprint).map StateEntry.lifecycle) found now
  unfold store
  dsimp only
  rw [he]
  exact core.remove_capacity fingerprint

theorem AnalyzerCore.Represents.evictOver {core : AnalyzerCore} (h : core.Represents) :
    core.evictOver.Represents ∧ core.evictOver.capacity = core.capacity ∧
      core.evictOver.ttl = core.ttl ∧ core.evictOver.overCapacity = false := by
  have hkept : core.evictOver.Represents ∧ core.evictOver.capacity = core.capacity ∧
      core.evictOver.ttl = core.ttl :=
    whileLoop_invariant (fun c : AnalyzerCore => c.Represents ∧ c.capacity = core.capacity ∧ c.ttl = core.ttl)
      (fun c hc _ => ⟨hc.1.evictOldest .capacity, by simp [hc.2.1], by simp [hc.2.2]⟩)
      ⟨h, rfl, rfl⟩
  refine ⟨hkept.1, hkept.2.1, hkept.2.2, ?_⟩
  refine whileLoop_exit Represents (fun c => c.lru.card) ?_ ?_ h le_rfl
  · intro c hc ho
    have hcard := evictOldest_card hc (nonempty_of_over hc ho) .capacity
    exact ⟨hc.evictOldest .capacity, by omega⟩
  · intro c hc hzero
    have hcard := hc.card
    have hle : ¬ c.capacity < c.state.keys.length := by omega
    simpa [overCapacity] using hle

theorem AnalyzerCore.Represents.transition {core : AnalyzerCore} (h : core.Represents) :
    let next := core.transition fingerprint commitment found slot now
    next.Represents ∧ next.capacity = core.capacity ∧ next.ttl = core.ttl ∧
      next.overCapacity = false := by
  have hstore := core.store_capacity fingerprint commitment found now
  obtain ⟨hr, hc, ht, ho⟩ := (h.store fingerprint commitment found now).evictOver
  exact ⟨hr, hc.trans hstore.1, ht.trans hstore.2, ho⟩

end

/-- What the loop of `expire` keeps: an entry is as it was before the call, or is gone and
was as old as the limit. -/
structure Expiring (before : AnalyzerCore) (now : Instant) (core : AnalyzerCore) : Prop where
  represents : core.Represents
  capacity : core.capacity = before.capacity
  ttl : core.ttl = before.ttl
  entries : ∀ fp, core.state.lookup fp = before.state.lookup fp ∨
    core.state.lookup fp = none ∧
      ∃ e, before.state.lookup fp = some e ∧ before.ttl ≤ now - e.lastSeenAt

theorem Expiring.evictOldest {before core : AnalyzerCore} {now : Instant}
    (h : Expiring before now core) (hg : core.oldestExpired now = true) :
    Expiring before now (core.evictOldest .ttl) := by
  refine ⟨h.represents.evictOldest .ttl, by simp [h.capacity], by simp [h.ttl], fun fp => ?_⟩
  cases ho : first? core.lru with
  | none => simp [AnalyzerCore.oldestExpired, ho] at hg
  | some oldest =>
    obtain ⟨entry, hv, ht, he⟩ := AnalyzerCore.evictOldest_eq h.represents ho .ttl
    have hold : core.ttl ≤ now - entry.lastSeenAt := by
      rw [ht]
      simpa [AnalyzerCore.oldestExpired, ho] using hg
    have hstate : (core.evictOldest .ttl).state = core.state.erase (ofLex oldest).2 := by rw [he]; rfl
    rw [hstate]
    by_cases hfp : fp = (ofLex oldest).2
    · subst hfp
      rw [AList.lookup_erase]
      rcases h.entries (ofLex oldest).2 with hsame | hgone
      · exact Or.inr ⟨rfl, entry, hsame.symm.trans hv, h.ttl ▸ hold⟩
      · exact Or.inr ⟨rfl, hgone.2⟩
    · rw [AList.lookup_erase_ne hfp]
      exact h.entries fp

theorem AnalyzerCore.Represents.expire {core : AnalyzerCore} (h : core.Represents)
    (now : Instant) :
    Expiring core now (core.expire now) ∧ (core.expire now).oldestExpired now = false := by
  have hstart : Expiring core now core := ⟨h, rfl, rfl, fun _ => Or.inl rfl⟩
  refine ⟨whileLoop_invariant (Expiring core now) (fun c hc hg => hc.evictOldest hg) hstart, ?_⟩
  refine whileLoop_exit Represents (fun c => c.lru.card) ?_ ?_ h le_rfl
  · intro c hc ho
    have hcard := evictOldest_card hc (nonempty_of_expired ho) .ttl
    exact ⟨hc.evictOldest .ttl, by omega⟩
  · intro c _ hzero
    have hnone := first?_eq_none.mpr (Finset.card_eq_zero.mp hzero)
    simp [oldestExpired, hnone]

theorem AnalyzerCore.Represents.expire_lookup {core : AnalyzerCore} (h : core.Represents)
    (now : Instant) (fp : Fingerprint) :
    (core.expire now).state.lookup fp =
      (core.state.lookup fp).filter (fun e => decide (now - e.lastSeenAt < core.ttl)) := by
  obtain ⟨hexp, hexit⟩ := h.expire now
  rcases hexp.entries fp with hsame | ⟨hgone, e, he, hold⟩
  · rw [hsame]
    cases hv : core.state.lookup fp with
    | none => rfl
    | some e =>
      rw [hv] at hsame
      have hyoung : now - e.lastSeenAt < core.ttl := by
        cases ho : first? (core.expire now).lru with
        | none =>
          have hempty := first?_eq_none.mp ho
          have hmem := Indexed.mem hexp.represents hsame
          rw [hempty] at hmem
          exact absurd hmem (Finset.notMem_empty _)
        | some oldest =>
          obtain ⟨-, -, -, hle⟩ := Indexed.first hexp.represents ho
          have hfirst := hle fp e hsame
          have hlt : now - (ofLex oldest).1 < core.ttl := by
            simpa [oldestExpired, ho, hexp.ttl] using hexit
          have hage : now - e.lastSeenAt ≤ now - (ofLex oldest).1 := Nat.sub_le_sub_left hfirst now
          exact hage.trans_lt hlt
      rw [Option.filter_some, if_pos (by simpa using hyoung)]
  · rw [hgone, he, Option.filter_some, if_neg (by simpa using hold)]

inductive CoreCall where
  | transition (fingerprint : Fingerprint) (commitment : HistoricalCommitment) (found : Bool)
      (slot : Option Nat) (now : Instant)
  | expire (now : Instant)

def AnalyzerCore.call (core : AnalyzerCore) : CoreCall → AnalyzerCore
  | .transition fingerprint commitment found slot now =>
    core.transition fingerprint commitment found slot now
  | .expire now => core.expire now

def CoreCall.reason : CoreCall → HistoricalStateEvictionReason
  | .transition _ _ _ _ _ => .capacity
  | .expire _ => .ttl

/-- The states from which a call evicts, in order. -/
def AnalyzerCore.evictions (core : AnalyzerCore) : CoreCall → List AnalyzerCore
  | .transition fingerprint commitment found _ now =>
    let stored := core.store fingerprint commitment found now
    whileStates overCapacity (evictOldest · .capacity) stored.lru.card stored
  | .expire now => whileStates (oldestExpired now) (evictOldest · .ttl) core.lru.card core

theorem AnalyzerCore.Represents.evictions {core mid : AnalyzerCore} (h : core.Represents)
    (call : CoreCall) (hm : mid ∈ core.evictions call) : mid.Represents ∧ mid.lru.Nonempty := by
  cases call with
  | transition fingerprint commitment found slot now =>
    obtain ⟨hr, ho⟩ := whileStates_invariant Represents (fun c hc _ => hc.evictOldest .capacity)
      (h.store fingerprint commitment found now) hm
    exact ⟨hr, nonempty_of_over hr ho⟩
  | expire now =>
    obtain ⟨hr, ho⟩ := whileStates_invariant Represents (fun c hc _ => hc.evictOldest .ttl) h hm
    exact ⟨hr, nonempty_of_expired ho⟩

/-- One eviction: the least pair of `lru` and its entry, out of both structures. -/
def EvictsOldest (core next : AnalyzerCore) : Prop :=
  ∃ t fp e, toLex (t, fp) ∈ core.lru ∧ (∀ p ∈ core.lru, toLex (t, fp) ≤ p) ∧
    core.state.lookup fp = some e ∧ e.lastSeenAt = t ∧
    next.lru = core.lru.erase (toLex (t, fp)) ∧ next.state = core.state.erase fp ∧
    next.lru.card + 1 = core.lru.card ∧ next.state.keys.length + 1 = core.state.keys.length

theorem AnalyzerCore.Represents.evictsOldest {core : AnalyzerCore} (h : core.Represents)
    (hne : core.lru.Nonempty) (reason : HistoricalStateEvictionReason) :
    EvictsOldest core (core.evictOldest reason) := by
  cases ho : first? core.lru with
  | none => exact absurd (first?_eq_none.mp ho) hne.ne_empty
  | some oldest =>
    obtain ⟨entry, hv, ht, he⟩ := evictOldest_eq h ho reason
    obtain ⟨hmem, hle⟩ := first?_eq_some.mp ho
    have hcard := evictOldest_card h hne reason
    have hbefore := h.card
    have hafter := (h.evictOldest reason).card
    exact ⟨(ofLex oldest).1, (ofLex oldest).2, entry, hmem, hle, hv, ht, by rw [he]; rfl,
      by rw [he]; rfl, hcard, by omega⟩

/-- What every sequence of calls keeps. -/
structure CoreInv (limit lifetime : Nat) (core : AnalyzerCore) : Prop where
  represents : core.Represents
  capacity : core.capacity = limit
  ttl : core.ttl = lifetime
  bounded : core.state.keys.length ≤ limit

theorem CoreInv.call {limit lifetime : Nat} {core : AnalyzerCore} (h : CoreInv limit lifetime core)
    (call : CoreCall) : CoreInv limit lifetime (core.call call) := by
  cases call with
  | transition fingerprint commitment found slot now =>
    obtain ⟨hr, hc, ht, ho⟩ := h.represents.transition fingerprint commitment found slot now
    rw [AnalyzerCore.overCapacity, hc, h.capacity, decide_eq_false_iff_not, not_lt] at ho
    exact ⟨hr, hc.trans h.capacity, ht.trans h.ttl, ho⟩
  | expire now =>
    obtain ⟨hexp, -⟩ := h.represents.expire now
    refine ⟨hexp.represents, hexp.capacity.trans h.capacity, hexp.ttl.trans h.ttl, ?_⟩
    have hkeys : (core.expire now).state.keys ⊆ core.state.keys := by
      intro fp hfp
      rw [← AList.mem_keys, ← AList.lookup_isSome] at hfp ⊢
      rcases hexp.entries fp with hsame | ⟨hgone, -⟩
      · rwa [← hsame]
      · simp [hgone] at hfp
    have hlen := (List.subperm_of_subset (AList.keys_nodup _) hkeys).length_le
    exact hlen.trans h.bounded

theorem CoreInv.calls {limit lifetime : Nat} {core : AnalyzerCore} (h : CoreInv limit lifetime core)
    (calls : List CoreCall) : CoreInv limit lifetime (calls.foldl AnalyzerCore.call core) := by
  induction calls generalizing core with
  | nil => exact h
  | cons call rest ih => exact ih (h.call call)

/-- After any calls at any times: `lru` indexes `state`, both are within the capacity, each
eviction of a further call takes the oldest entry out of both, and a further `expire` leaves
exactly the entries younger than the limit. -/
theorem analyzer_representation (capacity ttlSecs : Nat) (hash : Json → Fingerprint) (nowMs : Nat)
    (calls : List CoreCall) :
    let core := calls.foldl AnalyzerCore.call (AnalyzerCore.new capacity ttlSecs hash nowMs)
    (∀ t fp, toLex (t, fp) ∈ core.lru ↔
      ∃ e, core.state.lookup fp = some e ∧ e.lastSeenAt = t) ∧
    core.state.keys.length = core.lru.card ∧ core.lru.card ≤ capacity ∧
    (∀ call, ∀ mid ∈ core.evictions call, EvictsOldest mid (mid.evictOldest call.reason)) ∧
    ∀ now fp, (core.expire now).state.lookup fp =
      (core.state.lookup fp).filter (fun e => decide (now - e.lastSeenAt < fromSecs ttlSecs)) := by
  intro core
  have hstart : CoreInv capacity (fromSecs ttlSecs)
      (AnalyzerCore.new capacity ttlSecs hash nowMs) := ⟨Indexed.empty, rfl, rfl, Nat.zero_le _⟩
  have hi : CoreInv capacity (fromSecs ttlSecs) core := hstart.calls calls
  have hcard := hi.represents.card
  have hbound := hi.bounded
  refine ⟨hi.represents, hcard.symm, by omega, ?_, ?_⟩
  · intro call mid hm
    obtain ⟨hr, hne⟩ := hi.represents.evictions call hm
    exact hr.evictsOldest hne call.reason
  · intro now fp
    have hexpire := hi.represents.expire_lookup now fp
    rwa [hi.ttl] at hexpire

end RpcPlane
