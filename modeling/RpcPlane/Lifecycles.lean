import RpcPlane.Evictions

/-! The life of a lookup against its history: what `transition` stores for a fingerprint and
what it counts, read off the observations fed to it since the fingerprint was last absent. -/

namespace RpcPlane

/-- One observation of a lookup. -/
structure Observation where
  found : Bool
  time : Instant
  deriving DecidableEq

/-- The time of the latest found observation, oldest first. -/
def lastFoundAt (history : List Observation) : Option Instant :=
  ((history.filter Observation.found).getLast?).map Observation.time

/-- What is stored after a history. The poll count of the source stops at `u64::MAX`. -/
def lifecycleOf (history : List Observation) : Option Lifecycle :=
  match lastFoundAt history with
  | some t => some (.found t)
  | none => history.head?.map (fun o => .nullSeen o.time (min history.length (2 ^ 64 - 1)))

/-- The counters of a window that `transition` adds to. -/
structure LifecycleCounts where
  firstObservationFound : Nat
  firstObservationNull : Nat
  nullRepeat : Nat
  nullToFound : Nat
  foundRepeat : Nat
  foundToNullRegression : Nat
  pollsBeforeFound : Fin 6 → Nat
  timeToFound : Fin 6 → Nat
  foundReuse : Fin 5 → Nat

def HistoricalWindow.lifecycleCounts (w : HistoricalWindow) : LifecycleCounts where
  firstObservationFound := w.firstObservationFoundCount
  firstObservationNull := w.firstObservationNullCount
  nullRepeat := w.nullRepeatCount
  nullToFound := w.nullToFoundCount
  foundRepeat := w.foundRepeatCount
  foundToNullRegression := w.foundToNullRegressionCount
  pollsBeforeFound := w.pollsBeforeFoundBucketCounts
  timeToFound := w.timeToFoundBucketCounts
  foundReuse := w.foundReuseBucketCounts

/-- How an observation counts after a history. -/
def LifecycleCounts.observed (counts : LifecycleCounts) (history : List Observation)
    (o : Observation) : LifecycleCounts :=
  match o.found, lastFoundAt history, history with
  | true, some t, _ =>
    { counts with
      foundRepeat := counts.foundRepeat + 1
      foundReuse := bump counts.foundReuse (durationBucket (o.time - t) [300, 3600, 86400, 172800]) }
  | true, none, [] =>
    { counts with
      firstObservationFound := counts.firstObservationFound + 1
      pollsBeforeFound := bump counts.pollsBeforeFound (pollsBucket 0) }
  | true, none, first :: _ =>
    { counts with
      nullToFound := counts.nullToFound + 1
      pollsBeforeFound := bump counts.pollsBeforeFound (pollsBucket history.length)
      timeToFound := bump counts.timeToFound
        (durationBucket (o.time - first.time) [1, 2, 5, 15, 60]) }
  | false, some _, _ => { counts with foundToNullRegression := counts.foundToNullRegression + 1 }
  | false, none, [] => { counts with firstObservationNull := counts.firstObservationNull + 1 }
  | false, none, _ :: _ => { counts with nullRepeat := counts.nullRepeat + 1 }

/-- The histories of all fingerprints, and what they count under each commitment. -/
structure Record where
  history : Fingerprint → List Observation
  tally : HistoricalCommitment → LifecycleCounts

/-- A call observes at most one fingerprint; a fingerprint that is absent after it starts over. -/
def Record.call (r : Record) (after : AnalyzerCore) : CoreCall → Record
  | .transition fingerprint commitment found _ now =>
    { history := fun fp =>
        if after.state.lookup fp = none then []
        else if fp = fingerprint then r.history fp ++ [⟨found, now⟩] else r.history fp
      tally := Function.update r.tally commitment
        ((r.tally commitment).observed (r.history fingerprint) ⟨found, now⟩) }
  | .expire _ =>
    { r with history := fun fp => if after.state.lookup fp = none then [] else r.history fp }

/-- The core and its record, call by call. -/
def recorded (start : AnalyzerCore) (calls : List CoreCall) : AnalyzerCore × Record :=
  calls.foldl (fun s call => (s.1.call call, s.2.call (s.1.call call) call))
    (start, ⟨fun _ => [], fun c => (start.windows c).lifecycleCounts⟩)

theorem lastFoundAt_append (history : List Observation) (o : Observation) :
    lastFoundAt (history ++ [o]) = if o.found then some o.time else lastFoundAt history := by
  cases hf : o.found with
  | true => simp [lastFoundAt, List.filter_append, hf]
  | false => simp [lastFoundAt, List.filter_append, hf]

theorem lifecycleOf_nil : lifecycleOf [] = none := rfl

theorem lifecycleOf_found {history : List Observation} {t : Instant}
    (h : lastFoundAt history = some t) : lifecycleOf history = some (.found t) := by
  rw [lifecycleOf, h]

theorem lifecycleOf_unresolved {first : Observation} {rest : List Observation}
    (h : lastFoundAt (first :: rest) = none) : lifecycleOf (first :: rest) =
      some (.nullSeen first.time (min (first :: rest).length (2 ^ 64 - 1))) := by
  rw [lifecycleOf, h]
  rfl

/-- The match of `transition` takes what is stored for a history to what is stored for the
history with the observation. -/
theorem observe_lifecycle (core : AnalyzerCore) (commitment : HistoricalCommitment)
    (history : List Observation) (o : Observation) :
    some (core.observe commitment (lifecycleOf history) o.found o.time).2 =
      lifecycleOf (history ++ [o]) := by
  have happ := lastFoundAt_append history o
  cases hf : o.found with
  | true =>
    rw [hf, if_pos rfl] at happ
    rw [lifecycleOf_found happ]
    cases lifecycleOf history with
    | none => rfl
    | some lifecycle => cases lifecycle <;> rfl
  | false =>
    rw [hf, if_neg (by simp)] at happ
    cases hl : lastFoundAt history with
    | some t =>
      rw [lifecycleOf_found hl, lifecycleOf_found (happ.trans hl)]
      rfl
    | none =>
      cases history with
      | nil =>
        rw [List.nil_append, lifecycleOf_unresolved (happ.trans hl)]
        rfl
      | cons first rest =>
        have hcount : saturatingSucc (min (first :: rest).length (2 ^ 64 - 1)) =
            min (first :: (rest ++ [o])).length (2 ^ 64 - 1) := by
          simp only [saturatingSucc, List.length_cons, List.length_append, List.length_nil]
          omega
        have hnext : lastFoundAt (first :: (rest ++ [o])) = none := happ.trans hl
        rw [List.cons_append, lifecycleOf_unresolved hnext, lifecycleOf_unresolved hl, ← hcount]
        rfl

/-- The buckets of polls end long before the stored count does. -/
theorem pollsBucket_min (n : Nat) : pollsBucket (min n (2 ^ 64 - 1)) = pollsBucket n := by
  unfold pollsBucket
  split_ifs <;> first | rfl | omega

theorem observe_other (core : AnalyzerCore) (commitment : HistoricalCommitment)
    (previous : Option Lifecycle) (found : Bool) (now : Instant) {c : HistoricalCommitment}
    (hc : c ≠ commitment) :
    (core.observe commitment previous found now).1.windows c = core.windows c := by
  unfold AnalyzerCore.observe
  split <;> simp [AnalyzerCore.recordTransition, AnalyzerCore.window, Function.update_of_ne hc]

theorem observe_counts (core : AnalyzerCore) (commitment : HistoricalCommitment)
    (history : List Observation) (o : Observation) :
    ((core.observe commitment (lifecycleOf history) o.found o.time).1.windows
        commitment).lifecycleCounts =
      (core.windows commitment).lifecycleCounts.observed history o := by
  cases hl : lastFoundAt history with
  | some t =>
    rw [lifecycleOf_found hl]
    cases hf : o.found <;>
      simp only [AnalyzerCore.observe, AnalyzerCore.recordTransition, AnalyzerCore.window,
        Function.update_self, LifecycleCounts.observed, hf, hl] <;> rfl
  | none =>
    cases history with
    | nil =>
      rw [lifecycleOf_nil]
      cases hf : o.found <;>
        simp only [AnalyzerCore.observe, AnalyzerCore.recordTransition, AnalyzerCore.window,
          Function.update_self, LifecycleCounts.observed, hf, hl] <;> rfl
    | cons first rest =>
      rw [lifecycleOf_unresolved hl]
      cases hf : o.found <;>
        simp only [AnalyzerCore.observe, AnalyzerCore.recordTransition, AnalyzerCore.window,
          Function.update_self, LifecycleCounts.observed, hf, hl, pollsBucket_min] <;> rfl

/-- Evictions forget entries and leave the counters of `transition` alone. -/
structure Sheds (before core : AnalyzerCore) : Prop where
  entries : ∀ fp, core.state.lookup fp = before.state.lookup fp ∨ core.state.lookup fp = none
  counts : ∀ c, (core.windows c).lifecycleCounts = (before.windows c).lifecycleCounts

theorem Sheds.refl (core : AnalyzerCore) : Sheds core core := ⟨fun _ => Or.inl rfl, fun _ => rfl⟩

theorem evicted_counts (w : HistoricalWindow) (reason : HistoricalStateEvictionReason)
    (entry : StateEntry) : (w.evicted reason entry).lifecycleCounts = w.lifecycleCounts := by
  unfold HistoricalWindow.evicted
  split <;> rfl

theorem Sheds.evictOldest {before core : AnalyzerCore} (h : Sheds before core)
    (reason : HistoricalStateEvictionReason) : Sheds before (core.evictOldest reason) := by
  cases ho : first? core.lru with
  | none => rwa [AnalyzerCore.evictOldest_none ho]
  | some oldest =>
    cases hv : core.state.lookup (ofLex oldest).2 with
    | none =>
      have he : core.evictOldest reason = { core with lru := core.lru.erase oldest } := by
        simp only [AnalyzerCore.evictOldest, ho, hv]
      rw [he]
      exact ⟨h.entries, h.counts⟩
    | some entry =>
      have he : core.evictOldest reason = AnalyzerCore.window
          { core with
            lru := core.lru.erase oldest
            state := core.state.erase (ofLex oldest).2 }
          entry.commitment (·.evicted reason entry) := by
        simp only [AnalyzerCore.evictOldest, ho, hv]
      rw [he]
      refine ⟨?_, ?_⟩
      · intro fp
        by_cases hfp : fp = (ofLex oldest).2
        · subst hfp
          exact Or.inr (AList.lookup_erase _ _)
        · have hsame : (core.state.erase (ofLex oldest).2).lookup fp = core.state.lookup fp :=
            AList.lookup_erase_ne hfp
          exact (h.entries fp).imp hsame.trans hsame.trans
      · intro c
        by_cases hc : c = entry.commitment
        · subst hc
          simp only [AnalyzerCore.window, Function.update_self, evicted_counts]
          exact h.counts _
        · simp only [AnalyzerCore.window, Function.update_of_ne hc]
          exact h.counts c

theorem Sheds.evictOver (core : AnalyzerCore) : Sheds core core.evictOver :=
  whileLoop_invariant (Sheds core) (fun _ h _ => h.evictOldest .capacity) (.refl core)

theorem Sheds.expire (core : AnalyzerCore) (now : Instant) : Sheds core (core.expire now) :=
  whileLoop_invariant (Sheds core) (fun _ h _ => h.evictOldest .ttl) (.refl core)

section Store

variable (core : AnalyzerCore) (fingerprint : Fingerprint) (commitment : HistoricalCommitment)
  (found : Bool) (now : Instant)

theorem remove_windows : (core.remove fingerprint).windows = core.windows := by
  unfold AnalyzerCore.remove
  split <;> rfl

theorem remove_lookup_other {fp : Fingerprint} (h : fp ≠ fingerprint) :
    (core.remove fingerprint).state.lookup fp = core.state.lookup fp := by
  unfold AnalyzerCore.remove
  split
  · rfl
  · exact AList.lookup_erase_ne h

theorem store_lookup_self : (core.store fingerprint commitment found now).state.lookup fingerprint =
    some ⟨((core.remove fingerprint).observe commitment
      ((core.state.lookup fingerprint).map StateEntry.lifecycle) found now).2, commitment, now⟩ :=
  AList.lookup_insert _

theorem store_lookup_other {fp : Fingerprint} (h : fp ≠ fingerprint) :
    (core.store fingerprint commitment found now).state.lookup fp = core.state.lookup fp := by
  obtain ⟨windows, he⟩ := (core.remove fingerprint).observe_frame commitment
    ((core.state.lookup fingerprint).map StateEntry.lifecycle) found now
  have hother := remove_lookup_other core fingerprint h
  unfold AnalyzerCore.store AnalyzerCore.insert
  dsimp only
  rw [AList.lookup_insert_ne h, he]
  exact hother

theorem store_windows : (core.store fingerprint commitment found now).windows =
    ((core.remove fingerprint).observe commitment
      ((core.state.lookup fingerprint).map StateEntry.lifecycle) found now).1.windows := rfl

end Store

/-- The core is as its record says. -/
structure Agrees (s : AnalyzerCore × Record) : Prop where
  lifecycle : ∀ fp, (s.1.state.lookup fp).map StateEntry.lifecycle = lifecycleOf (s.2.history fp)
  counts : ∀ c, (s.1.windows c).lifecycleCounts = s.2.tally c

theorem Agrees.transition {s : AnalyzerCore × Record} (h : Agrees s) (fingerprint : Fingerprint)
    (commitment : HistoricalCommitment) (found : Bool) (slot : Option Nat) (now : Instant) :
    let after := s.1.transition fingerprint commitment found slot now
    Agrees (after, s.2.call after (.transition fingerprint commitment found slot now)) := by
  intro after
  have hsheds : Sheds (s.1.store fingerprint commitment found now) after := Sheds.evictOver _
  have hprev := h.lifecycle fingerprint
  refine ⟨?_, ?_⟩
  · intro fp
    rcases hsheds.entries fp with hkept | hgone
    · by_cases hfp : fp = fingerprint
      · subst hfp
        have hself := hkept.trans (store_lookup_self s.1 fp commitment found now)
        have hlife := observe_lifecycle (s.1.remove fp) commitment (s.2.history fp) ⟨found, now⟩
        rw [hprev] at hself
        simp only [Record.call, hself, reduceCtorEq, if_false, if_true, Option.map_some]
        exact hlife
      · have hother := hkept.trans (store_lookup_other s.1 fingerprint commitment found now hfp)
        have hlife := h.lifecycle fp
        simp only [Record.call, hother, hfp, if_false]
        by_cases hnone : s.1.state.lookup fp = none
        · simp [hnone, lifecycleOf_nil]
        · rw [if_neg hnone]
          exact hlife
    · simp [Record.call, hgone, lifecycleOf_nil]
  · intro c
    have hshed := hsheds.counts c
    rw [store_windows, hprev] at hshed
    simp only [Record.call]
    rw [hshed]
    by_cases hc : c = commitment
    · subst hc
      rw [Function.update_self, ← h.counts c, ← remove_windows s.1 fingerprint]
      exact observe_counts (s.1.remove fingerprint) c (s.2.history fingerprint) ⟨found, now⟩
    · rw [Function.update_of_ne hc, observe_other _ _ _ _ _ hc, remove_windows]
      exact h.counts c

theorem Agrees.expire {s : AnalyzerCore × Record} (h : Agrees s) (now : Instant) :
    Agrees (s.1.expire now, s.2.call (s.1.expire now) (.expire now)) := by
  have hsheds := Sheds.expire s.1 now
  refine ⟨?_, fun c => (hsheds.counts c).trans (h.counts c)⟩
  intro fp
  simp only [Record.call]
  by_cases hnone : (s.1.expire now).state.lookup fp = none
  · simp [hnone, lifecycleOf_nil]
  · rw [if_neg hnone, (hsheds.entries fp).resolve_right hnone]
    exact h.lifecycle fp

theorem Agrees.calls {s : AnalyzerCore × Record} (h : Agrees s) (calls : List CoreCall) :
    Agrees (calls.foldl (fun s call => (s.1.call call, s.2.call (s.1.call call) call)) s) := by
  induction calls generalizing s with
  | nil => exact h
  | cons call rest ih =>
    apply ih
    cases call with
    | transition fingerprint commitment found slot now =>
      exact h.transition fingerprint commitment found slot now
    | expire now => exact h.expire now

theorem recorded_core (start : AnalyzerCore) (calls : List CoreCall) :
    (recorded start calls).1 = calls.foldl AnalyzerCore.call start := by
  have hfold : ∀ s : AnalyzerCore × Record,
      (calls.foldl (fun s call => (s.1.call call, s.2.call (s.1.call call) call)) s).1 =
        calls.foldl AnalyzerCore.call s.1 := by
    induction calls with
    | nil => exact fun _ => rfl
    | cons call rest ih => exact fun s => ih _
  exact hfold _

theorem Agrees.recorded (capacity ttlSecs : Nat) (hash : Json → Fingerprint) (nowMs : Nat)
    (calls : List CoreCall) :
    Agrees (recorded (AnalyzerCore.new capacity ttlSecs hash nowMs) calls) := by
  apply Agrees.calls
  exact ⟨fun _ => rfl, fun _ => rfl⟩

/-- After any calls, what is stored for a fingerprint is what its history says, and every window
counts what the histories say. -/
theorem lifecycle_of_history (capacity ttlSecs : Nat) (hash : Json → Fingerprint) (nowMs : Nat)
    (calls : List CoreCall) :
    let start := AnalyzerCore.new capacity ttlSecs hash nowMs
    let core := calls.foldl AnalyzerCore.call start
    let record := (recorded start calls).2
    (∀ fp, (core.state.lookup fp).map StateEntry.lifecycle = lifecycleOf (record.history fp)) ∧
      ∀ c, (core.windows c).lifecycleCounts = record.tally c := by
  intro start core record
  have hagrees := Agrees.recorded capacity ttlSecs hash nowMs calls
  have hcore : (recorded start calls).1 = core := recorded_core start calls
  refine ⟨?_, ?_⟩
  · intro fp
    rw [← hcore]
    exact hagrees.lifecycle fp
  · intro c
    rw [← hcore]
    exact hagrees.counts c

/-! The stored count of polls stops before the history does. -/

theorem evictOver_of_within {core : AnalyzerCore} (h : core.state.keys.length ≤ core.capacity) :
    core.evictOver = core := by
  have hno : core.overCapacity = false := by
    rw [AnalyzerCore.overCapacity, decide_eq_false_iff_not]
    omega
  unfold AnalyzerCore.evictOver
  cases core.lru.card with
  | zero => rfl
  | succ fuel => rw [whileLoop, if_neg (by simp [hno])]

def polled : Fingerprint := toLex (1, 2)

/-- `n` polls of one lookup, all answered null at one instant. -/
def nullPolls (n : Nat) : List CoreCall := List.replicate n (.transition polled .processed false none 0)

def onlyLookup : AnalyzerCore := .new 1 60 (fun _ => polled) 0

theorem nullPolls_history (n : Nat) :
    let s := recorded onlyLookup (nullPolls n)
    s.2.history polled = List.replicate n ⟨false, 0⟩ ∧ s.1.capacity = 1 ∧
      ∀ fp, fp ≠ polled → s.1.state.lookup fp = none := by
  induction n with
  | zero => exact ⟨rfl, rfl, fun _ _ => rfl⟩
  | succ n ih =>
    obtain ⟨hhistory, hcapacity, hothers⟩ := ih
    let core := (recorded onlyLookup (nullPolls n)).1
    have hsplit : recorded onlyLookup (nullPolls (n + 1)) =
        (core.call (.transition polled .processed false none 0),
          (recorded onlyLookup (nullPolls n)).2.call
            (core.call (.transition polled .processed false none 0))
            (.transition polled .processed false none 0)) := by
      rw [nullPolls, List.replicate_succ', recorded, List.foldl_append]
      rfl
    have hcap : (core.store polled .processed false 0).capacity = 1 :=
      (core.store_capacity polled .processed false 0).1.trans hcapacity
    have hstored : ∀ fp, fp ≠ polled →
        (core.store polled .processed false 0).state.lookup fp = none :=
      fun fp hfp => (store_lookup_other core polled .processed false 0 hfp).trans (hothers fp hfp)
    have hkeys : (core.store polled .processed false 0).state.keys ⊆ [polled] := by
      intro fp hfp
      by_contra hne
      rw [← AList.mem_keys, ← AList.lookup_isSome, hstored fp (by simpa using hne)] at hfp
      cases hfp
    have hlen := (List.subperm_of_subset (AList.keys_nodup _) hkeys).length_le
    have hsame : core.call (.transition polled .processed false none 0) =
        core.store polled .processed false 0 :=
      evictOver_of_within (hlen.trans hcap.ge)
    have hself := store_lookup_self core polled .processed false 0
    rw [hsplit, hsame]
    refine ⟨?_, hcap, hstored⟩
    simp only [Record.call, hself, reduceCtorEq, if_false, if_true, hhistory, List.replicate_succ']

theorem nullPolls_lifecycle (n : Nat) :
    (((nullPolls n).foldl AnalyzerCore.call onlyLookup).state.lookup polled).map
        StateEntry.lifecycle = lifecycleOf (List.replicate n ⟨false, 0⟩) := by
  have hagrees := (Agrees.recorded 1 60 (fun _ => polled) 0 (nullPolls n)).lifecycle polled
  rw [recorded_core] at hagrees
  exact hagrees.trans (congrArg lifecycleOf (nullPolls_history n).1)

theorem lifecycleOf_nulls {n : Nat} (h : 0 < n) :
    lifecycleOf (List.replicate n ⟨false, 0⟩) = some (.nullSeen 0 (min n (2 ^ 64 - 1))) := by
  cases n with
  | zero => cases h
  | succ n =>
    have hnone : lastFoundAt (List.replicate (n + 1) ⟨false, 0⟩) = none := by simp [lastFoundAt]
    have hunresolved := lifecycleOf_unresolved hnone
    rw [List.length_cons, List.length_replicate] at hunresolved
    exact hunresolved

/-- After 2^64 nulls the stored count is one short of them. -/
theorem null_count_saturates :
    ((recorded onlyLookup (nullPolls (2 ^ 64))).2.history polled).length = 2 ^ 64 ∧
      (((nullPolls (2 ^ 64)).foldl AnalyzerCore.call onlyLookup).state.lookup polled).map
        StateEntry.lifecycle = some (.nullSeen 0 (2 ^ 64 - 1)) := by
  refine ⟨?_, ?_⟩
  · rw [(nullPolls_history (2 ^ 64)).1, List.length_replicate]
  · rw [nullPolls_lifecycle, lifecycleOf_nulls (by norm_num), min_eq_right (by norm_num)]

end RpcPlane
