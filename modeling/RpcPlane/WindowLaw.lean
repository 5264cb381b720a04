import RpcPlane.HistoricalJob
import Mathlib.Algebra.BigOperators.Fin
import Mathlib.Algebra.BigOperators.Pi

/-! The identities between the counters of a window, kept by every job, eviction and flush. -/

namespace RpcPlane

theorem sum_bump {n : Nat} (counts : Fin n → Nat) (i : Fin n) :
    ∑ j, bump counts i j = ∑ j, counts j + 1 := by
  have hsplit : bump counts i = fun j => counts j + (Pi.single i 1 : Fin n → Nat) j := by
    funext j
    by_cases hj : j = i
    · subst hj
      simp [bump]
    · simp [bump, hj]
  rw [hsplit, Finset.sum_add_distrib]
  simp

/-- The identities of one window; `dropped` logical calls were added when it was flushed. -/
structure HistoricalWindow.Law (w : HistoricalWindow) (dropped : Nat) : Prop where
  analyzed : w.analyzedRequestCount =
    w.foundCount + w.nullCount + w.rpcErrorCount + w.parseErrorCount
  logical : w.logicalRequestCount = w.analyzedRequestCount + w.unsupportedBatchCount + dropped
  found : w.foundCount =
    w.firstObservationFoundCount + w.nullToFoundCount + w.foundRepeatCount
  slotAge : w.foundCount =
    ∑ i, w.slotAgeBucketCounts i + w.slotAgeUnknownCount + w.slotAgeTipBehindCount
  null : w.nullCount =
    w.firstObservationNullCount + w.nullRepeatCount + w.foundToNullRegressionCount
  polls : ∑ i, w.pollsBeforeFoundBucketCounts i =
    w.firstObservationFoundCount + w.nullToFoundCount
  timeToFound : ∑ i, w.timeToFoundBucketCounts i = w.nullToFoundCount
  reuse : ∑ i, w.foundReuseBucketCounts i = w.foundRepeatCount
  capacity : w.unresolvedNullCapacityEvictionCount ≤ w.stateCapacityEvictionCount
  ttl : w.unresolvedNullTtlExpirationCount ≤ w.stateTtlExpirationCount

/-- What the match of `transition` does to the window. -/
def HistoricalWindow.observed (w : HistoricalWindow) (previous : Option Lifecycle) (found : Bool)
    (now : Instant) : HistoricalWindow :=
  match previous, found with
  | none, false => w.transition .firstObservationNull
  | none, true =>
    { w.transition .firstObservationFound with
      pollsBeforeFoundBucketCounts := bump w.pollsBeforeFoundBucketCounts (pollsBucket 0) }
  | some (.nullSeen _ _), false => w.transition .nullRepeat
  | some (.found _), false => w.transition .foundToNullRegression
  | some (.nullSeen firstNullAt nullPollCount), true =>
    { w.transition .nullToFound with
      pollsBeforeFoundBucketCounts := bump w.pollsBeforeFoundBucketCounts (pollsBucket nullPollCount)
      timeToFoundBucketCounts := bump w.timeToFoundBucketCounts
        (durationBucket (now - firstNullAt) [1, 2, 5, 15, 60]) }
  | some (.found lastFoundAt), true =>
    { w.transition .foundRepeat with
      foundReuseBucketCounts := bump w.foundReuseBucketCounts
        (durationBucket (now - lastFoundAt) [300, 3600, 86400, 172800]) }

theorem AnalyzerCore.window_window (core : AnalyzerCore) (c : HistoricalCommitment)
    (f g : HistoricalWindow → HistoricalWindow) :
    (core.window c f).window c g = core.window c (fun w => g (f w)) := by
  simp [window]

theorem AnalyzerCore.observe_windows (core : AnalyzerCore) (c : HistoricalCommitment)
    (previous : Option Lifecycle) (found : Bool) (now : Instant) :
    (core.observe c previous found now).1 = core.window c (·.observed previous found now) := by
  cases previous with
  | none =>
    cases found with
    | false => rfl
    | true => simp only [observe, recordTransition, window_window]; rfl
  | some lifecycle =>
    cases lifecycle with
    | nullSeen firstNullAt polls =>
      cases found with
      | false => rfl
      | true => simp only [observe, recordTransition, window_window]; rfl
    | found lastFoundAt =>
      cases found with
      | false => rfl
      | true => simp only [observe, recordTransition, window_window]; rfl

section law

variable {w : HistoricalWindow} {dropped : Nat} (h : w.Law dropped)

include h

theorem HistoricalWindow.Law.evicted (reason : HistoricalStateEvictionReason)
    (entry : StateEntry) : (w.evicted reason entry).Law dropped := by
  have hc := h.capacity
  have ht := h.ttl
  unfold HistoricalWindow.evicted
  split
  · exact { h with capacity := by dsimp only; omega }
  · exact { h with capacity := by dsimp only; omega }
  · exact { h with ttl := by dsimp only; omega }
  · exact { h with ttl := by dsimp only; omega }

theorem HistoricalWindow.Law.rpcError :
    HistoricalWindow.Law { w.analyzed with rpcErrorCount := w.rpcErrorCount + 1 } dropped := by
  have ha := h.analyzed
  have hl := h.logical
  exact { h with
    analyzed := by simp only [HistoricalWindow.analyzed]; omega
    logical := by simp only [HistoricalWindow.analyzed]; omega }

theorem HistoricalWindow.Law.parseError :
    HistoricalWindow.Law { w.analyzed with parseErrorCount := w.parseErrorCount + 1 } dropped := by
  have ha := h.analyzed
  have hl := h.logical
  exact { h with
    analyzed := by simp only [HistoricalWindow.analyzed]; omega
    logical := by simp only [HistoricalWindow.analyzed]; omega }

theorem HistoricalWindow.Law.unsupported :
    HistoricalWindow.Law
      { w with
        logicalRequestCount := w.logicalRequestCount + 1
        unsupportedBatchCount := w.unsupportedBatchCount + 1 } dropped := by
  have hl := h.logical
  exact { h with logical := by dsimp only; omega }

theorem HistoricalWindow.Law.nullSeen (previous : Option Lifecycle) (now : Instant) :
    (HistoricalWindow.observed { w.analyzed with nullCount := w.nullCount + 1 } previous false
      now).Law dropped := by
  have ha := h.analyzed
  have hl := h.logical
  have hn := h.null
  unfold HistoricalWindow.observed
  split
  case h_2 | h_5 | h_6 => contradiction
  all_goals
    exact { h with
      analyzed := by simp only [HistoricalWindow.analyzed, HistoricalWindow.transition]; omega
      logical := by simp only [HistoricalWindow.analyzed, HistoricalWindow.transition]; omega
      null := by simp only [HistoricalWindow.analyzed, HistoricalWindow.transition]; omega }

/-- A found call is in one of the slot-age counters; nothing else changes. -/
theorem HistoricalWindow.Law.slotAged (slot tip : Option Nat) :
    ∃ buckets unknown behind,
      HistoricalWindow.slotAge { w.analyzed with foundCount := w.foundCount + 1 } slot tip =
        { w.analyzed with
          foundCount := w.foundCount + 1
          slotAgeBucketCounts := buckets
          slotAgeUnknownCount := unknown
          slotAgeTipBehindCount := behind } ∧
      w.foundCount + 1 = ∑ i, buckets i + unknown + behind := by
  have hs := h.slotAge
  unfold HistoricalWindow.slotAge
  split
  · split
    · refine ⟨_, _, _, rfl, ?_⟩
      rw [sum_bump]
      simp only [HistoricalWindow.analyzed]
      omega
    · refine ⟨_, _, _, rfl, ?_⟩
      simp only [HistoricalWindow.analyzed]
      omega
  · refine ⟨_, _, _, rfl, ?_⟩
    simp only [HistoricalWindow.analyzed]
    omega

theorem HistoricalWindow.Law.foundSeen (slot tip : Option Nat) (previous : Option Lifecycle)
    (now : Instant) :
    (HistoricalWindow.observed (HistoricalWindow.slotAge
      { w.analyzed with foundCount := w.foundCount + 1 } slot tip) previous true now).Law
      dropped := by
  have ha := h.analyzed
  have hl := h.logical
  have hf := h.found
  have hp := h.polls
  have ht := h.timeToFound
  have hr := h.reuse
  obtain ⟨buckets, unknown, behind, hage, hsum⟩ := h.slotAged slot tip
  rw [hage]
  unfold HistoricalWindow.observed
  split
  case h_1 | h_3 | h_4 => contradiction
  all_goals
    exact { h with
      analyzed := by simp only [HistoricalWindow.analyzed, HistoricalWindow.transition]; omega
      logical := by simp only [HistoricalWindow.analyzed, HistoricalWindow.transition]; omega
      found := by simp only [HistoricalWindow.analyzed, HistoricalWindow.transition]; omega
      slotAge := hsum
      polls := by
        simp only [HistoricalWindow.analyzed, HistoricalWindow.transition, sum_bump]; omega
      timeToFound := by
        simp only [HistoricalWindow.analyzed, HistoricalWindow.transition, sum_bump]; omega
      reuse := by
        simp only [HistoricalWindow.analyzed, HistoricalWindow.transition, sum_bump]; omega }

end law

abbrev Windows := HistoricalCommitment → HistoricalWindow

def Windows.set (ws : Windows) (c : HistoricalCommitment) (w : HistoricalWindow) : Windows :=
  Function.update ws c w

/-- A property of the windows that evictions do not touch. -/
def EvictionStable (P : Windows → Prop) : Prop :=
  ∀ (ws : Windows) c reason entry, P ws → P (ws.set c ((ws c).evicted reason entry))

section stable

variable {P : Windows → Prop} (hP : EvictionStable P) {core : AnalyzerCore}

include hP

theorem EvictionStable.evictOldest (reason : HistoricalStateEvictionReason) (h : P core.windows) :
    P (core.evictOldest reason).windows := by
  unfold AnalyzerCore.evictOldest
  split
  · exact h
  · dsimp only
    split
    · exact h
    · exact hP _ _ _ _ h

theorem EvictionStable.evictOver (h : P core.windows) : P core.evictOver.windows :=
  whileLoop_invariant (fun c : AnalyzerCore => P c.windows)
    (fun _ hc _ => hP.evictOldest .capacity hc) h

theorem EvictionStable.expire (now : Instant) (h : P core.windows) :
    P (core.expire now).windows :=
  whileLoop_invariant (fun c : AnalyzerCore => P c.windows)
    (fun _ hc _ => hP.evictOldest .ttl hc) h

theorem EvictionStable.transition (fingerprint : Fingerprint) (c : HistoricalCommitment)
    (found : Bool) (slot : Option Nat) (now : Instant)
    (h : ∀ previous, P (core.window c (·.observed previous found now)).windows) :
    P (core.transition fingerprint c found slot now).windows := by
  refine hP.evictOver ?_
  have hremove : (core.remove fingerprint).windows = core.windows := by
    unfold AnalyzerCore.remove
    split <;> rfl
  have hstored := h ((core.state.lookup fingerprint).map StateEntry.lifecycle)
  have hobserve := (core.remove fingerprint).observe_windows c
    ((core.state.lookup fingerprint).map StateEntry.lifecycle) found now
  unfold AnalyzerCore.store
  dsimp only
  rw [hobserve]
  simpa only [AnalyzerCore.insert, AnalyzerCore.window, hremove] using hstored

end stable

/-- What a single request does to the window of its commitment, evictions aside. -/
inductive SingleUpdate : (HistoricalWindow → HistoricalWindow) → Prop
  | rpcError : SingleUpdate (fun w => { w.analyzed with rpcErrorCount := w.rpcErrorCount + 1 })
  | parseError :
    SingleUpdate (fun w => { w.analyzed with parseErrorCount := w.parseErrorCount + 1 })
  | null (previous : Option Lifecycle) (now : Instant) :
    SingleUpdate (fun w =>
      HistoricalWindow.observed { w.analyzed with nullCount := w.nullCount + 1 } previous false now)
  | found (slot tip : Option Nat) (previous : Option Lifecycle) (now : Instant) :
    SingleUpdate (fun w => HistoricalWindow.observed (HistoricalWindow.slotAge
      { w.analyzed with foundCount := w.foundCount + 1 } slot tip) previous true now)

theorem EvictionStable.processSingle {P : Windows → Prop} (hP : EvictionStable P)
    {core : AnalyzerCore}
    (h : ∀ c f, SingleUpdate f → P (Windows.set core.windows c (f (core.windows c))))
    (parser : ValueParser) (job : HistoricalJob) : P (core.processSingle parser job).windows := by
  have hparse : ∀ c, P (core.recordError c .parse).windows := fun c => h c _ .parseError
  unfold AnalyzerCore.processSingle
  cases parser.parse job.request with
  | none => exact hparse _
  | some request =>
    dsimp only
    cases core.fingerprint request with
    | none => exact hparse _
    | some fingerprint =>
      dsimp only
      cases parseResponse parser job.status job.response with
      | rpcError => exact h _ _ .rpcError
      | parseError => exact hparse _
      | null =>
        refine hP.transition _ _ _ _ _ (fun previous => ?_)
        rw [AnalyzerCore.window_window]
        exact h _ _ (.null previous job.observedAt)
      | found slot =>
        refine hP.transition _ _ _ _ _ (fun previous => ?_)
        rw [AnalyzerCore.recordSlotAge, AnalyzerCore.window_window, AnalyzerCore.window_window]
        exact h _ _ (.found slot _ previous job.observedAt)

theorem SingleUpdate.law {f : HistoricalWindow → HistoricalWindow} (hf : SingleUpdate f)
    {w : HistoricalWindow} {dropped : Nat} (h : w.Law dropped) : (f w).Law dropped := by
  cases hf with
  | rpcError => exact h.rpcError
  | parseError => exact h.parseError
  | null previous now => exact h.nullSeen previous now
  | found slot tip previous now => exact h.foundSeen slot tip previous now

def Lawful (ws : Windows) : Prop := ∀ c, (ws c).Law 0

theorem Lawful.set {ws : Windows} (h : Lawful ws) (c : HistoricalCommitment)
    {w : HistoricalWindow} (hw : w.Law 0) : Lawful (ws.set c w) := by
  intro c'
  by_cases hc : c' = c
  · subst hc
    simpa [Windows.set] using hw
  · simpa [Windows.set, hc] using h c'

theorem Lawful.stable : EvictionStable Lawful :=
  fun _ c reason entry h => h.set c ((h c).evicted reason entry)

theorem HistoricalWindow.Law.zero : HistoricalWindow.Law {} 0 := by
  constructor <;> simp

theorem Lawful.countUnsupported {core : AnalyzerCore} (h : Lawful core.windows)
    (c : HistoricalCommitment) : Lawful (core.countUnsupported c).windows :=
  h.set c (h c).unsupported

theorem Lawful.foldl_unsupported {α : Type} (commitment : α → HistoricalCommitment) (l : List α)
    {core : AnalyzerCore} (h : Lawful core.windows) :
    Lawful (l.foldl (fun core a => core.countUnsupported (commitment a)) core).windows := by
  induction l generalizing core with
  | nil => exact h
  | cons a rest ih => exact ih (h.countUnsupported (commitment a))

theorem Lawful.process {core : AnalyzerCore} (h : Lawful core.windows) (parser : ValueParser)
    (job : HistoricalJob) : Lawful (core.process parser job).windows := by
  have hexpire := Lawful.stable.expire job.observedAt h
  unfold AnalyzerCore.process
  cases job.cls with
  | none => exact hexpire
  | single =>
    exact Lawful.stable.processSingle (fun c f hf => hexpire.set c (hf.law (hexpire c))) parser job
  | batch eligibleCalls =>
    exact Lawful.foldl_unsupported id _ (Lawful.foldl_unsupported commitmentFromRequest _ hexpire)

theorem Lawful.flush {core : AnalyzerCore} (h : Lawful core.windows) (quality : QualityCounts)
    (endMs configuredCapacity : Nat) :
    Lawful (core.flush quality endMs configuredCapacity).1.windows := by
  intro c
  simp only [AnalyzerCore.flush]
  split
  · exact .zero
  · exact h c

theorem Lawful.takeEvent {core : AnalyzerCore} (h : Lawful core.windows) {quality : QualityCounts}
    {endMs configuredCapacity : Nat} {c : HistoricalCommitment} {event : HistoricalAggregate}
    (he : core.takeEvent quality endMs configuredCapacity c = some event) :
    event.counts.Law (if event.commitment = .unknown then quality .droppedLogical else 0) := by
  have hc := h c
  have hl := hc.logical
  unfold AnalyzerCore.takeEvent at he
  dsimp only at he
  split at he
  · cases he
  · obtain rfl := Option.some.inj he
    by_cases hu : c = .unknown
    · subst hu
      exact { hc with logical := by simp; omega }
    · have hu' : (c == HistoricalCommitment.unknown) = false := by simpa using hu
      simpa [hu, hu'] using hc

/-- What the worker does between two waits. -/
inductive WorkerStep where
  | process (job : HistoricalJob)
  | flush (now : Instant) (quality : QualityCounts) (endMs configuredCapacity : Nat)

def AnalyzerCore.work (core : AnalyzerCore) (parser : ValueParser) :
    WorkerStep → AnalyzerCore × List HistoricalAggregate
  | .process job => (core.process parser job, [])
  | .flush now quality endMs configuredCapacity =>
    (core.expire now).flush quality endMs configuredCapacity

def AnalyzerCore.works (parser : ValueParser) (core : AnalyzerCore) (steps : List WorkerStep) :
    AnalyzerCore :=
  steps.foldl (fun core step => (core.work parser step).1) core

theorem Lawful.works {core : AnalyzerCore} (h : Lawful core.windows) (parser : ValueParser)
    (steps : List WorkerStep) : Lawful (core.works parser steps).windows := by
  induction steps generalizing core with
  | nil => exact h
  | cons step rest ih =>
    refine ih ?_
    cases step with
    | process job => exact h.process parser job
    | flush now quality endMs configuredCapacity =>
      exact (Lawful.stable.expire now h).flush quality endMs configuredCapacity

/-- After any jobs and flushes the identities hold of every window, and of every aggregate
that a further flush emits. -/
theorem historical_window_identities (parser : ValueParser) (capacity ttlSecs : Nat)
    (hash : Json → Fingerprint) (nowMs : Nat) (steps : List WorkerStep) :
    let core := (AnalyzerCore.new capacity ttlSecs hash nowMs).works parser steps
    (∀ c, (core.windows c).Law 0) ∧
    ∀ now quality endMs configuredCapacity,
      ∀ event ∈ (core.work parser (.flush now quality endMs configuredCapacity)).2,
        event.counts.Law (if event.commitment = .unknown then quality .droppedLogical else 0) := by
  intro core
  have hstart : Lawful (AnalyzerCore.new capacity ttlSecs hash nowMs).windows :=
    fun _ => HistoricalWindow.Law.zero
  have hcore : Lawful core.windows := hstart.works parser steps
  refine ⟨hcore, ?_⟩
  intro now quality endMs configuredCapacity event he
  obtain ⟨c, -, hevent⟩ := List.mem_filterMap.mp he
  exact (Lawful.stable.expire now hcore).takeEvent hevent

end RpcPlane
