import RpcPlane.AgeIndex
import RpcPlane.Classify
import RpcPlane.Circuit
import RpcPlane.WhileLoop

/-! `AnalyzerCore`: the life of each `getTransaction` lookup, a bounded map of the lookups
seen, and the counters of the current window. Instants are in nanoseconds, counters are
naturals. -/

namespace RpcPlane

inductive HistoricalCommitment where
  | processed
  | confirmed
  | finalized
  | unknown
  deriving DecidableEq, Repr

/-- In the order of `commitment_index`. -/
def HistoricalCommitment.all : List HistoricalCommitment :=
  [.processed, .confirmed, .finalized, .unknown]

inductive HistoricalErrorKind where
  | rpc
  | parse

inductive HistoricalTransition where
  | firstObservationFound
  | firstObservationNull
  | nullRepeat
  | nullToFound
  | foundRepeat
  | foundToNullRegression

inductive HistoricalStateEvictionReason where
  | capacity
  | ttl

def HistoricalRequestClass.eligibleCalls : HistoricalRequestClass → Nat
  | .none => 0
  | .single => 1
  | .batch eligibleCalls => eligibleCalls

abbrev Fingerprint := Nat ×ₗ Nat

inductive Lifecycle where
  | nullSeen (firstNullAt : Instant) (nullPollCount : Nat)
  | found (lastFoundAt : Instant)
  deriving DecidableEq

structure StateEntry where
  lifecycle : Lifecycle
  commitment : HistoricalCommitment
  lastSeenAt : Instant
  deriving DecidableEq

/-! The buckets of the four histograms. -/

def slotAgeUppers : List Nat := [149, 749, 8999, 53999, 215999, 431999, 2159999, 4319999]

def slotAgeBucket (age : Nat) : Fin 9 :=
  ⟨slotAgeUppers.findIdx (age ≤ ·), Nat.lt_succ_of_le List.findIdx_le_length⟩

def pollsBucket (polls : Nat) : Fin 6 :=
  if polls = 0 then 0
  else if polls = 1 then 1
  else if polls = 2 then 2
  else if polls ≤ 5 then 3
  else if polls ≤ 10 then 4
  else 5

def durationBucket (duration : Nat) (upperExclusiveSecs : List Nat) :
    Fin (upperExclusiveSecs.length + 1) :=
  ⟨upperExclusiveSecs.findIdx (duration < fromSecs ·), Nat.lt_succ_of_le List.findIdx_le_length⟩

def bump {n : Nat} (counts : Fin n → Nat) (i : Fin n) : Fin n → Nat :=
  Function.update counts i (counts i + 1)

structure HistoricalWindow where
  logicalRequestCount : Nat := 0
  analyzedRequestCount : Nat := 0
  foundCount : Nat := 0
  nullCount : Nat := 0
  rpcErrorCount : Nat := 0
  parseErrorCount : Nat := 0
  firstObservationFoundCount : Nat := 0
  firstObservationNullCount : Nat := 0
  nullRepeatCount : Nat := 0
  nullToFoundCount : Nat := 0
  foundRepeatCount : Nat := 0
  foundToNullRegressionCount : Nat := 0
  slotAgeBucketCounts : Fin 9 → Nat := fun _ => 0
  slotAgeUnknownCount : Nat := 0
  slotAgeTipBehindCount : Nat := 0
  pollsBeforeFoundBucketCounts : Fin 6 → Nat := fun _ => 0
  timeToFoundBucketCounts : Fin 6 → Nat := fun _ => 0
  foundReuseBucketCounts : Fin 5 → Nat := fun _ => 0
  unsupportedBatchCount : Nat := 0
  stateCapacityEvictionCount : Nat := 0
  stateTtlExpirationCount : Nat := 0
  unresolvedNullCapacityEvictionCount : Nat := 0
  unresolvedNullTtlExpirationCount : Nat := 0

def HistoricalWindow.isEmpty (w : HistoricalWindow) : Bool :=
  w.logicalRequestCount == 0 && w.stateCapacityEvictionCount == 0 && w.stateTtlExpirationCount == 0

/-- `hash` is what the two keyed hashers make of the `params` of a call. -/
structure AnalyzerCore where
  state : KeyMap Fingerprint StateEntry := ∅
  lru : Finset (Instant ×ₗ Fingerprint) := ∅
  capacity : Nat
  ttl : Nat
  hash : Json → Fingerprint
  windows : HistoricalCommitment → HistoricalWindow := fun _ => {}
  windowStartMs : Nat

def AnalyzerCore.new (capacity ttlSecs : Nat) (hash : Json → Fingerprint) (nowMs : Nat) :
    AnalyzerCore where
  capacity := capacity
  ttl := fromSecs ttlSecs
  hash := hash
  windowStartMs := nowMs

/-- What is done to `self.window(commitment)`. -/
def AnalyzerCore.window (core : AnalyzerCore) (commitment : HistoricalCommitment)
    (f : HistoricalWindow → HistoricalWindow) : AnalyzerCore :=
  { core with windows := Function.update core.windows commitment (f (core.windows commitment)) }

def HistoricalWindow.transition (w : HistoricalWindow) : HistoricalTransition → HistoricalWindow
  | .firstObservationFound =>
    { w with firstObservationFoundCount := w.firstObservationFoundCount + 1 }
  | .firstObservationNull =>
    { w with firstObservationNullCount := w.firstObservationNullCount + 1 }
  | .nullRepeat => { w with nullRepeatCount := w.nullRepeatCount + 1 }
  | .nullToFound => { w with nullToFoundCount := w.nullToFoundCount + 1 }
  | .foundRepeat => { w with foundRepeatCount := w.foundRepeatCount + 1 }
  | .foundToNullRegression =>
    { w with foundToNullRegressionCount := w.foundToNullRegressionCount + 1 }

def AnalyzerCore.recordTransition (core : AnalyzerCore) (commitment : HistoricalCommitment)
    (transition : HistoricalTransition) : AnalyzerCore :=
  core.window commitment (·.transition transition)

def HistoricalWindow.evicted (w : HistoricalWindow) (reason : HistoricalStateEvictionReason) (entry : StateEntry) :
    HistoricalWindow :=
  match reason, entry.lifecycle with
  | .capacity, .nullSeen _ _ =>
    { w with
      stateCapacityEvictionCount := w.stateCapacityEvictionCount + 1
      unresolvedNullCapacityEvictionCount := w.unresolvedNullCapacityEvictionCount + 1 }
  | .capacity, .found _ => { w with stateCapacityEvictionCount := w.stateCapacityEvictionCount + 1 }
  | .ttl, .nullSeen _ _ =>
    { w with
      stateTtlExpirationCount := w.stateTtlExpirationCount + 1
      unresolvedNullTtlExpirationCount := w.unresolvedNullTtlExpirationCount + 1 }
  | .ttl, .found _ => { w with stateTtlExpirationCount := w.stateTtlExpirationCount + 1 }

def AnalyzerCore.evictOldest (core : AnalyzerCore) (reason : HistoricalStateEvictionReason) :
    AnalyzerCore :=
  match first? core.lru with
  | none => core
  | some oldest =>
    let core := { core with lru := core.lru.erase oldest }
    match core.state.lookup (ofLex oldest).2 with
    | none => core
    | some entry =>
      { core with state := core.state.erase (ofLex oldest).2 }.window entry.commitment
        (·.evicted reason entry)

def AnalyzerCore.overCapacity (core : AnalyzerCore) : Bool :=
  decide (core.capacity < core.state.keys.length)

/-- The loop that ends `transition`. Each turn pops a pair of `lru`, so its size is fuel
for every turn that can still change anything. -/
def AnalyzerCore.evictOver (core : AnalyzerCore) : AnalyzerCore :=
  whileLoop overCapacity (evictOldest · .capacity) core.lru.card core

def AnalyzerCore.oldestExpired (now : Instant) (core : AnalyzerCore) : Bool :=
  match first? core.lru with
  | none => false
  | some oldest => !decide (now - (ofLex oldest).1 < core.ttl)

def AnalyzerCore.expire (core : AnalyzerCore) (now : Instant) : AnalyzerCore :=
  whileLoop (oldestExpired now) (evictOldest · .ttl) core.lru.card core

def AnalyzerCore.remove (core : AnalyzerCore) (fingerprint : Fingerprint) : AnalyzerCore :=
  match core.state.lookup fingerprint with
  | none => core
  | some entry =>
    { core with
      state := core.state.erase fingerprint
      lru := core.lru.erase (toLex (entry.lastSeenAt, fingerprint)) }

def saturatingSucc (n : Nat) : Nat := min (n + 1) (2 ^ 64 - 1)

/-- The match of `transition`: what it counts, and the lifecycle it stores. -/
def AnalyzerCore.observe (core : AnalyzerCore) (commitment : HistoricalCommitment)
    (previous : Option Lifecycle) (found : Bool) (now : Instant) : AnalyzerCore × Lifecycle :=
  match previous, found with
  | none, false =>
    (core.recordTransition commitment .firstObservationNull, .nullSeen now 1)
  | none, true =>
    ((core.recordTransition commitment .firstObservationFound).window commitment (fun w =>
      { w with pollsBeforeFoundBucketCounts := bump w.pollsBeforeFoundBucketCounts 0 }),
      .found now)
  | some (.nullSeen firstNullAt nullPollCount), false =>
    (core.recordTransition commitment .nullRepeat,
      .nullSeen firstNullAt (saturatingSucc nullPollCount))
  | some (.found lastFoundAt), false =>
    (core.recordTransition commitment .foundToNullRegression, .found lastFoundAt)
  | some (.nullSeen firstNullAt nullPollCount), true =>
    ((core.recordTransition commitment .nullToFound).window commitment (fun w =>
      { w with
        pollsBeforeFoundBucketCounts :=
          bump w.pollsBeforeFoundBucketCounts (pollsBucket nullPollCount)
        timeToFoundBucketCounts := bump w.timeToFoundBucketCounts
          (durationBucket (now - firstNullAt) [1, 2, 5, 15, 60]) }),
      .found now)
  | some (.found lastFoundAt), true =>
    ((core.recordTransition commitment .foundRepeat).window commitment (fun w =>
      { w with
        foundReuseBucketCounts := bump w.foundReuseBucketCounts
          (durationBucket (now - lastFoundAt) [300, 3600, 86400, 172800]) }),
      .found now)

def AnalyzerCore.insert (core : AnalyzerCore) (fingerprint : Fingerprint) (entry : StateEntry) :
    AnalyzerCore :=
  { core with
    state := core.state.insert fingerprint entry
    lru := Insert.insert (toLex (entry.lastSeenAt, fingerprint)) core.lru }

def AnalyzerCore.store (core : AnalyzerCore) (fingerprint : Fingerprint)
    (commitment : HistoricalCommitment) (found : Bool) (now : Instant) : AnalyzerCore :=
  let previous := (core.state.lookup fingerprint).map StateEntry.lifecycle
  let observed := (core.remove fingerprint).observe commitment previous found now
  observed.1.insert fingerprint ⟨observed.2, commitment, now⟩

def AnalyzerCore.transition (core : AnalyzerCore) (fingerprint : Fingerprint)
    (commitment : HistoricalCommitment) (found : Bool) (_slot : Option Nat) (now : Instant) :
    AnalyzerCore :=
  (core.store fingerprint commitment found now).evictOver

end RpcPlane
