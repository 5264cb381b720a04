import RpcPlane.Dispatch
import RpcPlane.HistoricalJob
import RpcPlane.KeyedWindows
import RpcPlane.Transaction
import RpcPlane.Transition

/-! The events of the reporter and the aggregator, which collects what is recorded in a
flush window and gives it out as one event for each key. -/

namespace RpcPlane

structure RequestAggregate where
  windowStartMs : Nat
  windowEndMs : Nat
  method : String
  provider : String
  status : String
  count : Nat
  latencyP50Ms : ℚ
  latencyP95Ms : ℚ
  latencyP99Ms : ℚ
  latencyAvgMs : ℚ

structure TransactionSubmit where
  windowStartMs : Nat
  windowEndMs : Nat
  provider : String
  acceptedCount : Nat
  rejectedCount : Nat
  parsedCount : Nat
  unparsedCount : Nat
  unsupportedCount : Nat
  invalidBudgetCount : Nat
  batchUnsupportedCount : Nat
  decodeQueueDropCount : Nat
  feeSampleCount : Nat
  cuLimitP50 : Nat
  cuLimitP90 : Nat
  cuLimitP95 : Nat
  cuPriceMicroLamportsP50 : Nat
  cuPriceMicroLamportsP90 : Nat
  cuPriceMicroLamportsP95 : Nat
  requestedPriorityFeeLamportsP50 : Nat
  requestedPriorityFeeLamportsP90 : Nat
  requestedPriorityFeeLamportsP95 : Nat

inductive TelemetryEvent where
  | requestAggregate (e : RequestAggregate)
  | transactionSubmit (e : TransactionSubmit)
  | historicalGetTransactionAggregate (e : HistoricalAggregate)
  | providerHealth (provider : String) (score : ℚ) (slotHeight : Option Nat) (slotDrift : Nat)
    (circuitState : String)
  | failover (f : Failover)
  | divergence (method : String) (providers : List (String × Nat)) (resolution : String)

structure RequestKey where
  method : String
  provider : String
  status : String
  deriving DecidableEq

structure Bucket where
  count : Nat := 0
  latencies : List ℚ := []

structure TransactionBucket where
  acceptedCount : Nat := 0
  rejectedCount : Nat := 0
  parsedCount : Nat := 0
  unparsedCount : Nat := 0
  unsupportedCount : Nat := 0
  invalidBudgetCount : Nat := 0
  batchUnsupportedCount : Nat := 0
  decodeQueueDropCount : Nat := 0
  cuLimits : List Nat := []
  cuPrices : List Nat := []
  fees : List Nat := []

structure AggState where
  buckets : KeyMap RequestKey Bucket := ∅
  txBuckets : KeyMap String TransactionBucket := ∅
  windowStartMs : Nat

def Bucket.record (b : Bucket) (sample : ℚ × Nat) : Bucket where
  count := b.count + sample.2
  latencies := b.latencies ++ [sample.1]

def TransactionBucket.submission (b : TransactionBucket) (accepted : Bool) : TransactionBucket :=
  if accepted then { b with acceptedCount := b.acceptedCount + 1 }
  else { b with rejectedCount := b.rejectedCount + 1 }

/-- The results of a decode that the aggregator counts. -/
inductive DecodeResult where
  | parsed
  | unparsed
  | unsupported
  | invalidBudget
  | batchUnsupported
  | queueDropped
  deriving DecidableEq

def DecodeResult.all : List DecodeResult :=
  [.parsed, .unparsed, .unsupported, .invalidBudget, .batchUnsupported, .queueDropped]

def DecodeResult.label : DecodeResult → String
  | .parsed => "parsed"
  | .unparsed => "unparsed"
  | .unsupported => "unsupported"
  | .invalidBudget => "invalid_budget"
  | .batchUnsupported => "batch_unsupported"
  | .queueDropped => "queue_dropped"

def DecodeResult.ofLabel (result : String) : Option DecodeResult :=
  DecodeResult.all.find? (·.label == result)

def TransactionBucket.countDecode (b : TransactionBucket) : DecodeResult → TransactionBucket
  | .parsed => { b with parsedCount := b.parsedCount + 1 }
  | .unparsed => { b with unparsedCount := b.unparsedCount + 1 }
  | .unsupported => { b with unsupportedCount := b.unsupportedCount + 1 }
  | .invalidBudget => { b with invalidBudgetCount := b.invalidBudgetCount + 1 }
  | .batchUnsupported => { b with batchUnsupportedCount := b.batchUnsupportedCount + 1 }
  | .queueDropped => { b with decodeQueueDropCount := b.decodeQueueDropCount + 1 }

def TransactionBucket.addSample (b : TransactionBucket) (info : TransactionInfo) :
    TransactionBucket :=
  { b with
    cuLimits := b.cuLimits ++ [info.cuLimit]
    cuPrices := b.cuPrices ++ [info.cuPriceMicroLamports.getD 0]
    fees := b.fees ++ [info.requestedPriorityFeeLamports.getD 0] }

/-- `record_transaction_decode_in_bucket`. -/
def TransactionBucket.decode (b : TransactionBucket) (result : String)
    (sample : Option TransactionInfo) : TransactionBucket :=
  match DecodeResult.ofLabel result with
  | none => b
  | some r =>
    match sample with
    | some info => (b.countDecode r).addSample info
    | none => b.countDecode r

inductive TransactionRecord where
  | submission (accepted : Bool)
  | decode (result : String) (sample : Option TransactionInfo)
  | result (accepted : Bool) (result : String) (sample : Option TransactionInfo)

def TransactionBucket.record (b : TransactionBucket) : TransactionRecord → TransactionBucket
  | .submission accepted => b.submission accepted
  | .decode result sample => b.decode result sample
  | .result accepted result sample => (b.submission accepted).decode result sample

def requestCollector : Collector (ℚ × Nat) Bucket := ⟨{}, .record⟩

def transactionCollector : Collector TransactionRecord TransactionBucket := ⟨{}, .record⟩

def AggState.record (s : AggState) (key : RequestKey) (latencyMs : ℚ) (count : Nat) : AggState :=
  { s with buckets := requestCollector.record s.buckets key (latencyMs, count) }

def AggState.recordTransaction (s : AggState) (provider : String) (call : TransactionRecord) :
    AggState :=
  { s with txBuckets := transactionCollector.record s.txBuckets provider call }

/-- Nearest rank. -/
def percentile (sorted : List ℚ) (p : ℚ) : ℚ :=
  if sorted.isEmpty then 0
  else
    let rank := (p / 100 * sorted.length).ceil.toNat
    sorted.getD (min (rank - 1) (sorted.length - 1)) 0

def percentileU64 (sorted : List Nat) (p : Nat) : Nat :=
  if sorted.isEmpty then 0
  else
    let rank := (p * sorted.length + 99) / 100
    sorted.getD (min (rank - 1) (sorted.length - 1)) 0

def Bucket.event (b : Bucket) (key : RequestKey) (windowStart now : Nat) : RequestAggregate :=
  let latencyAvgMs := b.latencies.sum / b.latencies.length
  let latencies := b.latencies.mergeSort (· ≤ ·)
  { windowStartMs := windowStart
    windowEndMs := now
    method := key.method
    provider := key.provider
    status := key.status
    count := b.count
    latencyP50Ms := percentile latencies 50
    latencyP95Ms := percentile latencies 95
    latencyP99Ms := percentile latencies 99
    latencyAvgMs }

def TransactionBucket.event (b : TransactionBucket) (provider : String) (windowStart now : Nat) :
    TransactionSubmit :=
  let cuLimits := b.cuLimits.mergeSort (· ≤ ·)
  let cuPrices := b.cuPrices.mergeSort (· ≤ ·)
  let fees := b.fees.mergeSort (· ≤ ·)
  { windowStartMs := windowStart
    windowEndMs := now
    provider := provider
    acceptedCount := b.acceptedCount
    rejectedCount := b.rejectedCount
    parsedCount := b.parsedCount
    unparsedCount := b.unparsedCount
    unsupportedCount := b.unsupportedCount
    invalidBudgetCount := b.invalidBudgetCount
    batchUnsupportedCount := b.batchUnsupportedCount
    decodeQueueDropCount := b.decodeQueueDropCount
    feeSampleCount := cuLimits.length
    cuLimitP50 := percentileU64 cuLimits 50
    cuLimitP90 := percentileU64 cuLimits 90
    cuLimitP95 := percentileU64 cuLimits 95
    cuPriceMicroLamportsP50 := percentileU64 cuPrices 50
    cuPriceMicroLamportsP90 := percentileU64 cuPrices 90
    cuPriceMicroLamportsP95 := percentileU64 cuPrices 95
    requestedPriorityFeeLamportsP50 := percentileU64 fees 50
    requestedPriorityFeeLamportsP90 := percentileU64 fees 90
    requestedPriorityFeeLamportsP95 := percentileU64 fees 95 }

/-- The two orders in which the maps of the aggregator give out their entries. -/
structure DrainOrder where
  requests : MapOrder (Entry RequestKey Bucket)
  transactions : MapOrder (Entry String TransactionBucket)

def AggState.requestEntries (s : AggState) (order : DrainOrder) : List (Entry RequestKey Bucket) :=
  (order.requests.order s.buckets.entries).filter (!·.2.latencies.isEmpty)

def AggState.transactionEntries (s : AggState) (order : DrainOrder) :
    List (Entry String TransactionBucket) :=
  order.transactions.order s.txBuckets.entries

/-- `drain`; `now` is read before the lock is taken. -/
def AggState.drain (s : AggState) (now : Nat) (order : DrainOrder) :
    List TelemetryEvent × AggState :=
  ((s.requestEntries order).map
      (fun e => .requestAggregate (e.2.event e.1 s.windowStartMs now)) ++
    (s.transactionEntries order).map
      (fun e => .transactionSubmit (e.2.event e.1 s.windowStartMs now)),
    { windowStartMs := now })

/-- A call under the mutex of the aggregator. -/
inductive AggCall where
  | record (key : RequestKey) (latencyMs : ℚ) (count : Nat)
  | transaction (provider : String) (call : TransactionRecord)
  | drain (now : Nat) (order : DrainOrder)

def AggCall.isDrain : AggCall → Bool
  | .drain _ _ => true
  | _ => false

/-- What one drain gave out, and the window it closed. -/
structure Drained where
  startMs : Nat
  endMs : Nat
  events : List TelemetryEvent

structure Aggregation where
  state : AggState
  drains : List Drained := []

def Aggregation.after (s : Aggregation) : AggCall → Aggregation
  | .record key latencyMs count => { s with state := s.state.record key latencyMs count }
  | .transaction provider call => { s with state := s.state.recordTransaction provider call }
  | .drain now order =>
    let drained := s.state.drain now order
    ⟨drained.2, s.drains ++ [⟨s.state.windowStartMs, now, drained.1⟩]⟩

def aggregation (startMs : Nat) : System Aggregation AggCall where
  init s := s = ⟨{ windowStartMs := startMs }, []⟩
  step s call := some (s.after call)

end RpcPlane
