import RpcPlane.Historical
import RpcPlane.Outcome

/-! What the analyzer does with one finished request, and the aggregates it flushes. -/

namespace RpcPlane

/-- `serde_json::from_slice::<Value>`. What it accepts is the document of the body; it
refuses some documents that a derived struct reads past, such as one nested too deep. -/
structure ValueParser where
  parse : Body → Option Json
  agrees : ∀ b v, parse b = some v → b.json = some v

/-- A parser that refuses no document. -/
def documents : ValueParser := ⟨Body.json, fun _ _ h => h⟩

/-! A `Value` keeps the last of several members with one key. -/

def Json.valueGet (key : String) : Json → Option Json
  | .obj members => (members.reverse.find? (·.1.text == key)).map Prod.snd
  | _ => none

def Json.asStr : Json → Option String
  | .str s => some s.text
  | _ => none

def Json.asArray : Json → Option (List Json)
  | .arr items => some items
  | _ => none

def Json.asU64 : Json → Option Nat
  | .num (.integer n) => if 0 ≤ n ∧ n < 2 ^ 64 then some n.toNat else none
  | _ => none

inductive ParsedOutcome where
  | found (slot : Option Nat)
  | null
  | rpcError
  | parseError

def parseResponse (parser : ValueParser) (status : Nat) (response : Body) : ParsedOutcome :=
  if !isSuccess status then .rpcError
  else
    match parser.parse response with
    | none => .parseError
    | some value =>
      if !value.isObject then .parseError
      else if (value.valueGet "error").any (!·.isNull) then .rpcError
      else
        match value.valueGet "result" with
        | some result =>
          if result.isNull then .null else .found ((result.valueGet "slot").bind Json.asU64)
        | none => .parseError

def commitmentFromRequest (request : Json) : HistoricalCommitment :=
  let value := do
    let params ← request.valueGet "params"
    let params ← params.asArray
    let config ← params[1]?
    let commitment ← config.valueGet "commitment"
    commitment.asStr
  match value with
  | some "processed" => .processed
  | some "confirmed" => .confirmed
  | some "finalized" => .finalized
  | _ => .unknown

def isGetTransaction (call : Json) : Bool :=
  (call.valueGet "method").bind Json.asStr == some "getTransaction"

structure HistoricalJob where
  request : Body
  response : Body
  status : Nat
  observedAt : Instant
  tips : CommitmentSlots
  cls : HistoricalRequestClass

def historicalTip (tips : CommitmentSlots) : HistoricalCommitment → Option Nat
  | .processed => tips.processed
  | .confirmed => tips.confirmed
  | .finalized => tips.finalized
  | .unknown => none

def AnalyzerCore.fingerprint (core : AnalyzerCore) (request : Json) : Option Fingerprint :=
  if !isGetTransaction request then none
  else do
    let params ← request.valueGet "params"
    let items ← params.asArray
    let first ← items.head?
    let _ ← first.asStr
    some (core.hash params)

def HistoricalWindow.analyzed (w : HistoricalWindow) : HistoricalWindow :=
  { w with
    logicalRequestCount := w.logicalRequestCount + 1
    analyzedRequestCount := w.analyzedRequestCount + 1 }

def AnalyzerCore.recordError (core : AnalyzerCore) (commitment : HistoricalCommitment)
    (kind : HistoricalErrorKind) : AnalyzerCore :=
  core.window commitment (fun w =>
    match kind with
    | .rpc => { w.analyzed with rpcErrorCount := w.rpcErrorCount + 1 }
    | .parse => { w.analyzed with parseErrorCount := w.parseErrorCount + 1 })

def HistoricalWindow.slotAge (w : HistoricalWindow) (returnedSlot tip : Option Nat) :
    HistoricalWindow :=
  match returnedSlot, tip with
  | some slot, some tip =>
    if slot ≤ tip then
      { w with slotAgeBucketCounts := bump w.slotAgeBucketCounts (slotAgeBucket (tip - slot)) }
    else { w with slotAgeTipBehindCount := w.slotAgeTipBehindCount + 1 }
  | _, _ => { w with slotAgeUnknownCount := w.slotAgeUnknownCount + 1 }

def AnalyzerCore.recordSlotAge (core : AnalyzerCore) (commitment : HistoricalCommitment)
    (returnedSlot : Option Nat) (tips : CommitmentSlots) : AnalyzerCore :=
  core.window commitment (·.slotAge returnedSlot (historicalTip tips commitment))

def AnalyzerCore.processSingle (core : AnalyzerCore) (parser : ValueParser) (job : HistoricalJob) :
    AnalyzerCore :=
  match parser.parse job.request with
  | none => core.recordError .unknown .parse
  | some request =>
    let commitment := commitmentFromRequest request
    match core.fingerprint request with
    | none => core.recordError commitment .parse
    | some fingerprint =>
      match parseResponse parser job.status job.response with
      | .rpcError => core.recordError commitment .rpc
      | .parseError => core.recordError commitment .parse
      | .null =>
        (core.window commitment (fun w => { w.analyzed with nullCount := w.nullCount + 1 })).transition
          fingerprint commitment false none job.observedAt
      | .found slot =>
        ((core.window commitment (fun w =>
            { w.analyzed with foundCount := w.foundCount + 1 })).recordSlotAge
          commitment slot job.tips).transition fingerprint commitment true slot job.observedAt

def AnalyzerCore.countUnsupported (core : AnalyzerCore) (commitment : HistoricalCommitment) :
    AnalyzerCore :=
  core.window commitment (fun w =>
    { w with
      logicalRequestCount := w.logicalRequestCount + 1
      unsupportedBatchCount := w.unsupportedBatchCount + 1 })

/-- The `getTransaction` calls of a batch, as a `Value` shows them. -/
def batchCalls (parser : ValueParser) (request : Body) : List Json :=
  match parser.parse request with
  | some (.arr calls) => calls.filter isGetTransaction
  | _ => []

def AnalyzerCore.processBatch (core : AnalyzerCore) (parser : ValueParser) (request : Body)
    (eligibleCalls : Nat) : AnalyzerCore :=
  let calls := batchCalls parser request
  let core := calls.foldl (fun core call => core.countUnsupported (commitmentFromRequest call)) core
  (List.replicate (eligibleCalls - calls.length) HistoricalCommitment.unknown).foldl
    countUnsupported core

def AnalyzerCore.process (core : AnalyzerCore) (parser : ValueParser) (job : HistoricalJob) :
    AnalyzerCore :=
  let core := core.expire job.observedAt
  match job.cls with
  | .none => core
  | .single => core.processSingle parser job
  | .batch eligibleCalls => core.processBatch parser job.request eligibleCalls

inductive QualityCounter where
  | droppedLogical
  | queueFull
  | byteBudget
  | oversized
  | resets
  deriving DecidableEq

/-- In the order in which `flush` swaps them. -/
def QualityCounter.all : List QualityCounter :=
  [.droppedLogical, .queueFull, .byteBudget, .oversized, .resets]

abbrev QualityCounts := QualityCounter → Nat

def QualityCounts.present (q : QualityCounts) : Bool := decide (0 < (QualityCounter.all.map q).sum)

/-- The event `HistoricalGetTransactionAggregate`; `counts` are its fields taken from the
window. -/
structure HistoricalAggregate where
  schemaVersion : Nat := 1
  windowStartMs : Nat
  windowEndMs : Nat
  commitment : HistoricalCommitment
  counts : HistoricalWindow
  queueFullDropCount : Nat
  byteBudgetExhaustedDropCount : Nat
  oversizedJobDropCount : Nat
  stateResetCount : Nat
  currentStateEntries : Nat
  configuredStateCapacity : Nat

/-- The turn of `flush` for one window: nothing, or the event and the window it leaves. -/
def AnalyzerCore.takeEvent (core : AnalyzerCore) (quality : QualityCounts) (endMs : Nat)
    (configuredCapacity : Nat) (commitment : HistoricalCommitment) : Option HistoricalAggregate :=
  let window := core.windows commitment
  let isUnknown := commitment == .unknown
  if window.isEmpty && !(isUnknown && QualityCounts.present quality) then none
  else
    let window :=
      if isUnknown then
        { window with logicalRequestCount := window.logicalRequestCount + quality .droppedLogical }
      else window
    some
      { windowStartMs := core.windowStartMs
        windowEndMs := endMs
        commitment := commitment
        counts := window
        queueFullDropCount := if isUnknown then quality .queueFull else 0
        byteBudgetExhaustedDropCount := if isUnknown then quality .byteBudget else 0
        oversizedJobDropCount := if isUnknown then quality .oversized else 0
        stateResetCount := if isUnknown then quality .resets else 0
        currentStateEntries := core.state.keys.length
        configuredStateCapacity := configuredCapacity }

/-- `flush` from the swaps of the counters on. The windows do not share anything, so the
turns of the loop are independent. -/
def AnalyzerCore.flush (core : AnalyzerCore) (quality : QualityCounts) (endMs : Nat)
    (configuredCapacity : Nat) : AnalyzerCore × List HistoricalAggregate :=
  ({ core with
      windows := fun c =>
        if (core.takeEvent quality endMs configuredCapacity c).isSome then {} else core.windows c
      windowStartMs := endMs },
    HistoricalCommitment.all.filterMap (core.takeEvent quality endMs configuredCapacity))

end RpcPlane
