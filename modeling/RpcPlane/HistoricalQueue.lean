import RpcPlane.HistoricalJob
import RpcPlane.Transition

/-! `HistoricalAnalytics` and its worker: `finish` calls that run at the same time, the
bounded queue between them and the worker, the byte budget and the quality counters. Each
operation on something shared is a step of its own. -/

namespace RpcPlane

inductive HistoricalAnalyzerDropReason where
  | queueFull
  | byteBudgetExhausted
  | oversizedJob
  deriving DecidableEq

def HistoricalAnalyzerDropReason.counter : HistoricalAnalyzerDropReason → QualityCounter
  | .queueFull => .queueFull
  | .byteBudgetExhausted => .byteBudget
  | .oversizedJob => .oversized

def queueByteUnit : Nat := 4096

/-- The arguments of `finish`. -/
structure HistoricalCall where
  cls : HistoricalRequestClass
  request : Body
  response : Body
  status : Nat
  tips : CommitmentSlots

/-- A batch class is the one that `classify_request` made of this request. -/
def HistoricalCall.Counted (call : HistoricalCall) (fullHistoryMethods : List String) : Prop :=
  match call.cls with
  | .batch _ => (classifyRequest call.request fullHistoryMethods).map (·.historical) = some call.cls
  | _ => True

instance (call : HistoricalCall) (fullHistoryMethods : List String) :
    Decidable (call.Counted fullHistoryMethods) := by
  unfold HistoricalCall.Counted
  split <;> infer_instance

def HistoricalCall.jobBytes (call : HistoricalCall) : Nat :=
  call.request.bytes.length + call.response.bytes.length

def jobUnits (jobBytes : Nat) : Nat := max ((jobBytes + (queueByteUnit - 1)) / queueByteUnit) 1

/-- `finish` up to the semaphore: the units to acquire, or why the job is dropped. -/
def HistoricalCall.admit (config : HistoricalAnalyticsConfig) (call : HistoricalCall) :
    Except HistoricalAnalyzerDropReason Nat :=
  -- `checked_add` in 64 bits
  if 2 ^ 64 ≤ call.jobBytes then .error .oversizedJob
  else if config.maxJobBytes < call.jobBytes then .error .oversizedJob
  else if 2 ^ 32 ≤ jobUnits call.jobBytes then .error .byteBudgetExhausted
  else .ok (jobUnits call.jobBytes)

def HistoricalCall.job (call : HistoricalCall) (now : Instant) : HistoricalJob where
  request := call.request
  response := call.response
  status := call.status
  observedAt := now
  tips := call.tips
  cls := call.cls

/-- A job with its permit. -/
structure QueuedJob where
  job : HistoricalJob
  units : Nat

inductive Message where
  | analyze (job : QueuedJob)
  | flush

/-- Where a `finish` call stands. -/
inductive FinishPhase where
  | admitted (call : HistoricalCall) (units : Nat)
  | acquired (job : QueuedJob)
  /-- `try_send` gave the job back -/
  | refused (job : QueuedJob)
  | dropping (reason : HistoricalAnalyzerDropReason) (logical : Nat)
  | counted (reason : HistoricalAnalyzerDropReason)
  | returned

inductive Worker where
  | idle
  | processing (job : QueuedJob)
  | flushing (remaining : List QualityCounter) (taken : QualityCounts) (endMs : Nat)

structure Analytics where
  queue : List Message := []
  /-- slots of the channel given to waiting `flush` calls -/
  reserved : Nat := 0
  permits : Nat
  quality : QualityCounts
  finishing : List FinishPhase := []
  worker : Worker := .idle
  core : AnalyzerCore
  emitted : List HistoricalAggregate := []

inductive AnalyticsEvent where
  | finish (call : HistoricalCall) (fullHistoryMethods : List String)
  | acquire (i : Nat) (now : Instant)
  | send (i : Nat)
  | release (i : Nat)
  | countLogical (i : Nat)
  | countReason (i : Nat)
  | reserveFlush
  | sendFlush
  | receive (now : Instant) (endMs : Nat)
  | process
  /-- the interval, or the last flush when the channel has closed -/
  | tick (now : Instant) (endMs : Nat)
  | swap
  | emit

def Analytics.start (config : HistoricalAnalyticsConfig) (hash : Json → Fingerprint)
    (nowMs : Nat) : Analytics where
  permits := max (config.maxQueuedBytes / queueByteUnit) 1
  quality := fun k => if k = .resets then 1 else 0
  core := .new config.stateCapacity config.stateTtlSecs hash nowMs

def Analytics.hasSlot (config : HistoricalAnalyticsConfig) (s : Analytics) : Bool :=
  decide (s.queue.length + s.reserved < config.queueCapacity)

def Analytics.setPhase (s : Analytics) (i : Nat) (phase : FinishPhase) : Analytics :=
  { s with finishing := s.finishing.set i phase }

def Analytics.fetchAdd (s : Analytics) (k : QualityCounter) (n : Nat) : Analytics :=
  { s with quality := Function.update s.quality k (s.quality k + n) }

def FinishPhase.entered (config : HistoricalAnalyticsConfig) (call : HistoricalCall) : FinishPhase :=
  if call.cls.eligibleCalls = 0 then .returned
  else
    match call.admit config with
    | .error reason => .dropping reason call.cls.eligibleCalls
    | .ok units => .admitted call units

def Analytics.startFlush (s : Analytics) (now : Instant) (endMs : Nat) : Analytics :=
  { s with
    core := s.core.expire now
    worker := .flushing QualityCounter.all (fun _ => 0) endMs }

def Analytics.step (config : HistoricalAnalyticsConfig) (parser : ValueParser) (s : Analytics) :
    AnalyticsEvent → Option Analytics
  | .finish call fullHistoryMethods =>
    if call.Counted fullHistoryMethods then
      some { s with finishing := s.finishing ++ [.entered config call] }
    else none
  | .acquire i now =>
    match s.finishing[i]? with
    | some (.admitted call units) =>
      if units ≤ s.permits then
        some ({ s with permits := s.permits - units }.setPhase i (.acquired ⟨call.job now, units⟩))
      else some (s.setPhase i (.dropping .byteBudgetExhausted call.cls.eligibleCalls))
    | _ => none
  | .send i =>
    match s.finishing[i]? with
    | some (.acquired job) =>
      if s.hasSlot config then
        some ({ s with queue := s.queue ++ [Message.analyze job] }.setPhase i .returned)
      else some (s.setPhase i (.refused job))
    | _ => none
  | .release i =>
    match s.finishing[i]? with
    | some (.refused job) =>
      some ({ s with permits := s.permits + job.units }.setPhase i
        (.dropping .queueFull job.job.cls.eligibleCalls))
    | _ => none
  | .countLogical i =>
    match s.finishing[i]? with
    | some (.dropping reason logical) =>
      some ((s.fetchAdd .droppedLogical logical).setPhase i (.counted reason))
    | _ => none
  | .countReason i =>
    match s.finishing[i]? with
    | some (.counted reason) =>
      some ((s.fetchAdd reason.counter 1).setPhase i .returned)
    | _ => none
  | .reserveFlush => if s.hasSlot config then some { s with reserved := s.reserved + 1 } else none
  | .sendFlush =>
    if 0 < s.reserved then
      some { s with reserved := s.reserved - 1, queue := s.queue ++ [Message.flush] }
    else none
  | .receive now endMs =>
    match s.worker, s.queue with
    | .idle, Message.analyze job :: rest => some { s with queue := rest, worker := .processing job }
    | .idle, Message.flush :: rest => some ({ s with queue := rest }.startFlush now endMs)
    | _, _ => none
  | .process =>
    match s.worker with
    | .processing job =>
      some { s with
        core := s.core.process parser job.job
        permits := s.permits + job.units
        worker := .idle }
    | _ => none
  | .tick now endMs =>
    match s.worker with
    | .idle => some (s.startFlush now endMs)
    | _ => none
  | .swap =>
    match s.worker with
    | .flushing (k :: rest) taken endMs =>
      some { s with
        quality := Function.update s.quality k 0
        worker := .flushing rest (Function.update taken k (s.quality k)) endMs }
    | _ => none
  | .emit =>
    match s.worker with
    | .flushing [] taken endMs =>
      let flushed := s.core.flush taken endMs config.stateCapacity
      some { s with core := flushed.1, emitted := s.emitted ++ flushed.2, worker := .idle }
    | _ => none

def analytics (config : HistoricalAnalyticsConfig) (parser : ValueParser)
    (hash : Json → Fingerprint) (nowMs : Nat) : System Analytics AnalyticsEvent where
  init s := s = .start config hash nowMs
  step := Analytics.step config parser

/-! What a run offers and drops, read off its labels and the states they meet. -/

def AnalyticsEvent.eligibleCalls : AnalyticsEvent → Nat
  | .finish call _ => call.cls.eligibleCalls
  | _ => 0

def offered (events : List AnalyticsEvent) : Nat :=
  (events.map AnalyticsEvent.eligibleCalls).sum

/-- Why a step drops a job, when it does. -/
def Analytics.drops (config : HistoricalAnalyticsConfig) (s : Analytics) :
    AnalyticsEvent → Option HistoricalAnalyzerDropReason
  | .finish call _ =>
    match FinishPhase.entered config call with
    | .dropping reason _ => some reason
    | _ => none
  | .acquire i _ =>
    match s.finishing[i]? with
    | some (.admitted _ units) => if units ≤ s.permits then none else some .byteBudgetExhausted
    | _ => none
  | .send i =>
    match s.finishing[i]? with
    | some (.acquired _) => if s.hasSlot config then none else some .queueFull
    | _ => none
  | _ => none

end RpcPlane
