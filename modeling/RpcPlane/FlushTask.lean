import RpcPlane.AggregatorLaw

/-! `RemoteReporter` and its `flush_task`. Emits, records and `flush_and_wait` calls come at
any moment; each operation of the task on something shared is a step of its own, and a POST
is in flight between `send_batch` taking the batch and its return. -/

namespace RpcPlane

/-- Why the task does what it does: a branch of its select, or the end of its loop. -/
inductive Branch where
  | received
  | tick
  | flush
  | final
  deriving DecidableEq

inductive FlushPhase where
  | idle
  /-- about to drain the aggregator -/
  | collecting (b : Branch)
  /-- in the loop of `try_recv` -/
  | receiving (b : Branch)
  | sending (b : Branch)
  /-- about to take the waiters -/
  | waking (b : Branch)
  | ended
  deriving DecidableEq

/-- A batch entry with the side it came in from, which only proofs read. -/
inductive BatchItem where
  | channel (event : TelemetryEvent)
  | aggregator (event : TelemetryEvent)

def BatchItem.ofChannel : BatchItem → Option TelemetryEvent
  | .channel event => some event
  | .aggregator _ => none

def BatchItem.ofAggregator : BatchItem → Option TelemetryEvent
  | .channel _ => none
  | .aggregator event => some event

/-- A `flush_and_wait` call, with how many records and accepted events came before it. -/
structure Waiter where
  id : Nat
  records : Nat
  accepted : Nat
  deriving DecidableEq

structure Flusher where
  queue : List TelemetryEvent := []
  /-- every sender is dropped, and with them the reporter -/
  closed : Bool := false
  aggregation : Aggregation
  /-- the permit that `notify_one` stores -/
  permit : Bool := false
  waiters : List Waiter := []
  phase : FlushPhase := .idle
  batch : List BatchItem := []
  /-- the batches given to `send_batch`, and how many of those calls have returned -/
  handed : List (List BatchItem) := []
  returned : Nat := 0
  completed : List Waiter := []
  /-- history: the events the channel accepted, and for each record the number of drains
  before it, so that the next drain gives it out -/
  accepted : List TelemetryEvent := []
  recordedIn : List Nat := []

inductive FlusherEvent where
  | emit (event : TelemetryEvent)
  | record (key : RequestKey) (latencyMs : ℚ) (count : Nat)
  | recordTransaction (provider : String) (call : TransactionRecord)
  /-- `notify_one`, by `flush` or by a `flush_and_wait` that has registered -/
  | notify
  /-- the first half of `flush_and_wait` -/
  | register (id : Nat)
  | close
  | receive
  | disconnected
  | tick
  | notified
  | drain (now : Nat) (order : DrainOrder)
  | tryRecv
  | posted (success : Bool)
  | wake

def Flusher.start (startMs : Nat) : Flusher where
  aggregation := ⟨{ windowStartMs := startMs }, []⟩

/-- `send_batch` up to its POST. -/
def Flusher.hand (s : Flusher) (b : Branch) : Flusher :=
  { s with handed := s.handed ++ [s.batch], batch := [], phase := .sending b }

def Branch.afterSend : Branch → FlushPhase
  | .received => .idle
  | .tick => .idle
  | .flush => .waking .flush
  | .final => .waking .final

def Flusher.recorded (s : Flusher) (call : AggCall) : Flusher :=
  { s with
    aggregation := s.aggregation.after call
    recordedIn := s.recordedIn ++ [s.aggregation.drains.length] }

def Flusher.step (config : ReportingConfig) (s : Flusher) : FlusherEvent → Option Flusher
  | .emit event =>
    if s.closed then none
    -- `try_send` drops the event when the buffer is full
    else if s.queue.length < config.bufferSize then
      some { s with queue := s.queue ++ [event], accepted := s.accepted ++ [event] }
    else some s
  | .record key latencyMs count =>
    if s.closed then none else some (s.recorded (.record key latencyMs count))
  | .recordTransaction provider call =>
    if s.closed then none else some (s.recorded (.transaction provider call))
  | .notify => if s.closed then none else some { s with permit := true }
  | .register id =>
    if s.closed then none
    else some { s with waiters := s.waiters ++ [⟨id, s.recordedIn.length, s.accepted.length⟩] }
  | .close => some { s with closed := true }
  | .receive =>
    match s.phase, s.queue with
    | .idle, event :: rest =>
      let s := { s with queue := rest, batch := s.batch ++ [.channel event] }
      if config.batchSize ≤ s.batch.length then some (s.hand .received) else some s
    | _, _ => none
  | .disconnected =>
    match s.phase, s.queue with
    | .idle, [] => if s.closed then some { s with phase := .collecting .final } else none
    | _, _ => none
  | .tick => if s.phase = .idle then some { s with phase := .collecting .tick } else none
  | .notified =>
    if s.phase = .idle ∧ s.permit = true then
      some { s with permit := false, phase := .collecting .flush }
    else none
  | .drain now order =>
    match s.phase with
    | .collecting b =>
      some { s with
        batch := s.batch ++ (s.aggregation.state.drain now order).1.map .aggregator
        aggregation := s.aggregation.after (.drain now order)
        phase := .receiving b }
    | _ => none
  | .tryRecv =>
    match s.phase with
    | .receiving b =>
      match s.queue with
      | event :: rest => some { s with queue := rest, batch := s.batch ++ [.channel event] }
      | [] => if s.batch.isEmpty then some { s with phase := b.afterSend } else some (s.hand b)
    | _ => none
  | .posted _ =>
    match s.phase with
    | .sending b => some { s with returned := s.returned + 1, phase := b.afterSend }
    | _ => none
  | .wake =>
    match s.phase with
    | .waking b =>
      some { s with
        completed := s.completed ++ s.waiters
        waiters := []
        phase := if b = .final then .ended else .idle }
    | _ => none

def flushTask (config : ReportingConfig) (startMs : Nat) : System Flusher FlusherEvent where
  init s := s = .start startMs
  step := Flusher.step config

end RpcPlane
