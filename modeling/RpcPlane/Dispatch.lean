import RpcPlane.Classify
import RpcPlane.Outcome
import RpcPlane.Tips

/-! What the sequential and the broadcast path share: the request, the answers of the
providers, the reply, and the calls a dispatch makes on the way to it. -/

namespace RpcPlane

structure HttpResponse where
  status : StatusCode
  body : Body

structure Leg where
  result : Except String HttpResponse
  latencyMs : ℚ := 0

structure RequestCtx where
  method : String
  body : Body
  count : Nat
  historyLookup : Bool
  transaction : TransactionRequest
  historical : HistoricalRequestClass
  observedTips : CommitmentSlots

structure FinishCall where
  transaction : TransactionRequest
  historical : HistoricalRequestClass
  request : Body
  response : Body
  status : Nat
  tips : CommitmentSlots
  acknowledging : Option String

def RequestCtx.finish (ctx : RequestCtx) (response : Body) (status : Nat)
    (acknowledging : Option String) : FinishCall where
  transaction := ctx.transaction
  historical := ctx.historical
  request := ctx.body
  response := response
  status := status
  tips := ctx.observedTips
  acknowledging := acknowledging

structure RecordedLeg where
  method : String
  provider : String
  outcome : Outcome
  latencyMs : ℚ
  count : Nat

structure Failover where
  source : String
  target : String
  reason : String
  deriving DecidableEq

/-- What a dispatch does, in order. `sent` and `completed` are the two ends of a
`forward`; `record` is `OutcomeRecorder::record`. -/
inductive Effect where
  | rateLimited (provider : String)
  | failover (f : Failover)
  | sent (provider : String)
  | completed (provider : String)
  | record (leg : RecordedLeg)
  | finish (call : FinishCall)

structure Reply where
  status : StatusCode
  body : Body

def Reply.of (status : Nat) (body : Body) : Reply :=
  ⟨(StatusCode.fromU16 status).getD .badGateway, body⟩

structure Run where
  effects : List Effect
  reply : Reply

def Run.after (effects : List Effect) (run : Run) : Run := ⟨effects ++ run.effects, run.reply⟩

@[simp] theorem Run.after_reply (effects : List Effect) (run : Run) :
    (run.after effects).reply = run.reply := rfl

/-- What a dispatch finds at each provider: whether there is a client for it, what
`try_acquire` answers, and how the forward ends. -/
structure Env where
  client : String → Bool
  acquire : String → Bool
  forward : String → Leg

def Effect.sentTo : Effect → Option String
  | .sent p => some p
  | _ => none

def Effect.recorded : Effect → Option RecordedLeg
  | .record leg => some leg
  | _ => none

def Effect.failedOver : Effect → Option Failover
  | .failover f => some f
  | _ => none

def Effect.finished : Effect → Option FinishCall
  | .finish call => some call
  | _ => none

theorem Effect.sentTo_eq_some {e : Effect} {p : String} : e.sentTo = some p ↔ e = .sent p := by
  cases e <;> simp [sentTo]

def Run.forwards (run : Run) : List String := run.effects.filterMap Effect.sentTo
def Run.records (run : Run) : List RecordedLeg := run.effects.filterMap Effect.recorded
def Run.failovers (run : Run) : List Failover := run.effects.filterMap Effect.failedOver
def Run.finishes (run : Run) : List FinishCall := run.effects.filterMap Effect.finished

/-- `json_error_body`. The members are in the order of the serializer's sorted map; the
messages the proxy passes hold no character that JSON escapes. -/
def jsonErrorBody (code : Int) (message : String) : Body :=
  .object (utf8Bytes ("\"error\":\x7b\"code\":" ++ toString code ++ ",\"message\":\"" ++ message ++
      "\"\x7d,\"id\":null,\"jsonrpc\":\"2.0\"\x7d")) [
    (⟨"error", false⟩, .obj [
      (⟨"code", false⟩, .num (.integer code)),
      (⟨"message", false⟩, .str ⟨message, false⟩)]),
    (⟨"id", false⟩, .null),
    (⟨"jsonrpc", false⟩, .str ⟨"2.0", false⟩)]

def allProvidersFailed : Reply := ⟨.badGateway, jsonErrorBody (-32603) "all providers failed"⟩

def noProvidersAvailable : Reply :=
  ⟨.serviceUnavailable, jsonErrorBody (-32603) "no providers available"⟩

end RpcPlane
