import RpcPlane.Json
import RpcPlane.Config

/-! How one upstream answer is classified: status codes, JSON-RPC error codes, history
misses, and the outcome they add up to. -/

namespace RpcPlane

structure StatusCode where
  asU16 : Nat
  valid : 100 ≤ asU16 ∧ asU16 < 1000
  deriving DecidableEq, Repr

def StatusCode.fromU16 (status : Nat) : Option StatusCode :=
  if h : 100 ≤ status ∧ status < 1000 then some ⟨status, h⟩ else none

def StatusCode.ok : StatusCode := ⟨200, by decide⟩
def StatusCode.tooManyRequests : StatusCode := ⟨429, by decide⟩
def StatusCode.badGateway : StatusCode := ⟨502, by decide⟩
def StatusCode.serviceUnavailable : StatusCode := ⟨503, by decide⟩

@[simp] theorem StatusCode.fromU16_asU16 (s : StatusCode) : fromU16 s.asU16 = some s := by
  simp [fromU16, s.valid]

def isSuccess (status : Nat) : Bool := 200 ≤ status && status < 300

def isRetryableHttp (status : Nat) : Bool := [429, 500, 501, 502, 503, 504].contains status

def isClientError (status : Nat) : Bool := [400, 404, 405, 413, 415, 422].contains status

def isBehindRpcCode (code : Int) : Bool := [-32014, -32016].contains code

def isRetryableRpcCode (code : Int) : Bool :=
  [-32005, -32603].contains code || isBehindRpcCode code

def isClientRpcCode (code : Int) : Bool :=
  [-32700, -32600, -32601, -32602, -32002, -32003, -32006, -32013, -32015].contains code

def isHistoryGapCode (code : Int) : Bool :=
  [-32001, -32004, -32011, -32019, -32020].contains code

/-- `Wrapper { error: Option<RpcErr> }` with `RpcErr { code: Option<i64> }`. -/
def extractRpcErrorCode (body : Body) : Option Int := do
  let error ← body.fromSlice (readField "error" (readField "code" readI64))
  let code ← error
  code

def hasRpcError (body : Body) : Bool :=
  body.fromSlice (readField "error" readIgnored) == some (some ())

def hasResult (body : Body) : Bool :=
  body.fromSlice (readField "result" readIgnored) == some (some ())

def isHistoryMiss (provider : ProviderConfig) (rpcCode : Option Int) (body : Body) : Bool :=
  match provider.history with
  | .full => rpcCode.any isHistoryGapCode
  | .recent =>
    match rpcCode with
    | some code => !isClientRpcCode code && !isBehindRpcCode code
    | none => !hasResult body

inductive Outcome where
  | ok
  | providerError
  | rateLimited
  | clientError
  | miss
  | behind
  | unsupported
  deriving DecidableEq, Repr

def Outcome.fromStatus (status : Nat) : Outcome :=
  if isSuccess status then .ok
  else if status == 429 then .rateLimited
  else if status == 501 then .unsupported
  else if isClientError status then .clientError
  else .providerError

def Outcome.fromRpcError : Option Int → Outcome
  | some c =>
    if isClientRpcCode c then .clientError
    else if isBehindRpcCode c then .behind
    else if isHistoryGapCode c then .miss
    else .providerError
  | none => .providerError

def Outcome.fromLeg (status : Nat) (body : Body) (historyLookup : Bool)
    (provider : ProviderConfig) : Outcome :=
  if !isSuccess status then .fromStatus status
  else
    let code := extractRpcErrorCode body
    if historyLookup && isHistoryMiss provider code body then .miss
    else if hasRpcError body then .fromRpcError code
    else .ok

def Outcome.label : Outcome → String
  | .ok => "ok"
  | .providerError => "error"
  | .rateLimited => "rate_limited"
  | .clientError => "client_error"
  | .miss => "miss"
  | .behind => "behind"
  | .unsupported => "unsupported"

def broadcastErrorRank (outcome : Outcome) (status : Nat) (rpcCode : Option Int) : Nat :=
  if outcome = .miss then 3
  else
    match rpcCode with
    | some code => if isRetryableRpcCode code then 2 else 4
    | none => if isSuccess status then 0 else 1

theorem isRetryableRpcCode_of_client {code : Int} (h : isClientRpcCode code = true) :
    isRetryableRpcCode code = false := by
  simp only [isClientRpcCode, List.contains_iff_mem, List.mem_cons, List.not_mem_nil, or_false] at h
  rcases h with h | h | h | h | h | h | h | h | h <;> subst h <;> decide

theorem isSuccess_of_retryableHttp {status : Nat} (h : isRetryableHttp status = true) :
    isSuccess status = false := by
  simp only [isRetryableHttp, List.contains_iff_mem, List.mem_cons, List.not_mem_nil,
    or_false] at h
  rcases h with h | h | h | h | h | h <;> subst h <;> decide

theorem retryableHttp_of_success {status : Nat} (h : isSuccess status = true) :
    isRetryableHttp status = false := by
  by_contra hh
  have hn := isSuccess_of_retryableHttp (by simpa using hh)
  rw [h] at hn
  exact absurd hn (by decide)

theorem fromStatus_ne_ok {status : Nat} (h : isSuccess status = false) :
    Outcome.fromStatus status ≠ .ok := by
  unfold Outcome.fromStatus
  rw [if_neg (by simp [h])]
  split_ifs <;> simp

theorem fromRpcError_ne_ok (code : Option Int) : Outcome.fromRpcError code ≠ .ok := by
  cases code with
  | none => simp [Outcome.fromRpcError]
  | some c => unfold Outcome.fromRpcError; dsimp only; split_ifs <;> simp

theorem hasRpcError_of_code {body : Body} {code : Int}
    (h : extractRpcErrorCode body = some code) : hasRpcError body = true := by
  obtain ⟨error, he, hc⟩ := Option.bind_eq_some_iff.mp h
  obtain ⟨c, rfl, -⟩ := Option.bind_eq_some_iff.mp hc
  obtain ⟨j, hj, hr⟩ := Option.bind_eq_some_iff.mp he
  have hi : readField "error" readIgnored j = some (some ()) := readField_ignored hr
  simp [hasRpcError, Body.fromSlice, hj, hi]

/-- What the derived reader makes of a body: besides an object with a non-null `error`
member, it accepts an array that holds one non-null element. -/
theorem hasRpcError_iff {body : Body} {j : Json} (hj : body.json = some j) (hk : j.KeysDistinct) :
    hasRpcError body = true ↔
      (∃ v, j.member? "error" = some v ∧ v.isNull = false) ∨ ∃ v, j = .arr [v] ∧ v.isNull = false := by
  rw [← readField_ignored_iff "error" hk]
  simp [hasRpcError, Body.fromSlice, hj]

theorem Outcome.fromLeg_ok_iff {status : Nat} {body : Body} {provider : ProviderConfig}
    (hs : isSuccess status = true) :
    fromLeg status body false provider = .ok ↔ hasRpcError body = false := by
  cases hb : hasRpcError body <;> simp [fromLeg, hs, hb, fromRpcError_ne_ok]

end RpcPlane
