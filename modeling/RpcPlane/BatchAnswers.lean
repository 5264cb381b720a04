import RpcPlane.SequentialLaw

/-! The answer to a batch is an array. One that holds a single call is read as if its
element were the `error` member. -/

namespace RpcPlane

variable {config : Config} {ctx : RequestCtx} {max : Nat} {l : Loop} {name : String}
  {provider : ProviderConfig} {rest : List String}

theorem extractRpcErrorCode_eq_none {body : Body} (h : hasRpcError body = false) :
    extractRpcErrorCode body = none := by
  cases hc : extractRpcErrorCode body with
  | none => rfl
  | some code =>
    have hh := hasRpcError_of_code hc
    rw [h] at hh
    exact absurd hh (by decide)

theorem receive_ok {r : HttpResponse} (hs : isSuccess r.status.asU16 = true)
    (hl : ctx.historyLookup = false) (he : hasRpcError r.body = false) :
    receive config ctx max l name provider rest (.ok r) = (.ok, .answer 200 r.body (some name)) := by
  simp [receive, retryableHttp_of_success hs, hs, hl, he, extractRpcErrorCode_eq_none he]

/-- The two classifiers of a leg, at every provider and at every point of the loop, find
a successful answer to a batch Ok. -/
def ClassifiedOk (body : Body) : Prop :=
  ∀ (status : StatusCode), isSuccess status.asU16 = true → ∀ provider : ProviderConfig,
    Outcome.fromLeg status.asU16 body false provider = .ok ∧
    ∀ (config : Config) (ctx : RequestCtx) (max : Nat) (l : Loop) (name : String)
      (rest : List String), ctx.historyLookup = false →
      (receive config ctx max l name provider rest (.ok ⟨status, body⟩)).1 = .ok

theorem classifiedOk_of_no_error {body : Body} (he : hasRpcError body = false) :
    ClassifiedOk body := by
  intro status hs provider
  refine ⟨(Outcome.fromLeg_ok_iff hs).mpr he, ?_⟩
  intro config ctx max l name rest hl
  rw [receive_ok hs hl he]

/-- `has_rpc_error` is true of the objects with an error, and batch answers are Ok,
except for an array of one element that is not null. -/
theorem hasRpcError_object_iff {body : Body} {j : Json} (hj : body.json = some j)
    (hk : j.KeysDistinct) :
    ((hasRpcError body = true ↔ ∃ v, j.member? "error" = some v ∧ v.isNull = false) ∧
        ∀ items, j = .arr items → ClassifiedOk body) ↔
      ¬ ∃ v, j = .arr [v] ∧ v.isNull = false := by
  have herr := hasRpcError_iff hj hk
  constructor
  · rintro ⟨hobj, -⟩ ⟨v, rfl, hv⟩
    obtain ⟨w, hw, -⟩ := hobj.mp (herr.mpr (Or.inr ⟨v, rfl, hv⟩))
    simp [Json.member?] at hw
  · intro hone
    refine ⟨by rw [herr, or_iff_left hone], ?_⟩
    rintro items rfl
    apply classifiedOk_of_no_error
    rw [← Bool.not_eq_true, herr]
    rintro (⟨v, hv, -⟩ | h)
    · simp [Json.member?] at hv
    · exact hone h

/-- The answer `[{"jsonrpc":"2.0","id":1,"result":7}]`. -/
def batchOfOne : Body :=
  .array (utf8Bytes "\x7b\"jsonrpc\":\"2.0\",\"id\":1,\"result\":7\x7d]") [.obj [
    (⟨"jsonrpc", false⟩, .str ⟨"2.0", false⟩),
    (⟨"id", false⟩, .num (.integer 1)),
    (⟨"result", false⟩, .num (.integer 7))]]

/-- The answer `[{"id":1,"result":7},{"id":2,"error":{"code":-32601}}]`. -/
def batchOfTwo : Body :=
  .array (utf8Bytes
    "\x7b\"id\":1,\"result\":7\x7d,\x7b\"id\":2,\"error\":\x7b\"code\":-32601\x7d\x7d]")
    [.obj [(⟨"id", false⟩, .num (.integer 1)), (⟨"result", false⟩, .num (.integer 7))],
      .obj [(⟨"id", false⟩, .num (.integer 2)),
        (⟨"error", false⟩, .obj [(⟨"code", false⟩, .num (.integer (-32601)))])]]

/-- The answer `{"id":2,"error":{"code":-32601}}`. -/
def methodNotFound : Body :=
  .object (utf8Bytes "\"id\":2,\"error\":\x7b\"code\":-32601\x7d\x7d") [
    (⟨"id", false⟩, .num (.integer 2)),
    (⟨"error", false⟩, .obj [(⟨"code", false⟩, .num (.integer (-32601)))])]

theorem hasRpcError_object_iff_two_calls :
    hasRpcError batchOfTwo ≠ true ∧ ClassifiedOk batchOfTwo ∧ hasRpcError methodNotFound = true := by
  have htwo := (@hasRpcError_object_iff batchOfTwo _ rfl trivial).mpr (by
    rintro ⟨v, hv, -⟩
    simp at hv)
  have hone := (@hasRpcError_object_iff methodNotFound _ rfl (by simp [Json.KeysDistinct])).mpr (by
    rintro ⟨v, hv, -⟩
    cases hv)
  refine ⟨?_, htwo.2 _ rfl, hone.1.mpr ⟨_, rfl, rfl⟩⟩
  intro herr
  obtain ⟨v, hv, -⟩ := htwo.1.mp herr
  cases hv

theorem batchOfOne_charged : hasRpcError batchOfOne = true ∧
    (∃ items, batchOfOne.json = some (.arr items) ∧ (Json.arr items).KeysDistinct) ∧
    ∀ provider, Outcome.fromLeg 200 batchOfOne false provider = .providerError ∧
      ∀ ctx : RequestCtx, ctx.historyLookup = false →
        (receive {} ctx 1 {} "a" provider [] (.ok ⟨.ok, batchOfOne⟩)).1 = .providerError := by
  have he : hasRpcError batchOfOne = true := by decide
  have hc : extractRpcErrorCode batchOfOne = none := by decide
  refine ⟨he, ⟨_, rfl, trivial⟩, fun provider => ⟨?_, fun ctx hl => ?_⟩⟩
  · simp [Outcome.fromLeg, isSuccess, he, hc, Outcome.fromRpcError]
  · simp [receive, StatusCode.ok, isRetryableHttp, isSuccess, hl, he, hc, Outcome.fromRpcError]

end RpcPlane
