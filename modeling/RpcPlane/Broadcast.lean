import RpcPlane.FirstMax
import RpcPlane.SequentialLaw

/-! `broadcast`: every provider at once, and the first success wins. -/

namespace RpcPlane

structure BroadcastLeg where
  name : String
  provider : ProviderConfig
  deriving DecidableEq

/-- The order in which the legs of a broadcast complete, and which of their tasks panic. -/
structure Race where
  arrange : List BroadcastLeg → List BroadcastLeg
  perm : ∀ legs, (arrange legs).Perm legs
  panics : String → Bool

def Race.inOrder : Race := ⟨id, fun _ => .refl _, fun _ => false⟩

def spawnLeg (config : Config) (env : Env) (rateGate : Bool) (name : String) :
    List Effect × Option BroadcastLeg :=
  match config.provider name with
  | none => ([], none)
  | some provider =>
    if !env.client name then ([], none)
    else if provider.maxRps.isSome && !env.acquire name && rateGate then
      ([.rateLimited name], none)
    else ([.sent name], some ⟨name, provider⟩)

def spawnLegs (config : Config) (env : Env) (rateGate : Bool) (providers : List String) :
    List Effect × List BroadcastLeg :=
  (providers.flatMap (fun name => (spawnLeg config env rateGate name).1),
    providers.filterMap (fun name => (spawnLeg config env rateGate name).2))

structure BestError where
  status : Nat
  body : Body
  rank : Nat

def bestErrorRun (ctx : RequestCtx) : Option BestError → Run
  | some e => ⟨[.finish (ctx.finish e.body e.status none)], .of e.status e.body⟩
  | none => ⟨[.finish (ctx.finish allProvidersFailed.body 502 none)], allProvidersFailed⟩

def legEffects (ctx : RequestCtx) (env : Env) (leg : BroadcastLeg) : List Effect :=
  [.completed leg.name, .record ⟨ctx.method, leg.name,
    (env.forward leg.name).outcome ctx.historyLookup leg.provider,
    (env.forward leg.name).latencyMs, ctx.count⟩]

def stragglerDrain (ctx : RequestCtx) (env : Env) (panics : String → Bool)
    (legs : List BroadcastLeg) : List Effect :=
  legs.flatMap (fun leg =>
    if panics leg.name then [.completed leg.name] else legEffects ctx env leg)

/-- The loop over `join_next`, given the legs in the order in which they complete. -/
def race (ctx : RequestCtx) (env : Env) (panics : String → Bool) :
    List BroadcastLeg → Option BestError → Run
  | [], best => bestErrorRun ctx best
  | leg :: rest, best =>
    if panics leg.name then (race ctx env panics rest best).after [.completed leg.name]
    else
      match (env.forward leg.name).result with
      | .ok r =>
        let outcome := (env.forward leg.name).outcome ctx.historyLookup leg.provider
        if outcome = .ok then
          ⟨legEffects ctx env leg ++ [.finish (ctx.finish r.body 200 (some leg.name))] ++
            stragglerDrain ctx env panics rest, .of 200 r.body⟩
        else
          let rank := broadcastErrorRank outcome r.status.asU16 (extractRpcErrorCode r.body)
          let best' := keepBetter BestError.rank best ⟨r.status.asU16, r.body, rank⟩
          (race ctx env panics rest best').after (legEffects ctx env leg)
      | .error _ => (race ctx env panics rest best).after (legEffects ctx env leg)

def broadcast (config : Config) (ctx : RequestCtx) (env : Env) (rateGate : Bool) (order : Race)
    (providers : List String) : Run :=
  if providers.isEmpty then
    ⟨[.finish (ctx.finish noProvidersAvailable.body 503 none)], noProvidersAvailable⟩
  else
    let spawned := spawnLegs config env rateGate providers
    (race ctx env order.panics (order.arrange spawned.2) none).after spawned.1

def completedLegs (config : Config) (env : Env) (rateGate : Bool) (order : Race)
    (providers : List String) : List BroadcastLeg :=
  (order.arrange (spawnLegs config env rateGate providers).2).filter (!order.panics ·.name)

def BroadcastLeg.error? (ctx : RequestCtx) (env : Env) (leg : BroadcastLeg) : Option BestError :=
  match (env.forward leg.name).result with
  | .ok r => some ⟨r.status.asU16, r.body, broadcastErrorRank
      ((env.forward leg.name).outcome ctx.historyLookup leg.provider) r.status.asU16
      (extractRpcErrorCode r.body)⟩
  | .error _ => none

variable {config : Config} {ctx : RequestCtx} {env : Env} {rateGate : Bool}

theorem spawnLegs_cons (name : String) (rest : List String) :
    spawnLegs config env rateGate (name :: rest) =
      ((spawnLeg config env rateGate name).1 ++ (spawnLegs config env rateGate rest).1,
        (spawnLeg config env rateGate name).2.toList ++ (spawnLegs config env rateGate rest).2) := by
  cases h : (spawnLeg config env rateGate name).2 <;> simp [spawnLegs, h]

theorem BroadcastLeg.error?_ok {leg : BroadcastLeg} {r : HttpResponse}
    (hr : (env.forward leg.name).result = .ok r) :
    leg.error? ctx env = some ⟨r.status.asU16, r.body, broadcastErrorRank
      ((env.forward leg.name).outcome ctx.historyLookup leg.provider) r.status.asU16
      (extractRpcErrorCode r.body)⟩ := by
  simp [error?, hr]

theorem race_of_panics {panics : String → Bool} {leg : BroadcastLeg}
    (hp : panics leg.name = true) (rest : List BroadcastLeg) (best : Option BestError) :
    race ctx env panics (leg :: rest) best =
      (race ctx env panics rest best).after [.completed leg.name] := by
  simp [race, hp]

theorem race_reply {panics : String → Bool} {legs : List BroadcastLeg} {best : Option BestError}
    (hok : ∀ leg ∈ legs.filter (!panics ·.name),
      (env.forward leg.name).outcome ctx.historyLookup leg.provider ≠ .ok) :
    (race ctx env panics legs best).reply = (bestErrorRun ctx (firstMax BestError.rank best
      ((legs.filter (!panics ·.name)).filterMap (BroadcastLeg.error? ctx env)))).reply := by
  induction legs generalizing best with
  | nil => rfl
  | cons leg rest ih =>
    cases hp : panics leg.name with
    | true =>
      rw [List.filter_cons_of_neg (by simp [hp])] at hok ⊢
      rw [race_of_panics hp, Run.after_reply]
      exact ih hok
    | false =>
      unfold race
      rw [List.filter_cons_of_pos (by simp [hp])] at hok ⊢
      have hne := hok leg List.mem_cons_self
      have hrest := fun l hl => hok l (List.mem_cons_of_mem _ hl)
      cases hr : (env.forward leg.name).result with
      | error e =>
        rw [List.filterMap_cons_none (by simp [BroadcastLeg.error?, hr])]
        simpa [hp] using ih hrest
      | ok r =>
        rw [List.filterMap_cons_some (BroadcastLeg.error?_ok hr)]
        simpa [hp, hne, firstMax] using ih hrest

theorem broadcastErrorRank_le (outcome : Outcome) (status : Nat) (code : Option Int) :
    broadcastErrorRank outcome status code ≤ 4 := by
  unfold broadcastErrorRank
  by_cases hm : outcome = .miss
  · simp [hm]
  · cases code with
    | none => cases hs : isSuccess status <;> simp [hm]
    | some c => cases hr : isRetryableRpcCode c <;> simp [hm, hr]

theorem broadcastErrorRank_eq_four {outcome : Outcome} {status : Nat} {code : Option Int} :
    broadcastErrorRank outcome status code = 4 ↔
      outcome ≠ .miss ∧ ∃ c, code = some c ∧ isRetryableRpcCode c = false := by
  unfold broadcastErrorRank
  by_cases hm : outcome = .miss
  · simp [hm]
  · cases code with
    | none => cases hs : isSuccess status <;> simp [hm]
    | some c => cases hr : isRetryableRpcCode c <;> simp [hm, hr]

/-- A throttled or failing server: 429 and everything from 500 on. -/
def TransientStatus (status : Nat) : Prop := status = 429 ∨ 500 ≤ status

instance (status : Nat) : Decidable (TransientStatus status) :=
  inferInstanceAs (Decidable (_ ∨ _))

def ClientError (status : Nat) (body : Body) : Prop :=
  (∃ code, extractRpcErrorCode body = some code ∧ isClientRpcCode code = true) ∧
    ¬ TransientStatus status

def BroadcastLeg.deterministic (ctx : RequestCtx) (env : Env) (leg : BroadcastLeg) : Bool :=
  match (env.forward leg.name).result with
  | .ok r =>
    (env.forward leg.name).outcome ctx.historyLookup leg.provider != .miss &&
      (extractRpcErrorCode r.body).any (!isRetryableRpcCode ·)
  | .error _ => false

theorem BroadcastLeg.error?_rank (leg : BroadcastLeg) :
    (leg.error? ctx env).any (fun e => decide (e.rank = 4)) = leg.deterministic ctx env := by
  cases hr : (env.forward leg.name).result with
  | error e => simp [error?, deterministic, hr]
  | ok r =>
    rw [error?_ok hr, Bool.eq_iff_iff]
    simp [deterministic, hr, broadcastErrorRank_eq_four, Option.any_eq_true]

theorem broadcast_reply_deterministic {order : Race} {providers : List String}
    {leg : BroadcastLeg} {r : HttpResponse}
    (hok : ∀ leg ∈ completedLegs config env rateGate order providers,
      (env.forward leg.name).outcome ctx.historyLookup leg.provider ≠ .ok)
    (hfirst : (completedLegs config env rateGate order providers).find?
      (BroadcastLeg.deterministic ctx env) = some leg)
    (hr : (env.forward leg.name).result = .ok r) :
    (broadcast config ctx env rateGate order providers).reply = ⟨r.status, r.body⟩ := by
  have hne : providers.isEmpty = false := by
    cases providers with
    | nil =>
      have hnil : order.arrange [] = [] := List.perm_nil.mp (order.perm [])
      simp [completedLegs, spawnLegs, hnil] at hfirst
    | cons => rfl
  rw [broadcast, hne, if_neg (by decide), Run.after_reply, race_reply hok]
  have hmax : firstMax BestError.rank none ((completedLegs config env rateGate order
      providers).filterMap (BroadcastLeg.error? ctx env)) = leg.error? ctx env := by
    have hfind : ((completedLegs config env rateGate order providers).filterMap
        (BroadcastLeg.error? ctx env)).find? (fun e => decide (e.rank = 4)) =
        leg.error? ctx env := by
      rw [List.find?_filterMap]
      simp only [BroadcastLeg.error?_rank, hfirst, Option.bind_some]
    rw [firstMax_eq_find? (t := 4) ?_ (by simp) ?_, hfind]
    · intro e he
      obtain ⟨l, -, hl⟩ := List.mem_filterMap.mp he
      cases hlr : (env.forward l.name).result with
      | error _ => simp [BroadcastLeg.error?, hlr] at hl
      | ok r' =>
        rw [BroadcastLeg.error?_ok hlr] at hl
        obtain rfl := Option.some.inj hl
        exact broadcastErrorRank_le _ _ _
    · rw [BroadcastLeg.error?_ok hr] at hfind
      have hrank := List.find?_some hfind
      exact ⟨_, List.mem_of_find?_eq_some hfind, by simpa using hrank⟩
  change (bestErrorRun ctx (firstMax _ _ (List.filterMap _ (completedLegs _ _ _ _ _)))).reply = _
  rw [hmax, BroadcastLeg.error?_ok hr]
  simp [bestErrorRun, Reply.of]

/-- With no success and a client error at hand, a client error is returned exactly when
the first deterministic error to arrive is one. -/
theorem client_error_returned_iff (config : Config) (ctx : RequestCtx) (env : Env)
    (rateGate : Bool) (order : Race) (providers : List String)
    (hok : ∀ leg ∈ completedLegs config env rateGate order providers,
      (env.forward leg.name).outcome ctx.historyLookup leg.provider ≠ .ok)
    (hclient : ∃ leg ∈ completedLegs config env rateGate order providers, ∃ r code,
      (env.forward leg.name).result = .ok r ∧ isSuccess r.status.asU16 = true ∧
      (env.forward leg.name).outcome ctx.historyLookup leg.provider = .clientError ∧
      extractRpcErrorCode r.body = some code ∧ isClientRpcCode code = true) :
    let reply := (broadcast config ctx env rateGate order providers).reply
    ((∃ leg ∈ completedLegs config env rateGate order providers,
        (env.forward leg.name).result = .ok ⟨reply.status, reply.body⟩) ∧
      ClientError reply.status.asU16 reply.body) ↔
    ∀ leg r, (completedLegs config env rateGate order providers).find?
        (BroadcastLeg.deterministic ctx env) = some leg →
      (env.forward leg.name).result = .ok r → ClientError r.status.asU16 r.body := by
  obtain ⟨leg, hleg, r, code, hr, -, hout, hcode, hc⟩ := hclient
  have hdet : leg.deterministic ctx env = true := by
    simp [BroadcastLeg.deterministic, hr, hout, hcode, isRetryableRpcCode_of_client hc]
  obtain ⟨first, hfirst⟩ := Option.isSome_iff_exists.mp
    (List.find?_isSome.mpr ⟨leg, hleg, hdet⟩)
  obtain ⟨r', hr'⟩ : ∃ r', (env.forward first.name).result = .ok r' := by
    have hd := List.find?_some hfirst
    cases hf : (env.forward first.name).result with
    | error e => simp [BroadcastLeg.deterministic, hf] at hd
    | ok r' => exact ⟨r', rfl⟩
  intro reply
  have hreply : reply = ⟨r'.status, r'.body⟩ := broadcast_reply_deterministic hok hfirst hr'
  rw [hreply]
  constructor
  · rintro ⟨-, h⟩ l s hl hs
    obtain rfl : first = l := Option.some.inj (hfirst.symm.trans hl)
    obtain rfl : r' = s := Except.ok.inj (hr'.symm.trans hs)
    exact h
  · intro h
    exact ⟨⟨first, List.mem_of_find?_eq_some hfirst, hr'⟩, h first r' hfirst hr'⟩

def sendTransaction : RequestCtx where
  method := "sendTransaction"
  body := .object (utf8Bytes "\"method\":\"sendTransaction\"\x7d")
    [(⟨"method", false⟩, .str ⟨"sendTransaction", false⟩)]
  count := 1
  historyLookup := false
  transaction := .single
  historical := .none
  observedTips := {}

def twoProviders : Config where
  providers := [{ name := "a", url := "http://a" }, { name := "b", url := "http://b" }]

def twoLegs : List BroadcastLeg :=
  [⟨"a", { name := "a", url := "http://a" }⟩, ⟨"b", { name := "b", url := "http://b" }⟩]

def thenInvalid (first : Except String HttpResponse) : Env where
  client := fun _ => true
  acquire := fun _ => true
  forward := fun name =>
    if name = "a" then ⟨first, 1⟩ else ⟨.ok ⟨.ok, jsonErrorBody (-32602) "invalid params"⟩, 2⟩

theorem client_error_returned_refused :
    let reply := (broadcast twoProviders sendTransaction (thenInvalid (.error "refused")) true
      .inOrder ["a", "b"]).reply
    ClientError reply.status.asU16 reply.body := by
  have hlegs : completedLegs twoProviders (thenInvalid (.error "refused")) true .inOrder ["a", "b"] =
      twoLegs := by decide +kernel
  have h := client_error_returned_iff twoProviders sendTransaction (thenInvalid (.error "refused")) true
    .inOrder ["a", "b"] (by rw [hlegs]; decide +kernel)
    (by
      rw [hlegs]
      exact ⟨_, List.mem_cons_of_mem _ (List.mem_singleton_self _), _, _, rfl, rfl, rfl, rfl, rfl⟩)
  refine (h.mpr ?_).2
  rw [hlegs]
  intro leg r hl hr
  have hb : twoLegs.find? (BroadcastLeg.deterministic sendTransaction
      (thenInvalid (.error "refused"))) = some ⟨"b", { name := "b", url := "http://b" }⟩ := by
    decide +kernel
  obtain rfl := Option.some.inj (hb.symm.trans hl)
  obtain rfl : ⟨.ok, jsonErrorBody (-32602) "invalid params"⟩ = r := Except.ok.inj hr
  exact ⟨⟨-32602, rfl, rfl⟩, by decide⟩

theorem throttled_leg_masks_client_error :
    let env := thenInvalid (.ok ⟨.tooManyRequests, jsonErrorBody (-32429) "slow down"⟩)
    let completed := completedLegs twoProviders env true .inOrder ["a", "b"]
    let reply := (broadcast twoProviders sendTransaction env true .inOrder ["a", "b"]).reply
    (∀ leg ∈ completed, (env.forward leg.name).outcome sendTransaction.historyLookup
        leg.provider ≠ .ok) ∧
      (∃ leg ∈ completed, ∃ r code, (env.forward leg.name).result = .ok r ∧
        isSuccess r.status.asU16 = true ∧
        (env.forward leg.name).outcome sendTransaction.historyLookup leg.provider = .clientError ∧
        extractRpcErrorCode r.body = some code ∧ isClientRpcCode code = true) ∧
      reply.status = .tooManyRequests ∧ ¬ ClientError reply.status.asU16 reply.body := by
  intro env completed reply
  have hlegs : completed = twoLegs := by decide +kernel
  have hstatus : reply.status = .tooManyRequests := by decide +kernel
  refine ⟨by rw [hlegs]; decide +kernel, ?_, hstatus, ?_⟩
  · rw [hlegs]
    exact ⟨_, List.mem_cons_of_mem _ (List.mem_singleton_self _), _, _, rfl, rfl, rfl, rfl, rfl⟩
  · rintro ⟨-, htransient⟩
    rw [hstatus] at htransient
    exact htransient (Or.inl rfl)

end RpcPlane
