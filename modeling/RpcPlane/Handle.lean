import RpcPlane.Router
import RpcPlane.Broadcast

/-! `handle_rpc`: classify the body, route the request, dispatch it. -/

namespace RpcPlane

theorem zero_roll : (0 : ℚ) ≤ 0 ∧ (0 : ℚ) < 1 := by decide

/-- What a request meets: the snapshots and tips of the monitor, the random roll of the
router, and the upstream side. -/
structure World where
  snapshots : List HealthSnapshot
  observedTips : CommitmentSlots := {}
  random : ℚ := 0
  random_mem : 0 ≤ random ∧ random < 1 := by exact zero_roll
  env : Env
  order : Race := .inOrder

def requestClass (config : Config) (body : Body) : RequestClass :=
  (classifyRequest body config.routing.fullHistoryMethods).getD .unknown

def RequestClass.decision (cls : RequestClass) (config : Config) (snapshots : List HealthSnapshot)
    (random : ℚ) : RouteDecision :=
  route cls.method snapshots config.routing.strategy config.providers
    config.routing.broadcastWrites config.routing.writeMethods cls.fullHistory random

def RequestClass.requestCtx (cls : RequestClass) (config : Config) (body : Body)
    (observedTips : CommitmentSlots) : RequestCtx where
  method := cls.method
  body := body
  count := cls.calls
  historyLookup := !cls.batch && config.routing.historyMethods.contains cls.method
  transaction := cls.transaction
  historical := cls.historical
  observedTips := observedTips

def World.decision (world : World) (config : Config) (cls : RequestClass) : RouteDecision :=
  cls.decision config world.snapshots world.random

def handleRpc (config : Config) (world : World) (body : Body) : Run :=
  let cls := requestClass config body
  let decision := world.decision config cls
  let ctx := cls.requestCtx config body world.observedTips
  let rateGate := !decision.degraded
  if decision.broadcast then
    broadcast config ctx world.env rateGate world.order decision.providers
  else sequential config ctx world.env rateGate decision.providers

section

variable {config : Config} {ctx : RequestCtx} {env : Env} {rateGate : Bool}

theorem sequential_forwards_subset {providers : List String} {name : String}
    (h : name ∈ (sequential config ctx env rateGate providers).forwards) : name ∈ providers :=
  (sequentialLoop_course config ctx env rateGate _ providers {}).forwards_sublist.subset h

theorem sequential_head {name : String} {rest : List String} {p : ProviderConfig}
    (hp : config.provider name = some p) (hclient : env.client name = true)
    (hacquire : env.acquire name = true) :
    name ∈ (sequential config ctx env rateGate (name :: rest)).forwards := by
  have hmax : ¬ maxAttempts config (name :: rest) ≤ 0 := by simp [maxAttempts]
  have hc : candidate config env.client (maxAttempts config (name :: rest)) {} name = .reach p := by
    simp [candidate, hp, hclient]
    simpa using hmax
  unfold sequential sequentialLoop
  simp only [hc, hacquire, Bool.not_true, Bool.and_false, Bool.false_and, Bool.false_eq_true,
    if_false]
  split
  · simp
  · simp [(answered_projections _ _ _ _ _ _ _).1]

theorem mem_spawnLeg {n name : String} :
    .sent name ∈ (spawnLeg config env rateGate n).1 ↔
      n = name ∧ ∃ p, config.provider n = some p ∧ env.client n = true ∧
        (p.maxRps.isSome && !env.acquire n && rateGate) = false := by
  unfold spawnLeg
  cases hp : config.provider n with
  | none => simp
  | some q =>
    simp only [Option.some.injEq, exists_eq_left']
    generalize (q.maxRps.isSome && !env.acquire n && rateGate) = gate
    cases env.client n with
    | false => simp
    | true => cases gate <;> simp [eq_comm (a := name) (b := n)]

theorem mem_spawnLegs {providers : List String} {name : String} :
    name ∈ (spawnLegs config env rateGate providers).1.filterMap Effect.sentTo ↔
      name ∈ providers ∧ ∃ p, config.provider name = some p ∧ env.client name = true ∧
        (p.maxRps.isSome && !env.acquire name && rateGate) = false := by
  simp only [spawnLegs, List.mem_filterMap, List.mem_flatMap, Effect.sentTo_eq_some,
    exists_eq_right, mem_spawnLeg]
  constructor
  · rintro ⟨n, hn, rfl, h⟩
    exact ⟨hn, h⟩
  · rintro ⟨hn, h⟩
    exact ⟨name, hn, rfl, h⟩

theorem spawnLegs_sublist (providers : List String) :
    ((spawnLegs config env rateGate providers).1.filterMap Effect.sentTo).Sublist providers := by
  induction providers with
  | nil => exact .slnil
  | cons name rest ih =>
    rw [spawnLegs_cons, List.filterMap_append]
    unfold spawnLeg
    cases hp : config.provider name with
    | none => exact ih.cons _
    | some p =>
      dsimp only
      split
      · exact ih.cons _
      · split
        · exact ih.cons _
        · exact ih.cons_cons _

theorem legEffects_sentTo (leg : BroadcastLeg) :
    (legEffects ctx env leg).filterMap Effect.sentTo = [] := rfl

theorem stragglerDrain_sentTo (panics : String → Bool) (legs : List BroadcastLeg) :
    (stragglerDrain ctx env panics legs).filterMap Effect.sentTo = [] := by
  rw [stragglerDrain, List.filterMap_flatMap, List.flatMap_eq_nil_iff]
  intro leg _
  cases panics leg.name <;> rfl

theorem race_forwards {panics : String → Bool} {legs : List BroadcastLeg}
    {best : Option BestError} : (race ctx env panics legs best).forwards = [] := by
  induction legs generalizing best with
  | nil => cases best <;> rfl
  | cons leg rest ih =>
    unfold race
    cases panics leg.name with
    | true => exact ih
    | false =>
      cases (env.forward leg.name).result with
      | error e => exact ih
      | ok r =>
        by_cases ho : (env.forward leg.name).outcome ctx.historyLookup leg.provider = .ok
        · simp only [Bool.false_eq_true, if_false, ho, if_true, Run.forwards,
            List.filterMap_append, legEffects_sentTo, stragglerDrain_sentTo]
          rfl
        · simp only [Bool.false_eq_true, if_false, ho]
          exact ih

theorem broadcast_forwards (config : Config) (ctx : RequestCtx) (env : Env) (rateGate : Bool)
    (order : Race) (providers : List String) :
    (broadcast config ctx env rateGate order providers).forwards =
      (spawnLegs config env rateGate providers).1.filterMap Effect.sentTo := by
  cases providers with
  | nil => rfl
  | cons name rest => simp [broadcast, race_forwards]

end

variable {config : Config} {world : World} {body : Body}

theorem handleRpc_forwards {name : String} (h : name ∈ (handleRpc config world body).forwards) :
    name ∈ (world.decision config (requestClass config body)).providers := by
  unfold handleRpc at h
  dsimp only at h
  split at h
  · rw [broadcast_forwards] at h
    exact (mem_spawnLegs.mp h).1
  · exact sequential_forwards_subset h

theorem handleRpc_sole {name : String} {p : ProviderConfig}
    (hne : (world.decision config (requestClass config body)).providers ≠ [])
    (hall : ∀ n ∈ (world.decision config (requestClass config body)).providers, n = name)
    (hp : config.provider name = some p) (hclient : world.env.client name = true)
    (hacquire : world.env.acquire name = true) :
    name ∈ (handleRpc config world body).forwards := by
  unfold handleRpc
  dsimp only
  split
  · rw [broadcast_forwards, mem_spawnLegs]
    obtain ⟨n, hn⟩ := List.exists_mem_of_ne_nil _ hne
    exact ⟨hall n hn ▸ hn, p, hp, hclient, by simp [hacquire]⟩
  · generalize (world.decision config (requestClass config body)).providers = providers at *
    cases providers with
    | nil => exact absurd rfl hne
    | cons n rest =>
      obtain rfl := hall n List.mem_cons_self
      exact sequential_head hp hclient hacquire

end RpcPlane
