import RpcPlane.Dispatch

/-! `sequential`: one provider at a time, failing over until one gives a final answer. -/

namespace RpcPlane

/-- The locals of the loop. `attempt` counts the forwards issued so far. -/
structure Loop where
  attempt : Nat := 0
  prevFailed : Option (String × String) := none
  miss : Option Body := none
  retried : Option Body := none

def maxAttempts (config : Config) (providers : List String) : Nat :=
  min (config.routing.maxRetries + 1) providers.length

def fullHistoryProvider (config : Config) (name : String) : Bool :=
  config.providers.any (fun p => p.name == name && p.history == .full)

inductive Candidate where
  | stop
  | skip
  | reach (provider : ProviderConfig)

def candidate (config : Config) (client : String → Bool) (max : Nat) (l : Loop)
    (name : String) : Candidate :=
  if max ≤ l.attempt then .stop
  else
    match config.provider name with
    | none => .skip
    | some provider =>
      if l.miss.isSome && provider.history == .recent then .skip
      else if !client name then .skip
      else .reach provider

inductive Next where
  | retry (l : Loop)
  | answer (status : Nat) (body : Body) (acknowledging : Option String)

def receive (config : Config) (ctx : RequestCtx) (max : Nat) (l : Loop) (name : String)
    (provider : ProviderConfig) (rest : List String) (result : Except String HttpResponse) :
    Outcome × Next :=
  match result with
  | .ok response =>
    let status := response.status.asU16
    let bytes := response.body
    if isRetryableHttp status then
      (.fromStatus status, .retry { l with prevFailed := some (name, "retryable_http") })
    else if !isSuccess status then (.fromStatus status, .answer status bytes none)
    else
      let rpcCode := extractRpcErrorCode bytes
      if ctx.historyLookup && isHistoryMiss provider rpcCode bytes then
        if l.attempt < max && rest.any (fullHistoryProvider config) then
          (.miss, .retry { l with
            prevFailed := some (name, "history_miss")
            miss := some (l.miss.getD bytes) })
        else (.miss, .answer 200 bytes none)
      else if rpcCode.any isRetryableRpcCode && l.attempt < max then
        let outcome := Outcome.fromRpcError rpcCode
        let reason := if outcome = .behind then "behind" else "retryable_rpc_error"
        (outcome, .retry { l with prevFailed := some (name, reason), retried := some bytes })
      else if hasRpcError bytes then (.fromRpcError rpcCode, .answer 200 bytes none)
      else (.ok, .answer 200 bytes (some name))
  | .error _ => (.providerError, .retry { l with prevFailed := some (name, "provider_error") })

def exhausted (ctx : RequestCtx) (l : Loop) : Run :=
  match l.miss with
  | some bytes => ⟨[.finish (ctx.finish bytes 200 none)], .of 200 bytes⟩
  | none =>
    match l.retried with
    | some bytes => ⟨[.finish (ctx.finish bytes 200 none)], .of 200 bytes⟩
    | none =>
      ⟨[.finish (ctx.finish allProvidersFailed.body 502 none)], allProvidersFailed⟩

def Loop.failover (l : Loop) (name : String) : List Effect :=
  if 0 < l.attempt then
    match l.prevFailed with
    | some (source, reason) => [.failover ⟨source, name, reason⟩]
    | none => []
  else []

def forwardEffects (ctx : RequestCtx) (l : Loop) (name : String) (outcome : Outcome)
    (latencyMs : ℚ) : List Effect :=
  l.failover name ++
    [.sent name, .completed name, .record ⟨ctx.method, name, outcome, latencyMs, ctx.count⟩]

def Loop.spend (l : Loop) : Loop := { l with attempt := l.attempt + 1 }

def sequentialLoop (config : Config) (ctx : RequestCtx) (env : Env) (rateGate : Bool)
    (max : Nat) : List String → Loop → Run
  | [], l => exhausted ctx l
  | name :: rest, l =>
    match candidate config env.client max l name with
    | .stop => exhausted ctx l
    | .skip => sequentialLoop config ctx env rateGate max rest l
    | .reach provider =>
      if provider.maxRps.isSome && !env.acquire name && rateGate then
        (sequentialLoop config ctx env rateGate max rest l).after [.rateLimited name]
      else
        let leg := env.forward name
        let received := receive config ctx max l.spend name provider rest leg.result
        let effects := forwardEffects ctx l name received.1 leg.latencyMs
        match received.2 with
        | .retry l' => (sequentialLoop config ctx env rateGate max rest l').after effects
        | .answer status body acknowledging =>
          ⟨effects ++ [.finish (ctx.finish body status acknowledging)], .of status body⟩

def sequential (config : Config) (ctx : RequestCtx) (env : Env) (rateGate : Bool)
    (providers : List String) : Run :=
  sequentialLoop config ctx env rateGate (maxAttempts config providers) providers {}

structure Reaches (config : Config) (env : Env) (rateGate : Bool) (missed : Bool) (name : String)
    (provider : ProviderConfig) : Prop where
  configured : config.provider name = some provider
  deep : missed = true → provider.history = .full
  client : env.client name = true
  token : (provider.maxRps.isSome && !env.acquire name && rateGate) = false

/-- The course of the loop, one constructor for each way a round of it can go. -/
inductive Course (config : Config) (ctx : RequestCtx) (env : Env) (rateGate : Bool)
    (max : Nat) : List String → Loop → Run → Prop where
  | exhausted {names l} (h : names = [] ∨ max ≤ l.attempt) :
    Course config ctx env rateGate max names l (exhausted ctx l)
  | skipped {name rest l run} (hlt : l.attempt < max)
    (h : ∀ provider, ¬ Reaches config env rateGate l.miss.isSome name provider)
    (tail : Course config ctx env rateGate max rest l run) :
    Course config ctx env rateGate max (name :: rest) l run
  | shed {name rest l run} (hlt : l.attempt < max)
    (h : ∀ provider, ¬ Reaches config env rateGate l.miss.isSome name provider)
    (tail : Course config ctx env rateGate max rest l run) :
    Course config ctx env rateGate max (name :: rest) l (run.after [.rateLimited name])
  | retried {name rest l l' run provider outcome} (hlt : l.attempt < max)
    (hp : Reaches config env rateGate l.miss.isSome name provider)
    (h : receive config ctx max l.spend name provider rest (env.forward name).result =
      (outcome, .retry l'))
    (tail : Course config ctx env rateGate max rest l' run) :
    Course config ctx env rateGate max (name :: rest) l
      (run.after (forwardEffects ctx l name outcome (env.forward name).latencyMs))
  | answered {name rest l provider outcome status body ack} (hlt : l.attempt < max)
    (hp : Reaches config env rateGate l.miss.isSome name provider)
    (h : receive config ctx max l.spend name provider rest (env.forward name).result =
      (outcome, .answer status body ack)) :
    Course config ctx env rateGate max (name :: rest) l
      ⟨forwardEffects ctx l name outcome (env.forward name).latencyMs ++
        [.finish (ctx.finish body status ack)], .of status body⟩

theorem candidate_cases (config : Config) (client : String → Bool) (max : Nat) (l : Loop)
    (name : String) :
    (candidate config client max l name = .stop ∧ max ≤ l.attempt) ∨
    (candidate config client max l name = .skip ∧ l.attempt < max ∧
      ∀ p, config.provider name = some p →
        (l.miss.isSome = true ∧ p.history = .recent) ∨ client name = false) ∨
    ∃ p, candidate config client max l name = .reach p ∧ l.attempt < max ∧
      config.provider name = some p ∧ (l.miss.isSome = true → p.history = .full) ∧
      client name = true := by
  unfold candidate
  by_cases hmax : max ≤ l.attempt
  · exact Or.inl ⟨by simp [hmax], hmax⟩
  · have hlt : l.attempt < max := not_le.mp hmax
    simp only [hmax, if_false]
    cases hp : config.provider name with
    | none => exact Or.inr (Or.inl ⟨rfl, hlt, by simp⟩)
    | some p =>
      by_cases hm : l.miss.isSome = true ∧ p.history = .recent
      · exact Or.inr (Or.inl ⟨by simp [hm], hlt, by simp [hm]⟩)
      · have hb : (l.miss.isSome && p.history == .recent) = false := by
          rw [← Bool.not_eq_true, Bool.and_eq_true, beq_iff_eq]
          exact hm
        cases hc : client name with
        | false => exact Or.inr (Or.inl ⟨by simp [hb], hlt, by simp⟩)
        | true =>
          refine Or.inr (Or.inr ⟨p, by simp [hb], hlt, rfl, ?_, rfl⟩)
          intro hs
          cases hh : p.history with
          | full => rfl
          | recent => exact absurd ⟨hs, hh⟩ hm

theorem sequentialLoop_course (config : Config) (ctx : RequestCtx) (env : Env) (rateGate : Bool)
    (max : Nat) (names : List String) (l : Loop) :
    Course config ctx env rateGate max names l
      (sequentialLoop config ctx env rateGate max names l) := by
  induction names generalizing l with
  | nil => exact .exhausted (Or.inl rfl)
  | cons name rest ih =>
    unfold sequentialLoop
    rcases candidate_cases config env.client max l name with
      ⟨hc, hmax⟩ | ⟨hc, hlt, hskip⟩ | ⟨p, hc, hlt, hp, hmiss, hclient⟩
    · simp only [hc]
      exact .exhausted (Or.inr hmax)
    · simp only [hc]
      refine .skipped hlt (fun q hq => ?_) (ih l)
      rcases hskip q hq.configured with ⟨hm, hr⟩ | hn
      · exact absurd (hr.symm.trans (hq.deep hm)) (by decide)
      · exact absurd (hn.symm.trans hq.client) (by decide)
    · simp only [hc]
      by_cases hshed : p.maxRps.isSome && !env.acquire name && rateGate
      · simp only [hshed, if_true]
        refine .shed hlt (fun q hq => ?_) (ih l)
        obtain rfl : p = q := Option.some.inj (hp.symm.trans hq.configured)
        exact absurd (hq.token.symm.trans hshed) (by decide)
      · rw [if_neg hshed]
        have hreach : Reaches config env rateGate l.miss.isSome name p :=
          ⟨hp, hmiss, hclient, by simpa using hshed⟩
        cases hr : receive config ctx max l.spend name p rest (env.forward name).result with
        | mk outcome next =>
          cases next with
          | retry l' => exact .retried hlt hreach hr (ih l')
          | answer status body ack => exact .answered hlt hreach hr

end RpcPlane
