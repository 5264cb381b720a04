import RpcPlane.Sequential

/-! The accounting of one sequential run: forwards, records, failovers and the call of
`finish_analytics`. -/

namespace RpcPlane

variable {config : Config} {ctx : RequestCtx} {env : Env} {rateGate : Bool} {max : Nat}

inductive Received (config : Config) (ctx : RequestCtx) (max : Nat) (l : Loop) (name : String)
    (provider : ProviderConfig) (rest : List String) :
    Except String HttpResponse → Outcome → Next → Prop where
  | transportError {e} :
    Received config ctx max l name provider rest (.error e) .providerError
      (.retry { l with prevFailed := some (name, "provider_error") })
  | retryableHttp {r : HttpResponse} (h : isRetryableHttp r.status.asU16 = true) :
    Received config ctx max l name provider rest (.ok r) (.fromStatus r.status.asU16)
      (.retry { l with prevFailed := some (name, "retryable_http") })
  | passedStatus {r : HttpResponse} (h : isRetryableHttp r.status.asU16 = false)
    (hs : isSuccess r.status.asU16 = false) :
    Received config ctx max l name provider rest (.ok r) (.fromStatus r.status.asU16)
      (.answer r.status.asU16 r.body none)
  | missed {r : HttpResponse} (hs : isSuccess r.status.asU16 = true)
    (hm : (ctx.historyLookup && isHistoryMiss provider (extractRpcErrorCode r.body) r.body) = true)
    (hleft : l.attempt < max) (hfull : rest.any (fullHistoryProvider config) = true) :
    Received config ctx max l name provider rest (.ok r) .miss
      (.retry { l with
        prevFailed := some (name, "history_miss")
        miss := some (l.miss.getD r.body) })
  | lastMiss {r : HttpResponse} (hs : isSuccess r.status.asU16 = true)
    (hm : (ctx.historyLookup && isHistoryMiss provider (extractRpcErrorCode r.body) r.body) = true)
    (hlast : l.attempt < max → rest.any (fullHistoryProvider config) = false) :
    Received config ctx max l name provider rest (.ok r) .miss (.answer 200 r.body none)
  | retryableCode {r : HttpResponse} {code : Int} (hs : isSuccess r.status.asU16 = true)
    (hm : (ctx.historyLookup && isHistoryMiss provider (extractRpcErrorCode r.body) r.body) = false)
    (hc : extractRpcErrorCode r.body = some code) (hr : isRetryableRpcCode code = true)
    (hleft : l.attempt < max) (reason : String) :
    Received config ctx max l name provider rest (.ok r) (.fromRpcError (some code))
      (.retry { l with prevFailed := some (name, reason), retried := some r.body })
  | passedError {r : HttpResponse} (hs : isSuccess r.status.asU16 = true)
    (hm : (ctx.historyLookup && isHistoryMiss provider (extractRpcErrorCode r.body) r.body) = false)
    (hlast : (extractRpcErrorCode r.body).any isRetryableRpcCode = true → max ≤ l.attempt)
    (he : hasRpcError r.body = true) :
    Received config ctx max l name provider rest (.ok r)
      (.fromRpcError (extractRpcErrorCode r.body)) (.answer 200 r.body none)
  | answered {r : HttpResponse} (hs : isSuccess r.status.asU16 = true)
    (hm : (ctx.historyLookup && isHistoryMiss provider (extractRpcErrorCode r.body) r.body) = false)
    (he : hasRpcError r.body = false) :
    Received config ctx max l name provider rest (.ok r) .ok (.answer 200 r.body (some name))

theorem receive_received (config : Config) (ctx : RequestCtx) (max : Nat) (l : Loop)
    (name : String) (provider : ProviderConfig) (rest : List String)
    (result : Except String HttpResponse) :
    Received config ctx max l name provider rest result
      (receive config ctx max l name provider rest result).1
      (receive config ctx max l name provider rest result).2 := by
  cases result with
  | error e => exact .transportError
  | ok r =>
    unfold receive
    dsimp only
    by_cases hh : isRetryableHttp r.status.asU16 = true
    · rw [if_pos hh]
      exact .retryableHttp hh
    rw [if_neg hh]
    by_cases hs : isSuccess r.status.asU16 = true
    · rw [if_neg (by simp [hs])]
      by_cases hm : (ctx.historyLookup &&
          isHistoryMiss provider (extractRpcErrorCode r.body) r.body) = true
      · rw [if_pos hm]
        by_cases hleft : (l.attempt < max && rest.any (fullHistoryProvider config)) = true
        · rw [if_pos hleft]
          simp only [Bool.and_eq_true, decide_eq_true_eq] at hleft
          exact .missed hs hm hleft.1 hleft.2
        · rw [if_neg hleft]
          refine .lastMiss hs hm (fun hlt => ?_)
          simpa [hlt] using hleft
      · rw [if_neg hm]
        have hm' := Bool.eq_false_iff.mpr hm
        by_cases hr : ((extractRpcErrorCode r.body).any isRetryableRpcCode &&
            decide (l.attempt < max)) = true
        · rw [if_pos hr]
          simp only [Bool.and_eq_true, decide_eq_true_eq, Option.any_eq_true] at hr
          obtain ⟨⟨code, hc, hcode⟩, hleft⟩ := hr
          rw [hc]
          exact .retryableCode hs hm' hc hcode hleft _
        · rw [if_neg hr]
          cases he : hasRpcError r.body with
          | true =>
            refine .passedError hs hm' (fun hc => ?_) he
            rw [hc] at hr
            simpa using hr
          | false => exact .answered hs hm' he
    · rw [if_pos (by simpa using hs)]
      exact .passedStatus (Bool.eq_false_iff.mpr hh) (Bool.eq_false_iff.mpr hs)

theorem receive_retry {l l' : Loop} {name : String} {provider : ProviderConfig}
    {rest : List String} {result : Except String HttpResponse} {outcome : Outcome}
    (h : receive config ctx max l name provider rest result = (outcome, .retry l')) :
    outcome ≠ .ok ∧ l'.attempt = l.attempt ∧ ∃ reason, l'.prevFailed = some (name, reason) := by
  have hr : Received config ctx max l name provider rest result outcome (.retry l') := by
    simpa only [h] using receive_received config ctx max l name provider rest result
  cases hr with
  | transportError => exact ⟨by simp, rfl, _, rfl⟩
  | retryableHttp hh => exact ⟨fromStatus_ne_ok (isSuccess_of_retryableHttp hh), rfl, _, rfl⟩
  | missed => exact ⟨by simp, rfl, _, rfl⟩
  | retryableCode => exact ⟨fromRpcError_ne_ok _, rfl, _, rfl⟩

theorem receive_answer {l : Loop} {name : String} {provider : ProviderConfig}
    {rest : List String} {result : Except String HttpResponse} {outcome : Outcome} {status : Nat}
    {body : Body} {ack : Option String}
    (h : receive config ctx max l name provider rest result =
      (outcome, .answer status body ack)) :
    ack = (if outcome = .ok then some name else none) ∧
      ∃ r, result = .ok r ∧ r.body = body := by
  have hr : Received config ctx max l name provider rest result outcome
      (.answer status body ack) := by
    simpa only [h] using receive_received config ctx max l name provider rest result
  cases hr with
  | passedStatus _ hs => exact ⟨by rw [if_neg (fromStatus_ne_ok hs)], _, rfl, rfl⟩
  | lastMiss => exact ⟨rfl, _, rfl, rfl⟩
  | passedError => exact ⟨by rw [if_neg (fromRpcError_ne_ok _)], _, rfl, rfl⟩
  | answered => exact ⟨rfl, _, rfl, rfl⟩

def Leg.outcome (leg : Leg) (historyLookup : Bool) (provider : ProviderConfig) : Outcome :=
  match leg.result with
  | .ok r => .fromLeg r.status.asU16 r.body historyLookup provider
  | .error _ => .providerError

theorem receive_outcome (config : Config) (ctx : RequestCtx) (max : Nat) (l : Loop)
    (name : String) (provider : ProviderConfig) (rest : List String) (leg : Leg) :
    (receive config ctx max l name provider rest leg.result).1 =
      leg.outcome ctx.historyLookup provider := by
  have hr := receive_received config ctx max l name provider rest leg.result
  generalize (receive config ctx max l name provider rest leg.result).1 = outcome at hr
  generalize (receive config ctx max l name provider rest leg.result).2 = next at hr
  unfold Leg.outcome
  generalize leg.result = result at hr
  cases hr with
  | transportError => rfl
  | retryableHttp hh => simp [Outcome.fromLeg, isSuccess_of_retryableHttp hh]
  | passedStatus _ hs => simp [Outcome.fromLeg, hs]
  | missed hs hm => simp [Outcome.fromLeg, hs, hm]
  | lastMiss hs hm => simp [Outcome.fromLeg, hs, hm]
  | retryableCode hs hm hc =>
    have he := hasRpcError_of_code hc
    rw [hc] at hm
    simp [Outcome.fromLeg, hs, hm, hc, he]
  | passedError hs hm _ he => simp [Outcome.fromLeg, hs, hm, he]
  | answered hs hm he => simp [Outcome.fromLeg, hs, hm, he]

section

variable (effects : List Effect) (run : Run)

@[simp] theorem Run.after_forwards :
    (run.after effects).forwards = effects.filterMap Effect.sentTo ++ run.forwards :=
  List.filterMap_append

@[simp] theorem Run.after_records :
    (run.after effects).records = effects.filterMap Effect.recorded ++ run.records :=
  List.filterMap_append

@[simp] theorem Run.after_failovers :
    (run.after effects).failovers = effects.filterMap Effect.failedOver ++ run.failovers :=
  List.filterMap_append

@[simp] theorem Run.after_finishes :
    (run.after effects).finishes = effects.filterMap Effect.finished ++ run.finishes :=
  List.filterMap_append

end

def Loop.failovers (l : Loop) (name : String) : List Failover :=
  (l.failover name).filterMap Effect.failedOver

theorem Loop.failover_eq (l : Loop) (name : String) :
    l.failover name = (l.failovers name).map .failover := by
  unfold failovers failover
  split
  · split <;> rfl
  · rfl

section

variable (l : Loop) (name : String) (outcome : Outcome) (latencyMs : ℚ)

@[simp] theorem forwardEffects_sentTo :
    (forwardEffects ctx l name outcome latencyMs).filterMap Effect.sentTo = [name] := by
  simp [forwardEffects, Loop.failover_eq, List.filterMap_map, Function.comp_def, Effect.sentTo]

@[simp] theorem forwardEffects_recorded :
    (forwardEffects ctx l name outcome latencyMs).filterMap Effect.recorded =
      [⟨ctx.method, name, outcome, latencyMs, ctx.count⟩] := by
  simp [forwardEffects, Loop.failover_eq, List.filterMap_map, Function.comp_def,
    List.filterMap_cons, Effect.recorded]

@[simp] theorem forwardEffects_failedOver :
    (forwardEffects ctx l name outcome latencyMs).filterMap Effect.failedOver =
      l.failovers name := by
  simp [forwardEffects, Loop.failover_eq, List.filterMap_map, Function.comp_def,
    Effect.failedOver]

@[simp] theorem forwardEffects_finished :
    (forwardEffects ctx l name outcome latencyMs).filterMap Effect.finished = [] := by
  simp [forwardEffects, Loop.failover_eq, List.filterMap_map, Function.comp_def, Effect.finished]

end

theorem exhausted_effects (ctx : RequestCtx) (l : Loop) :
    ∃ status, (exhausted ctx l).effects =
      [.finish (ctx.finish (exhausted ctx l).reply.body status none)] := by
  unfold exhausted
  cases l.miss with
  | some bytes => exact ⟨_, rfl⟩
  | none => cases l.retried <;> exact ⟨_, rfl⟩

theorem exhausted_finish (ctx : RequestCtx) (l : Loop) :
    ∃ status, (exhausted ctx l).finishes =
        [ctx.finish (exhausted ctx l).reply.body status none] := by
  obtain ⟨status, h⟩ := exhausted_effects ctx l
  exact ⟨status, by simp [Run.finishes, h, Effect.finished]⟩

theorem exhausted_forwards (ctx : RequestCtx) (l : Loop) : (exhausted ctx l).forwards = [] := by
  obtain ⟨status, h⟩ := exhausted_effects ctx l
  simp [Run.forwards, h, Effect.sentTo]

theorem exhausted_records (ctx : RequestCtx) (l : Loop) : (exhausted ctx l).records = [] := by
  obtain ⟨status, h⟩ := exhausted_effects ctx l
  simp [Run.records, h, Effect.recorded]

theorem exhausted_failovers (ctx : RequestCtx) (l : Loop) : (exhausted ctx l).failovers = [] := by
  obtain ⟨status, h⟩ := exhausted_effects ctx l
  simp [Run.failovers, h, Effect.failedOver]

theorem answered_projections (ctx : RequestCtx) (l : Loop) (name : String) (outcome : Outcome)
    (latencyMs : ℚ) (call : FinishCall) (reply : Reply) :
    let run : Run := ⟨forwardEffects ctx l name outcome latencyMs ++ [.finish call], reply⟩
    run.forwards = [name] ∧
      run.records = [⟨ctx.method, name, outcome, latencyMs, ctx.count⟩] ∧
      run.failovers = l.failovers name ∧ run.finishes = [call] := by
  simp [Run.forwards, Run.records, Run.failovers, Run.finishes, List.filterMap_append,
    Effect.sentTo, Effect.recorded, Effect.failedOver, Effect.finished]

variable {names : List String} {l : Loop} {run : Run}

theorem Course.forwards_sublist (h : Course config ctx env rateGate max names l run) :
    run.forwards.Sublist names := by
  induction h with
  | exhausted => simp [exhausted_forwards]
  | skipped _ _ _ ih => exact ih.cons _
  | shed _ _ _ ih => exact ih.cons _
  | retried _ _ _ _ ih =>
    rw [Run.after_forwards, forwardEffects_sentTo]
    exact ih.cons_cons _
  | @answered name rest l =>
    rw [(answered_projections ctx l name _ _ _ _).1]
    exact List.singleton_sublist.mpr List.mem_cons_self

theorem Course.forwards_length (h : Course config ctx env rateGate max names l run) :
    run.forwards.length ≤ max - l.attempt := by
  induction h with
  | exhausted => simp [exhausted_forwards]
  | skipped _ _ _ ih => exact ih
  | shed _ _ _ ih => exact ih
  | @retried _ _ l l' _ _ _ hlt _ hr _ ih =>
    have ha : l'.attempt = l.attempt + 1 := (receive_retry hr).2.1
    simp only [Run.after_forwards, forwardEffects_sentTo, List.length_append, List.length_singleton]
    omega
  | answered hlt =>
    rw [(answered_projections _ _ _ _ _ _ _).1, List.length_singleton]
    omega

theorem Course.records_eq (h : Course config ctx env rateGate max names l run) :
    run.records.map (·.provider) = run.forwards := by
  induction h with
  | exhausted => simp [exhausted_records, exhausted_forwards]
  | skipped _ _ _ ih => exact ih
  | shed _ _ _ ih => exact ih
  | retried _ _ _ _ ih => simpa using ih
  | answered =>
    obtain ⟨hf, hr, -, -⟩ := answered_projections ctx _ _ _ _ _ _
    rw [hf, hr]
    rfl

theorem Course.records_outcome (h : Course config ctx env rateGate max names l run) :
    ∀ leg ∈ run.records, ∃ provider, config.provider leg.provider = some provider ∧
      leg.outcome = (env.forward leg.provider).outcome ctx.historyLookup provider := by
  induction h with
  | exhausted => simp [exhausted_records]
  | skipped _ _ _ ih => exact ih
  | shed _ _ _ ih => exact ih
  | @retried name rest l _ _ provider outcome _ hp hr _ ih =>
    intro leg hleg
    rw [Run.after_records, forwardEffects_recorded] at hleg
    rcases List.mem_cons.mp hleg with rfl | hleg
    · have ho := receive_outcome config ctx max l.spend name provider rest (env.forward name)
      rw [hr] at ho
      exact ⟨provider, hp.configured, ho⟩
    · exact ih leg hleg
  | @answered name rest l provider outcome _ _ _ _ hp hr =>
    intro leg hleg
    rw [(answered_projections ctx l name _ _ _ _).2.1] at hleg
    obtain rfl := List.mem_singleton.mp hleg
    have ho := receive_outcome config ctx max l.spend name provider rest (env.forward name)
    rw [hr] at ho
    exact ⟨provider, hp.configured, ho⟩

theorem Course.failovers_from (h : Course config ctx env rateGate max names l run)
    {source reason : String} (hl : 0 < l.attempt) (hp : l.prevFailed = some (source, reason)) :
    run.failovers.map (fun f => (f.source, f.target)) =
      (source :: run.forwards).zip run.forwards := by
  have hone : ∀ (l : Loop) {source reason : String} (name : String), 0 < l.attempt →
      l.prevFailed = some (source, reason) →
      (l.failovers name).map (fun f => (f.source, f.target)) = [(source, name)] := by
    intro l source reason name hl hp
    simp [Loop.failovers, Loop.failover, hl, hp, Effect.failedOver]
  induction h generalizing source reason with
  | exhausted => simp [exhausted_failovers, exhausted_forwards]
  | skipped _ _ _ ih => exact ih hl hp
  | shed _ _ _ ih => exact ih hl hp
  | @retried name _ l l' run _ _ _ _ hr _ ih =>
    obtain ⟨-, ha, reason', hp'⟩ := receive_retry hr
    have ha' : 0 < l'.attempt := by rw [ha]; exact Nat.succ_pos _
    simp [hone l name hl hp, ih ha' hp']
  | @answered name _ l =>
    obtain ⟨hf, -, ho, -⟩ := answered_projections ctx l name _ _ _ _
    rw [hf, ho, hone l name hl hp]
    rfl

theorem Course.failovers_start (h : Course config ctx env rateGate max names l run)
    (hl : l.attempt = 0) :
    run.failovers.map (fun f => (f.source, f.target)) = run.forwards.zip run.forwards.tail := by
  have hnone : ∀ (l : Loop) (name : String), l.attempt = 0 → l.failovers name = [] := by
    intro l name hl
    simp [Loop.failovers, Loop.failover, hl]
  induction h with
  | exhausted => simp [exhausted_failovers, exhausted_forwards]
  | skipped _ _ _ ih => exact ih hl
  | shed _ _ _ ih => exact ih hl
  | @retried name _ l l' run _ _ _ _ hr tail _ =>
    obtain ⟨-, ha, reason, hp⟩ := receive_retry hr
    have ha' : 0 < l'.attempt := by rw [ha]; exact Nat.succ_pos _
    simpa [hnone l name hl] using tail.failovers_from ha' hp
  | @answered name _ l =>
    obtain ⟨hf, -, ho, -⟩ := answered_projections ctx l name _ _ _ _
    rw [hf, ho, hnone l name hl]
    rfl

def Answered (env : Env) (run : Run) (p : String) : Prop :=
  (∃ leg ∈ run.records, leg.provider = p ∧ leg.outcome = .ok) ∧
    ∃ r, (env.forward p).result = .ok r ∧ r.body = run.reply.body

theorem Course.finished (h : Course config ctx env rateGate max names l run) :
    ∃ call, run.finishes = [call] ∧ call.response = run.reply.body ∧
      ∀ p, call.acknowledging = some p ↔ Answered env run p := by
  induction h with
  | @exhausted _ l =>
    obtain ⟨status, hf⟩ := exhausted_finish ctx l
    refine ⟨_, hf, rfl, fun p => ?_⟩
    simp [Answered, exhausted_records, RequestCtx.finish]
  | skipped _ _ _ ih => exact ih
  | shed _ _ _ ih => exact ih
  | @retried name _ l l' run provider outcome _ _ hr _ ih =>
    obtain ⟨call, hf, hb, hack⟩ := ih
    have hne := (receive_retry hr).1
    refine ⟨call, by simpa using hf, hb, fun p => ?_⟩
    rw [hack]
    simp [Answered, hne]
  | @answered name _ l provider outcome status body ack _ _ hr =>
    obtain ⟨hack, r, hres, hbody⟩ := receive_answer hr
    obtain ⟨-, hrec, -, hf⟩ := answered_projections ctx l name outcome
      (env.forward name).latencyMs (ctx.finish body status ack) (.of status body)
    refine ⟨_, hf, rfl, fun p => ?_⟩
    rw [Answered, hrec]
    simp only [List.mem_singleton, exists_eq_left]
    simp only [RequestCtx.finish, hack]
    by_cases ho : outcome = .ok
    · rw [if_pos ho, Option.some.injEq]
      constructor
      · rintro rfl
        exact ⟨⟨rfl, ho⟩, r, hres, hbody⟩
      · exact fun h => h.1.1
    · simp [ho]

theorem sequential_accounting (config : Config) (ctx : RequestCtx) (env : Env) (rateGate : Bool)
    (providers : List String) (hnodup : providers.Nodup) :
    let run := sequential config ctx env rateGate providers
    (run.forwards.length ≤ min (config.routing.maxRetries + 1) providers.length ∧
      run.forwards.Sublist providers ∧ run.forwards.Nodup) ∧
    run.records.map (·.provider) = run.forwards ∧
    (∃ call, run.finishes = [call] ∧ ∀ p, call.acknowledging = some p ↔ Answered env run p) ∧
    run.failovers.length = run.forwards.length - 1 ∧
      run.failovers.map (fun f => (f.source, f.target)) =
        run.forwards.zip run.forwards.tail := by
  intro run
  have hc := sequentialLoop_course config ctx env rateGate (maxAttempts config providers)
    providers {}
  have hpairs : run.failovers.map (fun f => (f.source, f.target)) =
      run.forwards.zip run.forwards.tail := hc.failovers_start rfl
  obtain ⟨call, hf, -, hack⟩ := hc.finished
  refine ⟨⟨hc.forwards_length, hc.forwards_sublist, hc.forwards_sublist.nodup hnodup⟩,
    hc.records_eq, ⟨call, hf, hack⟩, ?_, hpairs⟩
  have hh := congrArg List.length hpairs
  simpa only [List.length_map, List.length_zip, List.length_tail,
    min_eq_right (Nat.sub_le _ _)] using hh

theorem sequential_accounting_pair :
    let body : Body := ⟨[], none, by simp⟩
    let ctx : RequestCtx := ⟨"getSlot", body, 1, false, .none, .none, {}⟩
    let config : Config := { providers := [⟨"a", "http://a", 1, false, none, none, .full⟩,
      ⟨"b", "http://b", 1, false, none, none, .full⟩] }
    let run := sequential config ctx ⟨fun _ => true, fun _ => true, fun name =>
      if name = "a" then ⟨.error "refused", 1⟩ else ⟨.ok ⟨.ok, body⟩, 1⟩⟩ true ["a", "b"]
    run.forwards = ["a", "b"] ∧ run.records.map (·.provider) = run.forwards := by
  intro body ctx config run
  have hh := sequential_accounting config ctx ⟨fun _ => true, fun _ => true, fun name =>
    if name = "a" then ⟨.error "refused", 1⟩ else ⟨.ok ⟨.ok, body⟩, 1⟩⟩ true ["a", "b"] (by decide)
  exact ⟨by decide +kernel, hh.2.1⟩

end RpcPlane
