import RpcPlane.Rounds

/-! What a reply of `sequential` says about the providers it does not come from: when a
retryable error or a history miss reaches the client, who else was asked. -/

namespace RpcPlane

variable {config : Config} {ctx : RequestCtx} {env : Env} {rateGate : Bool} {max : Nat}
  {names : List String} {l : Loop} {k : Kept} {run : Run} {o : Origin}

theorem fromStatus_ne_miss (status : Nat) : Outcome.fromStatus status ≠ .miss := by
  unfold Outcome.fromStatus
  split_ifs <;> simp

theorem isHistoryMiss_of_gap {code : Option Int} (h : Outcome.fromRpcError code = .miss)
    (provider : ProviderConfig) (body : Body) : isHistoryMiss provider code body = true := by
  cases code with
  | none => simp [Outcome.fromRpcError] at h
  | some c =>
    unfold Outcome.fromRpcError at h
    by_cases hc : isClientRpcCode c
    · simp [hc] at h
    · by_cases hb : isBehindRpcCode c
      · simp [hc, hb] at h
      · by_cases hg : isHistoryGapCode c
        · cases hh : provider.history <;> simp [isHistoryMiss, hh, hc, hb, hg]
        · simp [hc, hb, hg] at h

theorem receive_answer_missed {name : String} {provider : ProviderConfig} {rest : List String}
    {status : Nat} {body : Body} {ack : Option String} (hl : ctx.historyLookup = true)
    (hp : config.provider name = some provider)
    (h : receive config ctx max l name provider rest (env.forward name).result =
      (.miss, .answer status body ack)) :
    status = 200 ∧ MissBody config env name body ∧
      (l.attempt < max → rest.any (fullHistoryProvider config) = false) := by
  generalize hres : (env.forward name).result = result at h
  have hr := receive_received config ctx max l name provider rest result
  rw [h] at hr
  generalize ho : Outcome.miss = outcome at hr
  cases hr with
  | passedStatus => exact absurd ho.symm (fromStatus_ne_miss _)
  | @lastMiss r hs hm hlast =>
    refine ⟨rfl, ⟨?_, r, hres, rfl⟩, hlast⟩
    rw [Bool.and_eq_true] at hm
    rw [missedBy_eq hp hres, hs, hm.2]
    rfl
  | @passedError r hs hm hlast he =>
    rw [hl, Bool.true_and, isHistoryMiss_of_gap ho.symm provider r.body] at hm
    exact absurd hm (by decide)
  | answered => exact absurd ho (by decide)

theorem answerOrigin_eq_miss {name p : String} {outcome : Outcome} :
    answerOrigin ctx name outcome = .miss p ↔
      ctx.historyLookup = true ∧ outcome = .miss ∧ name = p := by
  unfold answerOrigin
  by_cases h : ctx.historyLookup && outcome = .miss
  · rw [if_pos h]
    simp only [Bool.and_eq_true, decide_eq_true_eq] at h
    simp [h]
  · rw [if_neg h]
    simp only [Bool.and_eq_true, decide_eq_true_eq] at h
    constructor
    · intro h'
      cases h'
    · intro ⟨hl, ho, _⟩
      exact absurd ⟨hl, ho⟩ h

/-- Where the reply is a miss, no leg on the way to it gave an answer of its own. -/
theorem Rounds.unstopped (h : Rounds config ctx env rateGate max names l k run o)
    (hl : ctx.historyLookup = true) {p : String} (ho : o = .miss p) {j : Nat} {f : String}
    (hj : run.forwards[j]? = some f) (r : HttpResponse) :
    ¬ Stops config env (max - l.attempt) j f r := by
  induction h generalizing j with
  | exhausted => simp [exhausted_forwards] at hj
  | skipped _ _ _ ih => exact ih ho hj
  | shed _ _ ih => exact ih ho hj
  | @retried name rest l l' k run o provider outcome hlt hp hr _ ih =>
    have ha : l'.attempt = l.attempt + 1 := (receive_retry hr).2.1
    have hleft : max - l.attempt = (max - l'.attempt) + 1 := by omega
    rw [Run.after_forwards, forwardEffects_sentTo, List.singleton_append] at hj
    cases j with
    | zero =>
      obtain rfl : name = f := by simpa using hj
      exact (receive_retry_miss hl hp.configured hr).1 r
    | succ j =>
      rw [hleft, stops_succ]
      exact ih ho (by simpa using hj)
  | @answered name rest l k provider outcome status body ack hlt hp hr =>
    obtain ⟨-, rfl, rfl⟩ := answerOrigin_eq_miss.mp ho
    rw [(answered_projections ctx l name _ _ _ _).1, List.getElem?_singleton] at hj
    obtain ⟨rfl, rfl⟩ : j = 0 ∧ name = f := by simpa using hj
    exact not_stops_of_missed (receive_answer_missed hl hp.configured hr).2.1.1

/-- The local `miss` holds the body of a miss of the provider kept for it. -/
def Kept.Holds (config : Config) (env : Env) (k : Kept) (l : Loop) : Prop :=
  match k.miss with
  | some p => ∃ b, l.miss = some b ∧ MissBody config env p b
  | none => l.miss = none

theorem Kept.Holds.retry {l' : Loop} {name : String} {provider : ProviderConfig}
    {rest : List String} {outcome : Outcome} (hk : k.Holds config env l)
    (hl : ctx.historyLookup = true) (hp : config.provider name = some provider)
    (h : receive config ctx max l.spend name provider rest (env.forward name).result =
      (outcome, .retry l')) :
    (k.retry name outcome (env.forward name).result).Holds config env l' := by
  generalize hres : (env.forward name).result = result at h ⊢
  have hr : Received config ctx max l.spend name provider rest result outcome (.retry l') := by
    simpa only [h] using receive_received config ctx max l.spend name provider rest result
  cases hr with
  | transportError => exact hk
  | @retryableHttp r hh =>
    have hs := isSuccess_of_retryableHttp hh
    rw [show k.retry name _ (.ok r) = k by simp [Kept.retry, hs]]
    exact hk
  | @missed r hs hm hleft hfull =>
    have hmiss : MissBody config env name r.body := by
      refine ⟨?_, r, hres, rfl⟩
      rw [Bool.and_eq_true] at hm
      rw [missedBy_eq hp hres, hs, hm.2]
      rfl
    unfold Holds at hk ⊢
    cases hkm : k.miss with
    | none =>
      rw [hkm] at hk
      simp only at hk
      simp [Kept.retry, hs, hkm, Loop.spend, hk, hmiss]
    | some q =>
      rw [hkm] at hk
      obtain ⟨b, hb, hq⟩ := hk
      simp [Kept.retry, hs, hkm, Loop.spend, hb, hq]
  | @retryableCode r code hs hm hc hretry hleft reason =>
    have hne : Outcome.fromRpcError (some code) ≠ .miss := by
      intro hgap
      rw [hl, Bool.true_and, hc, isHistoryMiss_of_gap hgap provider r.body] at hm
      exact absurd hm (by decide)
    have hkm : (k.retry name (.fromRpcError (some code)) (.ok r)).miss = k.miss := by
      simp [Kept.retry, hs, hne]
    unfold Holds at hk ⊢
    rw [hkm]
    exact hk

theorem Kept.retry_miss {name p : String} {outcome : Outcome}
    {result : Except String HttpResponse} (h : (k.retry name outcome result).miss = some p) :
    k.miss = some p ∨ p = name := by
  unfold retry at h
  cases result with
  | error e => exact Or.inl h
  | ok r =>
    by_cases hs : isSuccess r.status.asU16
    · by_cases ho : outcome = .miss
      · cases hk : k.miss with
        | none =>
          simp only [hs, ho, hk, if_true, Option.getD_none, Option.some.injEq] at h
          exact Or.inr h.symm
        | some q =>
          obtain rfl : q = p := by simpa [hs, ho, hk] using h
          exact Or.inl rfl
      · simp only [hs, ho, if_true, if_false] at h
        exact Or.inl h
    · simp only [hs] at h
      exact Or.inl h

theorem Rounds.reply_miss (h : Rounds config ctx env rateGate max names l k run o)
    (hl : ctx.historyLookup = true) (hk : k.Holds config env l) {p : String} (ho : o = .miss p) :
    run.reply.status = .ok ∧ MissBody config env p run.reply.body ∧
      (k.miss = some p ∨ p ∈ run.forwards) := by
  induction h with
  | @exhausted names l k h =>
    cases hkm : k.miss with
    | none => cases hkr : k.retried <;> simp [Kept.origin, hkm, hkr] at ho
    | some q =>
      obtain rfl : q = p := by simpa [Kept.origin, hkm] using ho
      rw [Kept.Holds, hkm] at hk
      obtain ⟨b, hb, hm⟩ := hk
      have hreply : (RpcPlane.exhausted ctx l).reply = .of 200 b := by simp [RpcPlane.exhausted, hb]
      rw [hreply]
      exact ⟨rfl, hm, Or.inl rfl⟩
  | skipped _ _ _ ih => exact ih hk ho
  | shed _ _ ih => exact ih hk ho
  | @retried name rest l l' k run o provider outcome hlt hp hr _ ih =>
    obtain ⟨hs, hm, hwhere⟩ := ih (hk.retry hl hp.configured hr) ho
    refine ⟨hs, hm, ?_⟩
    rw [Run.after_forwards, forwardEffects_sentTo]
    rcases hwhere with hw | hw
    · exact (Kept.retry_miss hw).imp_right (by rintro rfl; exact List.mem_cons_self)
    · exact Or.inr (List.mem_append_right _ hw)
  | @answered name rest l k provider outcome status body ack hlt hp hr =>
    obtain ⟨-, rfl, rfl⟩ := answerOrigin_eq_miss.mp ho
    obtain ⟨rfl, hm, -⟩ := receive_answer_missed hl hp.configured hr
    refine ⟨rfl, hm, Or.inr ?_⟩
    rw [(answered_projections ctx l name _ _ _ _).1]
    exact List.mem_singleton_self name

theorem Rounds.full_after_miss (h : Rounds config ctx env rateGate max names l k run o)
    (hl : ctx.historyLookup = true) (hm : l.miss.isSome = true) {f : String}
    (hf : f ∈ run.forwards) {provider : ProviderConfig}
    (hp : config.provider f = some provider) : provider.history = .full := by
  induction h with
  | exhausted => simp [exhausted_forwards] at hf
  | skipped _ _ _ ih => exact ih hm hf
  | shed _ _ ih => exact ih hm hf
  | @retried name rest l l' k run o q outcome hlt hq hr _ ih =>
    rw [Run.after_forwards, forwardEffects_sentTo] at hf
    rcases List.mem_cons.mp hf with rfl | hf
    · obtain rfl : q = provider := Option.some.inj (hq.configured.symm.trans hp)
      exact hq.deep hm
    · have hsome := (receive_retry_miss hl hq.configured hr).2.1
      exact ih (by rw [hsome, hm, Bool.true_or]) hf
  | @answered name rest l k q outcome status body ack hlt hq hr =>
    rw [(answered_projections ctx l name _ _ _ _).1] at hf
    obtain rfl := List.mem_singleton.mp hf
    obtain rfl : q = provider := Option.some.inj (hq.configured.symm.trans hp)
    exact hq.deep hm

theorem Rounds.full_after (h : Rounds config ctx env rateGate max names l k run o)
    (hl : ctx.historyLookup = true) {before after : List String} {p f : String}
    (hf : run.forwards = before ++ p :: after) (hm : missedBy config env p = true)
    (ha : f ∈ after) {provider : ProviderConfig} (hp : config.provider f = some provider) :
    provider.history = .full := by
  induction h generalizing before with
  | exhausted => simp [exhausted_forwards] at hf
  | skipped _ _ _ ih => exact ih hf
  | shed _ _ ih => exact ih hf
  | @retried name rest l l' k run o q outcome hlt hq hr tail ih =>
    rw [Run.after_forwards, forwardEffects_sentTo, List.singleton_append] at hf
    cases before with
    | nil =>
      obtain ⟨rfl, rfl⟩ := List.cons.inj hf
      have hsome := (receive_retry_miss hl hq.configured hr).2.1
      exact tail.full_after_miss hl (by rw [hsome, hm, Bool.or_true]) ha hp
    | cons b before => exact ih (List.cons.inj hf).2
  | @answered name rest l k q outcome status body ack hlt hq hr =>
    rw [(answered_projections ctx l name _ _ _ _).1] at hf
    have hlen := congrArg List.length hf
    have hpos := List.length_pos_of_mem ha
    simp only [List.length_append, List.length_cons, List.length_nil] at hlen
    omega

/-- A history lookup that replies with a miss asked every `full` provider of the list, save
those without a client, over their cap or beyond the last attempt, and after the miss it
asked no `recent` one. -/
theorem no_false_not_found (config : Config) (ctx : RequestCtx) (env : Env) (rateGate : Bool)
    (providers : List String) (hl : ctx.historyLookup = true) (p : String)
    (ho : origin config ctx env rateGate providers = .miss p) :
    let run := sequential config ctx env rateGate providers
    let max := maxAttempts config providers
    (p ∈ run.forwards ∧ run.reply.status = .ok ∧ MissBody config env p run.reply.body) ∧
    (∀ f ∈ providers, ∀ q, config.provider f = some q → q.history = .full →
      (∃ j, run.forwards[j]? = some f ∧ ∀ r, ¬ Stops config env max j f r) ∨
      env.client f = false ∨ Effect.rateLimited f ∈ run.effects ∨ run.forwards.length = max) ∧
    ∀ before after, run.forwards = before ++ p :: after → ∀ f ∈ after, ∀ q,
      config.provider f = some q → q.history = .full := by
  intro run max
  have hr : Rounds config ctx env rateGate max providers {} {} run
      (origin config ctx env rateGate providers) :=
    sequentialLoop_rounds config ctx env rateGate max providers {} {}
  obtain ⟨hstatus, hmiss, hwhere⟩ := hr.reply_miss hl rfl ho
  refine ⟨⟨hwhere.resolve_left (by simp), hstatus, hmiss⟩, ?_, ?_⟩
  · intro f hf q hq hfull
    obtain ⟨before, after, hsplit⟩ := List.append_of_mem hf
    have hnot : ¬ q.history = .recent := by simp [hfull]
    cases hr.passed hsplit hq with
    | forwarded hfw =>
      obtain ⟨j, hj⟩ := List.mem_iff_getElem?.mp hfw
      exact Or.inl ⟨j, hj, hr.unstopped hl ho hj⟩
    | noClient hc => exact Or.inr (Or.inl hc)
    | shed hs => exact Or.inr (Or.inr (Or.inl hs))
    | missedBefore hrec => exact absurd hrec hnot
    | missed _ _ hrec => exact absurd hrec hnot
    | spent hs => exact Or.inr (Or.inr (Or.inr hs))
    | @ended e l' _ outcome status body ack xs ys _ hp _ hres hlen _ hoe =>
      obtain ⟨-, rfl, -⟩ := answerOrigin_eq_miss.mp (hoe.symm.trans ho)
      -- `f` is a full provider after the last leg, so that leg was the last attempt
      have hany : (ys ++ f :: after).any (fullHistoryProvider config) = true :=
        List.any_eq_true.mpr ⟨f, by simp, fullHistoryProvider_of_provider hq hfull⟩
      have hlast : max ≤ l'.attempt := by
        by_contra hlt
        have hnone := (receive_answer_missed hl hp hres).2.2 (not_le.mp hlt)
        rw [hany] at hnone
        exact absurd hnone (by decide)
      have hle : run.forwards.length ≤ max :=
        (sequentialLoop_course config ctx env rateGate max providers {}).forwards_length
      have hstart : l'.attempt = run.forwards.length := by simpa using hlen
      exact Or.inr (Or.inr (Or.inr (by omega)))
  · intro before after hsplit f hf q hq
    exact hr.full_after hl hsplit hmiss.1 hf hq

theorem no_false_not_found_archive_down :
    let env := missThen (.error "refused")
    let run := sequential shallowAndArchive getTransaction env true ["shallow", "archive"]
    MissBody shallowAndArchive env "shallow" run.reply.body ∧ "archive" ∈ run.forwards := by
  intro env run
  have hlaw := no_false_not_found shallowAndArchive getTransaction env true
    ["shallow", "archive"] rfl "shallow" (by decide +kernel)
  exact ⟨hlaw.1.2.2, by decide +kernel⟩

theorem retryable_not_gap {code : Int} (h : isRetryableRpcCode code = true) :
    isHistoryGapCode code = false := by
  simp only [isRetryableRpcCode, isBehindRpcCode, Bool.or_eq_true, List.contains_iff_mem,
    List.mem_cons, List.not_mem_nil, or_false] at h
  rcases h with (rfl | rfl) | (rfl | rfl) <;> decide

/-- How a run can end on a leg whose body is a retryable error: at the last attempt, or on
a miss of a `recent` provider with no `full` one left. -/
theorem receive_answer_retryable {name : String} {provider : ProviderConfig}
    {rest : List String} {outcome : Outcome} {status : Nat} {body : Body} {ack : Option String}
    {code : Int} (hp : config.provider name = some provider)
    (h : receive config ctx max l name provider rest (env.forward name).result =
      (outcome, .answer status body ack)) (hok : (Reply.of status body).status = .ok)
    (hc : extractRpcErrorCode body = some code) (hr : isRetryableRpcCode code = true) :
    max ≤ l.attempt ∨ (ctx.historyLookup = true ∧ provider.history = .recent ∧
      MissBody config env name body ∧ rest.any (fullHistoryProvider config) = false) := by
  generalize hres : (env.forward name).result = result at h
  have hrec : Received config ctx max l name provider rest result outcome
      (.answer status body ack) := by
    simpa only [h] using receive_received config ctx max l name provider rest result
  cases hrec with
  | @passedStatus r hh hs =>
    rw [Reply.of_status] at hok
    rw [hok] at hs
    exact absurd hs (by decide)
  | @lastMiss r hs hm hlast =>
    by_cases hlt : l.attempt < max
    · rw [Bool.and_eq_true] at hm
      have hrecent : provider.history = .recent := by
        cases hh : provider.history with
        | recent => rfl
        | full => simp [isHistoryMiss, hh, hc, retryable_not_gap hr] at hm
      refine Or.inr ⟨hm.1, hrecent, ⟨?_, r, hres, rfl⟩, hlast hlt⟩
      rw [missedBy_eq hp hres, hs, hm.2]
      rfl
    · exact Or.inl (not_lt.mp hlt)
  | passedError hs hm hlast he => exact Or.inl (hlast (by simp [hc, hr]))
  | answered hs hm he =>
    have hh := hasRpcError_of_code hc
    rw [he] at hh
    exact absurd hh (by decide)

/-- A reply that carries a retryable code leaves no provider of the list untried without a
reason. -/
theorem retryable_answer_law (config : Config) (ctx : RequestCtx) (env : Env) (rateGate : Bool)
    (providers : List String)
    (hok : (sequential config ctx env rateGate providers).reply.status = .ok)
    (code : Int)
    (hc : extractRpcErrorCode (sequential config ctx env rateGate providers).reply.body = some code)
    (hr : isRetryableRpcCode code = true) (before after : List String) (name : String)
    (hsplit : providers = before ++ name :: after) (provider : ProviderConfig)
    (hp : config.provider name = some provider) :
    let run := sequential config ctx env rateGate providers
    name ∈ run.forwards ∨ env.client name = false ∨ Effect.rateLimited name ∈ run.effects ∨
    (∃ p xs ys, before = xs ++ p :: ys ∧ p ∈ run.forwards ∧ provider.history = .recent ∧
      MissedOn config ctx env p (ys ++ name :: after)) ∨
    run.forwards.length = maxAttempts config providers ∨
    ∃ p q xs ys, before = xs ++ p :: ys ∧ p ∈ run.forwards ∧ ctx.historyLookup = true ∧
      config.provider p = some q ∧ q.history = .recent ∧ MissBody config env p run.reply.body ∧
      (ys ++ name :: after).any (fullHistoryProvider config) = false := by
  intro run
  have hrounds : Rounds config ctx env rateGate (maxAttempts config providers) providers {} {} run
      (origin config ctx env rateGate providers) :=
    sequentialLoop_rounds config ctx env rateGate (maxAttempts config providers) providers {} {}
  change run.reply.status = .ok at hok
  change extractRpcErrorCode run.reply.body = some code at hc
  cases hrounds.passed hsplit hp with
  | forwarded hf => exact Or.inl hf
  | noClient hn => exact Or.inr (Or.inl hn)
  | shed hs => exact Or.inr (Or.inr (Or.inl hs))
  | missedBefore _ hm => exact absurd hm (by simp)
  | @missed p xs ys hq hb hf hm =>
    exact Or.inr (Or.inr (Or.inr (Or.inl ⟨p, xs, ys, hb, hf, hq, hm⟩)))
  | spent hs => exact Or.inr (Or.inr (Or.inr (Or.inr (Or.inl hs))))
  | @ended p l' q outcome status body ack xs ys hb hq hf hres hlen hreply _ =>
    rw [hreply] at hok hc
    rcases receive_answer_retryable hq hres hok hc hr with hlast | ⟨hl, hrecent, hm, hnone⟩
    · have hle : run.forwards.length ≤ maxAttempts config providers :=
        (sequentialLoop_course config ctx env rateGate _ providers {}).forwards_length
      have hstart : l'.attempt = run.forwards.length := by simpa using hlen
      exact Or.inr (Or.inr (Or.inr (Or.inr (Or.inl (by omega)))))
    · refine Or.inr (Or.inr (Or.inr (Or.inr (Or.inr ⟨p, q, xs, ys, hb, hf, hl, hq, hrecent, ?_, hnone⟩))))
      rw [hreply]
      exact hm

theorem retryable_answer_law_last_attempt :
    let env := missThen (.ok ⟨.ok, busyError⟩)
    let run := sequential shallowAndArchive getTransaction env true ["shallow", "archive"]
    run.reply.status = .ok ∧ extractRpcErrorCode run.reply.body = some (-32005) ∧
      ("archive" ∈ run.forwards ∨ env.client "archive" = false ∨
        Effect.rateLimited "archive" ∈ run.effects ∨
        (∃ p xs ys, ["shallow"] = xs ++ p :: ys ∧ p ∈ run.forwards ∧ HistoryDepth.full = .recent ∧
          MissedOn shallowAndArchive getTransaction env p (ys ++ "archive" :: [])) ∨
        run.forwards.length = maxAttempts shallowAndArchive ["shallow", "archive"] ∨
        ∃ p q xs ys, ["shallow"] = xs ++ p :: ys ∧ p ∈ run.forwards ∧
          getTransaction.historyLookup = true ∧ shallowAndArchive.provider p = some q ∧
          q.history = .recent ∧ MissBody shallowAndArchive env p run.reply.body ∧
          (ys ++ "archive" :: []).any (fullHistoryProvider shallowAndArchive) = false) := by
  intro env run
  have hok : run.reply.status = .ok := by decide +kernel
  have hc : extractRpcErrorCode run.reply.body = some (-32005) := by decide +kernel
  exact ⟨hok, hc, retryable_answer_law shallowAndArchive getTransaction env true
    ["shallow", "archive"] hok (-32005) hc (by decide) ["shallow"] [] "archive" rfl _ rfl⟩

def Effect.shedBy : Effect → Option String
  | .rateLimited p => some p
  | _ => none

def bothShallow : Config where
  providers := [{ name := "shallow", url := "http://shallow", history := .recent },
    { name := "other", url := "http://other", history := .recent }]
  routing := { fullHistoryMethods := [] }

/-- A busy `recent` provider ahead of another one: its error is a history miss, so it is
returned with the other provider never asked. -/
theorem busy_recent_ends_run :
    let env : Env := ⟨fun _ => true, fun _ => true, fun _ => ⟨.ok ⟨.ok, busyError⟩, 1⟩⟩
    let run := sequential bothShallow getTransaction env true ["shallow", "other"]
    bothShallow.validate = .ok () ∧ run.reply.status = .ok ∧
      extractRpcErrorCode run.reply.body = some (-32005) ∧ isRetryableRpcCode (-32005) = true ∧
      ¬ ("other" ∈ run.forwards ∨ env.client "other" = false ∨
        Effect.rateLimited "other" ∈ run.effects ∨
        (∃ p xs ys, ["shallow"] = xs ++ p :: ys ∧
          MissedOn bothShallow getTransaction env p (ys ++ "other" :: [])) ∨
        run.forwards.length = maxAttempts bothShallow ["shallow", "other"]) := by
  intro env run
  have hf : run.forwards = ["shallow"] := by decide +kernel
  have hsheds : run.effects.filterMap Effect.shedBy = [] := by decide +kernel
  refine ⟨rfl, by decide +kernel, by decide +kernel, by decide, ?_⟩
  rintro (h | h | h | ⟨p, xs, ys, hb, -, -, hfull⟩ | h)
  · rw [hf] at h
    exact absurd h (by decide)
  · exact absurd h (by decide)
  · have hmem : "other" ∈ run.effects.filterMap Effect.shedBy :=
      List.mem_filterMap.mpr ⟨_, h, rfl⟩
    rw [hsheds] at hmem
    exact absurd hmem (by simp)
  · have hys : ys = [] := by
      have hlen := congrArg List.length hb
      simp only [List.length_append, List.length_cons, List.length_nil] at hlen
      exact List.eq_nil_of_length_eq_zero (by omega)
    subst hys
    exact absurd hfull (by decide)
  · rw [hf] at h
    exact absurd h (by decide)

end RpcPlane
