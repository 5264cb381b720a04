import RpcPlane.SequentialLaw

/-! What `sequential` answers after a history miss: the miss, unless a provider asked
later gives an answer that stops the loop. -/

namespace RpcPlane

variable {config : Config} {ctx : RequestCtx} {env : Env} {rateGate : Bool} {max : Nat}

def missedBy (config : Config) (env : Env) (name : String) : Bool :=
  match config.provider name, (env.forward name).result with
  | some provider, .ok r =>
    isSuccess r.status.asU16 && isHistoryMiss provider (extractRpcErrorCode r.body) r.body
  | _, _ => false

def MissBody (config : Config) (env : Env) (name : String) (body : Body) : Prop :=
  missedBy config env name = true ∧ ∃ r, (env.forward name).result = .ok r ∧ r.body = body

def reaches (config : Config) (env : Env) (rateGate missed : Bool) (name : String) : Bool :=
  (config.provider name).any (fun provider =>
    !(missed && provider.history == .recent) && env.client name &&
      !(provider.maxRps.isSome && !env.acquire name && rateGate))

/-- The providers that the loop comes to one after the other as long as every answer
sends it on. -/
def asked (config : Config) (env : Env) (rateGate : Bool) : Bool → List String → List String
  | _, [] => []
  | missed, name :: rest =>
    if reaches config env rateGate missed name then
      name :: asked config env rateGate (missed || missedBy config env name) rest
    else asked config env rateGate missed rest

/-- The answer `r` of the provider forwarded to at position `k` is returned although it is
no miss: no failover follows on its status, nor on its code while an attempt is left. -/
def Stops (config : Config) (env : Env) (max k : Nat) (name : String) (r : HttpResponse) : Prop :=
  (env.forward name).result = .ok r ∧ isRetryableHttp r.status.asU16 = false ∧
    (isSuccess r.status.asU16 = true → missedBy config env name = false ∧
      ((extractRpcErrorCode r.body).any isRetryableRpcCode = true → max ≤ k + 1))

theorem reaches_of_reaches {missed : Bool} {name : String} {provider : ProviderConfig}
    (h : Reaches config env rateGate missed name provider) :
    reaches config env rateGate missed name = true := by
  have hdeep : (missed && provider.history == .recent) = false := by
    cases hm : missed with
    | false => rfl
    | true => rw [h.deep hm]; rfl
  simp only [reaches, h.configured, Option.any_some, hdeep, h.client, h.token, Bool.not_false,
    Bool.and_self]

theorem not_reaches {missed : Bool} {name : String}
    (h : ∀ provider, ¬ Reaches config env rateGate missed name provider) :
    reaches config env rateGate missed name = false := by
  by_contra hr
  simp only [reaches, Bool.not_eq_false, Option.any_eq_true, Bool.and_eq_true,
    Bool.not_eq_true'] at hr
  obtain ⟨provider, hp, ⟨hdeep, hclient⟩, htoken⟩ := hr
  refine h provider ⟨hp, ?_, hclient, htoken⟩
  rintro rfl
  cases hh : provider.history with
  | full => rfl
  | recent => simp [hh] at hdeep

theorem fullHistoryProvider_of_provider {name : String} {provider : ProviderConfig}
    (hp : config.provider name = some provider) (hf : provider.history = .full) :
    fullHistoryProvider config name = true := by
  obtain ⟨hm, hn⟩ := key_of_find? hp
  exact List.any_eq_true.mpr ⟨provider, hm, by simp [hn, hf]⟩

theorem asked_eq_nil {names : List String} (h : names.any (fullHistoryProvider config) = false) :
    asked config env rateGate true names = [] := by
  induction names with
  | nil => rfl
  | cons name rest ih =>
    simp only [List.any_cons, Bool.or_eq_false_iff] at h
    have hr : reaches config env rateGate true name = false := by
      apply not_reaches
      intro provider hp
      have hh := fullHistoryProvider_of_provider hp.configured (hp.deep rfl)
      rw [h.1] at hh
      exact absurd hh (by decide)
    simp [asked, hr, ih h.2]

theorem missedBy_eq {name : String} {provider : ProviderConfig} {r : HttpResponse}
    (hp : config.provider name = some provider) (hr : (env.forward name).result = .ok r) :
    missedBy config env name =
      (isSuccess r.status.asU16 && isHistoryMiss provider (extractRpcErrorCode r.body) r.body) := by
  simp [missedBy, hp, hr]

theorem missedBy_error {name : String} {e : String} (hr : (env.forward name).result = .error e) :
    missedBy config env name = false := by
  cases hp : config.provider name <;> simp [missedBy, hr, hp]

theorem not_stops_of_missed {k : Nat} {name : String} {r : HttpResponse}
    (h : missedBy config env name = true) : ¬ Stops config env max k name r := by
  rintro ⟨hr, -, hstop⟩
  have hs : isSuccess r.status.asU16 = true := by
    cases hp : config.provider name with
    | none => simp [missedBy, hp] at h
    | some p =>
      rw [missedBy_eq hp hr, Bool.and_eq_true] at h
      exact h.1
  rw [(hstop hs).1] at h
  exact absurd h (by decide)

theorem receive_retry_miss {l l' : Loop} {name : String} {provider : ProviderConfig}
    {rest : List String} {outcome : Outcome} (hl : ctx.historyLookup = true)
    (hp : config.provider name = some provider)
    (h : receive config ctx max l.spend name provider rest (env.forward name).result =
      (outcome, .retry l')) :
    (∀ r, ¬ Stops config env (max - l.attempt) 0 name r) ∧
      l'.miss.isSome = (l.miss.isSome || missedBy config env name) ∧
      ∀ b, l'.miss = some b → l.miss = some b ∨ MissBody config env name b := by
  generalize hres : (env.forward name).result = result at h
  have hr : Received config ctx max l.spend name provider rest result outcome (.retry l') := by
    simpa only [h] using receive_received config ctx max l.spend name provider rest result
  cases hr with
  | transportError =>
    refine ⟨?_, by simp [missedBy_error hres, Loop.spend], fun b hb => Or.inl hb⟩
    rintro r ⟨hr, -⟩
    rw [hres] at hr
    cases hr
  | @retryableHttp r hh =>
    have hm : missedBy config env name = false := by
      simp [missedBy_eq hp hres, isSuccess_of_retryableHttp hh]
    refine ⟨?_, by simp [hm, Loop.spend], fun b hb => Or.inl hb⟩
    rintro r' ⟨hr, hn, -⟩
    obtain rfl : r = r' := Except.ok.inj (hres.symm.trans hr)
    rw [hh] at hn
    exact absurd hn (by decide)
  | @missed r hs hm hleft hfull =>
    have hmiss : missedBy config env name = true := by
      simpa [missedBy_eq hp hres, hs, hl] using hm
    refine ⟨fun r' => not_stops_of_missed hmiss, by simp [hmiss], ?_⟩
    intro b hb
    cases hl' : l.miss with
    | none =>
      obtain rfl : r.body = b := by simpa [Loop.spend, hl'] using hb
      exact Or.inr ⟨hmiss, r, hres, rfl⟩
    | some b' =>
      obtain rfl : b' = b := by simpa [Loop.spend, hl'] using hb
      exact Or.inl rfl
  | @retryableCode r code hs hm hc hretry hleft reason =>
    have hmiss : missedBy config env name = false := by
      simpa [missedBy_eq hp hres, hs, hl] using hm
    refine ⟨?_, by simp [hmiss, Loop.spend], fun b hb => Or.inl hb⟩
    rintro r' ⟨hr, -, hstop⟩
    obtain rfl : r = r' := Except.ok.inj (hres.symm.trans hr)
    have hlast := (hstop hs).2 (by simp [hc, hretry])
    simp only [Loop.spend] at hleft
    omega

theorem receive_answer_miss {l : Loop} {name : String} {provider : ProviderConfig}
    {rest : List String} {outcome : Outcome} {status : Nat} {body : Body} {ack : Option String}
    (hl : ctx.historyLookup = true) (hp : config.provider name = some provider)
    (h : receive config ctx max l.spend name provider rest (env.forward name).result =
      (outcome, .answer status body ack)) :
    (MissBody config env name body ∧ status = 200 ∧
      (asked config env rateGate true rest).take (max - (l.attempt + 1)) = []) ∨
    ∃ r, Stops config env (max - l.attempt) 0 name r ∧ r.body = body ∧
      status = if isSuccess r.status.asU16 then 200 else r.status.asU16 := by
  generalize hres : (env.forward name).result = result at h
  have hr : Received config ctx max l.spend name provider rest result outcome
      (.answer status body ack) := by
    simpa only [h] using receive_received config ctx max l.spend name provider rest result
  cases hr with
  | @passedStatus r hh hs =>
    exact Or.inr ⟨r, ⟨hres, hh, fun hs' => by rw [hs] at hs'; exact absurd hs' (by decide)⟩, rfl,
      by simp [hs]⟩
  | @lastMiss r hs hm hlast =>
    have hmiss : missedBy config env name = true := by
      simpa [missedBy_eq hp hres, hs, hl] using hm
    refine Or.inl ⟨⟨hmiss, r, hres, rfl⟩, rfl, ?_⟩
    by_cases hlt : l.attempt + 1 < max
    · rw [asked_eq_nil (hlast hlt), List.take_nil]
    · rw [show max - (l.attempt + 1) = 0 by omega, List.take_zero]
  | @passedError r hs hm hlast he =>
    have hmiss : missedBy config env name = false := by
      simpa [missedBy_eq hp hres, hs, hl] using hm
    refine Or.inr ⟨r, ⟨hres, retryableHttp_of_success hs, fun _ => ⟨hmiss, fun hc => ?_⟩⟩, rfl, by simp [hs]⟩
    have hh := hlast hc
    simp only [Loop.spend] at hh
    omega
  | @answered r hs hm he =>
    have hmiss : missedBy config env name = false := by
      simpa [missedBy_eq hp hres, hs, hl] using hm
    refine Or.inr ⟨r, ⟨hres, retryableHttp_of_success hs, fun _ => ⟨hmiss, fun hc => ?_⟩⟩, rfl, by simp [hs]⟩
    obtain ⟨code, hcode, -⟩ := (Option.any_eq_true _ _).mp hc
    have hh := hasRpcError_of_code hcode
    rw [he] at hh
    exact absurd hh (by decide)

/-- How a run with `left` attempts ends: it goes through the whole walk and answers the
miss kept so far or met on the way, or an answer stops it. -/
inductive Ending (config : Config) (env : Env) (left : Nat) (kept : Option Body)
    (walk : List String) (run : Run) : Prop where
  | through (hf : run.forwards = walk)
    (hs : ∀ k name r, walk[k]? = some name → ¬ Stops config env left k name r)
    (hreply : kept.isSome = true ∨ (∃ name ∈ walk, missedBy config env name = true) →
      ∃ b, run.reply = .of 200 b ∧ (kept = some b ∨ ∃ name ∈ walk, MissBody config env name b))
  | stopped {k : Nat} {name : String} {r : HttpResponse} (hk : walk[k]? = some name)
    (hs : Stops config env left k name r)
    (hfirst : ∀ j q r', j < k → walk[j]? = some q → ¬ Stops config env left j q r')
    (hf : run.forwards = walk.take (k + 1))
    (hreply : run.reply = .of (if isSuccess r.status.asU16 then 200 else r.status.asU16) r.body)

theorem stops_succ {left k : Nat} {name : String} {r : HttpResponse} :
    Stops config env (left + 1) (k + 1) name r ↔ Stops config env left k name r := by
  simp only [Stops, Nat.add_le_add_iff_right]

theorem Ending.cons {left : Nat} {kept kept' : Option Body} {walk : List String} {run run' : Run}
    {name : String} (h : Ending config env left kept' walk run)
    (hs : ∀ r, ¬ Stops config env (left + 1) 0 name r)
    (hsome : kept'.isSome = (kept.isSome || missedBy config env name))
    (hkept : ∀ b, kept' = some b → kept = some b ∨ MissBody config env name b)
    (hf : run'.forwards = name :: run.forwards) (hreply : run'.reply = run.reply) :
    Ending config env (left + 1) kept (name :: walk) run' := by
  have hnone : ∀ j q r, (∀ j' q', j' < j → walk[j']? = some q' →
      ¬ Stops config env left j' q' r) → ∀ i, i < j + 1 → (name :: walk)[i]? = some q →
      ¬ Stops config env (left + 1) i q r := by
    intro j q r hh i hi hq
    cases i with
    | zero =>
      obtain rfl : name = q := by simpa using hq
      exact hs r
    | succ i =>
      rw [stops_succ]
      exact hh i q (by omega) (by simpa using hq)
  cases h with
  | through hfw hst hrep =>
    refine .through (by rw [hf, hfw]) ?_ ?_
    · intro k q r hq
      exact hnone k q r (fun j q' _ hq' => hst j q' r hq') k (by omega) hq
    · intro hmiss
      have hmiss' : kept'.isSome = true ∨ ∃ q ∈ walk, missedBy config env q = true := by
        rw [hsome, Bool.or_eq_true]
        rcases hmiss with hm | ⟨q, hq, hm⟩
        · exact Or.inl (Or.inl hm)
        · rcases List.mem_cons.mp hq with rfl | hq
          · exact Or.inl (Or.inr hm)
          · exact Or.inr ⟨q, hq, hm⟩
      obtain ⟨b, hb, hwhere⟩ := hrep hmiss'
      refine ⟨b, by rw [hreply, hb], ?_⟩
      rcases hwhere with hk | ⟨q, hq, hm⟩
      · rcases hkept b hk with hk | hm
        · exact Or.inl hk
        · exact Or.inr ⟨name, List.mem_cons_self, hm⟩
      · exact Or.inr ⟨q, List.mem_cons_of_mem _ hq, hm⟩
  | @stopped k q r hk hst hfirst hfw hrep =>
    refine .stopped (k := k + 1) (by simpa using hk) (stops_succ.mpr hst) ?_
      (by rw [hf, hfw, List.take_succ_cons]) (by rw [hreply, hrep])
    intro j q' r' hj hq'
    exact hnone k q' r' (fun j' q'' hj' hq'' => hfirst j' q'' r' hj' hq'') j hj hq'

variable {names : List String} {l : Loop} {run : Run}

theorem exhausted_ending (ctx : RequestCtx) (l : Loop) (left : Nat) :
    Ending config env left l.miss [] (exhausted ctx l) := by
  refine .through (exhausted_forwards ctx l) (by simp) ?_
  intro h
  obtain ⟨b, hb⟩ := Option.isSome_iff_exists.mp (by simpa using h)
  exact ⟨b, by simp [exhausted, hb], Or.inl hb⟩

theorem Course.ending (hl : ctx.historyLookup = true)
    (h : Course config ctx env rateGate max names l run) :
    Ending config env (max - l.attempt) l.miss
      ((asked config env rateGate l.miss.isSome names).take (max - l.attempt)) run := by
  induction h with
  | @exhausted names l h =>
    have hnil : (asked config env rateGate l.miss.isSome names).take (max - l.attempt) = [] := by
      rcases h with rfl | h
      · rw [asked, List.take_nil]
      · rw [Nat.sub_eq_zero_of_le h, List.take_zero]
    rw [hnil]
    exact exhausted_ending ctx l _
  | skipped _ h _ ih =>
    rw [asked, if_neg (by simp [not_reaches h])]
    exact ih
  | shed _ h _ ih =>
    rw [asked, if_neg (by simp [not_reaches h])]
    cases ih with
    | through hf hs hreply => exact .through hf hs hreply
    | stopped hk hs hfirst hf hreply => exact .stopped hk hs hfirst hf hreply
  | @retried name rest l l' run provider outcome hlt hp hr _ ih =>
    obtain ⟨hs, hsome, hkept⟩ := receive_retry_miss hl hp.configured hr
    obtain ⟨-, ha, -⟩ := receive_retry hr
    have hleft : max - l.attempt = (max - l'.attempt) + 1 := by
      simp only [ha, Loop.spend]
      omega
    rw [asked, if_pos (reaches_of_reaches hp), ← hsome, hleft, List.take_succ_cons]
    rw [hleft] at hs
    exact ih.cons hs hsome hkept (by simp) rfl
  | @answered name rest l provider outcome status body ack hlt hp hr =>
    obtain ⟨hf, -⟩ := answered_projections ctx l name outcome
      (env.forward name).latencyMs (ctx.finish body status ack) (.of status body)
    have hleft : max - l.attempt = (max - (l.attempt + 1)) + 1 := by omega
    rw [asked, if_pos (reaches_of_reaches hp)]
    rcases receive_answer_miss hl hp.configured hr with ⟨hm, rfl, hnil⟩ | ⟨r, hs, rfl, rfl⟩
    · have hwalk : (name :: asked config env rateGate
          (l.miss.isSome || missedBy config env name) rest).take (max - l.attempt) = [name] := by
        rw [hleft, List.take_succ_cons, hm.1, Bool.or_true, hnil]
      rw [hwalk]
      refine .through hf ?_ (fun _ => ⟨body, rfl, Or.inr ⟨name, List.mem_singleton_self _, hm⟩⟩)
      intro k q r hq
      obtain ⟨-, rfl⟩ : k = 0 ∧ name = q := by simpa [List.getElem?_singleton] using hq
      exact not_stops_of_missed hm.1
    · refine .stopped (k := 0) ?_ hs (by simp) ?_ rfl
      · rw [hleft]; rfl
      · rw [hf, hleft]; rfl

/-- The answers that take the place of a miss: a status that is neither a success nor
retryable, an error without a code, and a retryable code at the last attempt. -/
def Displaces (config : Config) (env : Env) (max k : Nat) (name : String) (r : HttpResponse) :
    Prop :=
  (env.forward name).result = .ok r ∧ missedBy config env name = false ∧
    ((isSuccess r.status.asU16 = false ∧ isRetryableHttp r.status.asU16 = false) ∨
      (isSuccess r.status.asU16 = true ∧ hasRpcError r.body = true ∧
        ∀ code, extractRpcErrorCode r.body = some code →
          isRetryableRpcCode code = true ∧ max ≤ k + 1))

theorem stops_of_displaces {k : Nat} {name : String} {r : HttpResponse}
    (h : Displaces config env max k name r) : Stops config env max k name r := by
  obtain ⟨hr, hm, ⟨hs, hh⟩ | ⟨hs, -, hcode⟩⟩ := h
  · exact ⟨hr, hh, fun hs' => absurd (hs.symm.trans hs') (by decide)⟩
  · refine ⟨hr, retryableHttp_of_success hs, fun _ => ⟨hm, fun hc => ?_⟩⟩
    obtain ⟨code, hc, -⟩ := (Option.any_eq_true _ _).mp hc
    exact (hcode code hc).2

def MissReturned (config : Config) (env : Env) (run : Run) : Prop :=
  run.reply.status.asU16 = 200 ∧ ∃ name ∈ run.forwards, MissBody config env name run.reply.body

/-- The first answer of the walk that displaces a miss, if there is one, is a success that
repeats the body of a miss before it. -/
def DisplacedByCopy (config : Config) (env : Env) (max : Nat) (walk : List String) : Prop :=
  ∀ k name r, walk[k]? = some name → Displaces config env max k name r →
    (∀ j q r', j < k → walk[j]? = some q → ¬ Displaces config env max j q r') →
    isSuccess r.status.asU16 = true ∧
      ∃ j q, j < k ∧ walk[j]? = some q ∧ MissBody config env q r.body

theorem displacedByCopy_at {walk : List String} {k : Nat} {name : String} {r : HttpResponse}
    (hk : walk[k]? = some name) (hd : Displaces config env max k name r)
    (hfirst : ∀ j q r', j < k → walk[j]? = some q → ¬ Displaces config env max j q r') :
    DisplacedByCopy config env max walk ↔ isSuccess r.status.asU16 = true ∧
      ∃ j q, j < k ∧ walk[j]? = some q ∧ MissBody config env q r.body := by
  constructor
  · intro h
    exact h k name r hk hd hfirst
  · intro h k' name' r' hk' hd' hfirst'
    rcases lt_trichotomy k' k with hlt | rfl | hlt
    · exact absurd hd' (hfirst k' name' r' hlt hk')
    · obtain rfl : name = name' := Option.some.inj (hk.symm.trans hk')
      obtain rfl : r = r' := Except.ok.inj (hd.1.symm.trans hd'.1)
      exact h
    · exact absurd hd (hfirst' k name r hlt hk)

theorem displaces_of_stops {k : Nat} {name : String} {r : HttpResponse}
    (hs : Stops config env max k name r)
    (hok : ∀ provider, config.provider name = some provider →
      (env.forward name).outcome true provider ≠ .ok)
    (hp : (config.provider name).isSome = true)
    (hcode : ∀ code, extractRpcErrorCode r.body = some code → isRetryableRpcCode code = false →
      missedBy config env name = true) : Displaces config env max k name r := by
  obtain ⟨hr, hh, hstop⟩ := hs
  obtain ⟨provider, hp⟩ := Option.isSome_iff_exists.mp hp
  cases hsucc : isSuccess r.status.asU16 with
  | false =>
    refine ⟨hr, ?_, Or.inl ⟨hsucc, hh⟩⟩
    simp [missedBy_eq hp hr, hsucc]
  | true =>
    obtain ⟨hm, hlast⟩ := hstop hsucc
    refine ⟨hr, hm, Or.inr ⟨hsucc, ?_, ?_⟩⟩
    · by_contra he
      apply hok provider hp
      have hmiss : isHistoryMiss provider (extractRpcErrorCode r.body) r.body = false := by
        simpa [missedBy_eq hp hr, hsucc] using hm
      simp [Leg.outcome, hr, Outcome.fromLeg, hsucc, hmiss, he]
    · intro code hc
      have hretry : isRetryableRpcCode code = true := by
        by_contra hn
        have hmm := hcode code hc (by simpa using hn)
        rw [hm] at hmm
        exact absurd hmm (by decide)
      exact ⟨hretry, hlast (by simp [hc, hretry])⟩

theorem Reply.of_status (status : StatusCode) (body : Body) :
    (Reply.of status.asU16 body).status = status := by
  simp [Reply.of]

theorem missReturned_of_stopped {walk : List String} {k : Nat} {name : String} {r : HttpResponse}
    (hk : walk[k]? = some name) (hs : Stops config env max k name r)
    (hf : run.forwards = walk.take (k + 1))
    (hreply : run.reply = .of (if isSuccess r.status.asU16 then 200 else r.status.asU16) r.body) :
    MissReturned config env run ↔ isSuccess r.status.asU16 = true ∧
      ∃ j q, j < k ∧ walk[j]? = some q ∧ MissBody config env q r.body := by
  rw [MissReturned, hf, hreply]
  cases hsucc : isSuccess r.status.asU16 with
  | false =>
    simp only [Bool.false_eq_true, if_false, Reply.of_status, false_and, iff_false, not_and]
    intro h200
    rw [h200] at hsucc
    exact absurd hsucc (by decide)
  | true =>
    simp only [if_true, Reply.of, true_and]
    refine (and_iff_right rfl).trans ?_
    constructor
    · rintro ⟨q, hq, hm⟩
      obtain ⟨j, hj⟩ := List.mem_iff_getElem?.mp hq
      have hlt : j < k + 1 := by
        by_contra hge
        rw [List.getElem?_take, if_neg hge] at hj
        cases hj
      rw [List.getElem?_take, if_pos hlt] at hj
      rcases Nat.lt_succ_iff_lt_or_eq.mp hlt with hlt | rfl
      · exact ⟨j, q, hlt, hj, hm⟩
      · obtain rfl : name = q := Option.some.inj (hk.symm.trans hj)
        exact absurd hs (not_stops_of_missed hm.1)
    · rintro ⟨j, q, hj, hq, hm⟩
      refine ⟨q, List.mem_iff_getElem?.mpr ⟨j, ?_⟩, hm⟩
      rw [List.getElem?_take, if_pos (by omega), hq]

/-- When some forward of a history lookup missed and none gave a better answer, the miss
is returned except where an answer displaces it. -/
theorem miss_returned_iff (config : Config) (ctx : RequestCtx) (env : Env) (rateGate : Bool)
    (providers : List String) (hl : ctx.historyLookup = true)
    (hmiss : ∃ name ∈ (sequential config ctx env rateGate providers).forwards,
      missedBy config env name = true)
    (hok : ∀ leg ∈ (sequential config ctx env rateGate providers).records, leg.outcome ≠ .ok)
    (hcode : ∀ name ∈ (sequential config ctx env rateGate providers).forwards, ∀ r code,
      (env.forward name).result = .ok r → extractRpcErrorCode r.body = some code →
      isRetryableRpcCode code = false → missedBy config env name = true) :
    MissReturned config env (sequential config ctx env rateGate providers) ↔
      DisplacedByCopy config env (maxAttempts config providers)
        ((asked config env rateGate false providers).take (maxAttempts config providers)) := by
  have hcourse := sequentialLoop_course config ctx env rateGate (maxAttempts config providers)
    providers {}
  have hend := hcourse.ending hl
  simp only [Nat.sub_zero, Option.isSome_none] at hend
  change Ending _ _ _ _ _ (sequential config ctx env rateGate providers) at hend
  change Course _ _ _ _ _ _ _ (sequential config ctx env rateGate providers) at hcourse
  generalize sequential config ctx env rateGate providers = run at *
  generalize (asked config env rateGate false providers).take (maxAttempts config providers) =
    walk at *
  generalize maxAttempts config providers = max at *
  cases hend with
  | through hf hs hreply =>
    have hreturned : MissReturned config env run := by
      obtain ⟨b, hb, hk | hm⟩ := hreply (Or.inr (hf ▸ hmiss))
      · exact absurd hk (by simp)
      · rw [MissReturned, hb, hf]
        exact ⟨rfl, hm⟩
    refine iff_of_true hreturned ?_
    intro k name r hk hd
    exact absurd (stops_of_displaces hd) (hs k name r hk)
  | @stopped k name r hk hs hfirst hf hreply =>
    have hmem : name ∈ run.forwards := by
      rw [hf]
      exact List.mem_iff_getElem?.mpr ⟨k, by simpa [List.getElem?_take] using hk⟩
    have hd : Displaces config env max k name r := by
      rw [← hcourse.records_eq] at hmem
      obtain ⟨leg, hleg, rfl⟩ := List.mem_map.mp hmem
      obtain ⟨provider, hp, ho⟩ := hcourse.records_outcome leg hleg
      refine displaces_of_stops hs ?_ (by simp [hp]) ?_
      · intro q hq
        obtain rfl : provider = q := Option.some.inj (hp.symm.trans hq)
        rw [← hl, ← ho]
        exact hok leg hleg
      · intro code hc hn
        refine hcode _ ?_ r code hs.1 hc hn
        rw [← hcourse.records_eq]
        exact List.mem_map_of_mem hleg
    rw [missReturned_of_stopped hk hs hf hreply]
    exact (displacedByCopy_at hk hd (fun j q r' hj hq hd' =>
      hfirst j q r' hj hq (stops_of_displaces hd'))).symm

def nullResult : Body := .object (utf8Bytes "\"result\":null\x7d") [(⟨"result", false⟩, .null)]

def busyError : Body := jsonErrorBody (-32005) "node is busy"

def shallowAndArchive : Config where
  providers := [{ name := "shallow", url := "http://shallow", history := .recent },
    { name := "archive", url := "http://archive" }]

def getTransaction : RequestCtx where
  method := "getTransaction"
  body := .object (utf8Bytes "\"method\":\"getTransaction\"\x7d")
    [(⟨"method", false⟩, .str ⟨"getTransaction", false⟩)]
  count := 1
  historyLookup := true
  transaction := .none
  historical := .single
  observedTips := {}

def missThen (last : Except String HttpResponse) : Env where
  client := fun _ => true
  acquire := fun _ => true
  forward := fun name => if name = "shallow" then ⟨.ok ⟨.ok, nullResult⟩, 1⟩ else ⟨last, 1⟩

theorem miss_returned_archive_down :
    MissReturned shallowAndArchive (missThen (.error "refused"))
      (sequential shallowAndArchive getTransaction (missThen (.error "refused")) true
        ["shallow", "archive"]) := by
  have hf : (sequential shallowAndArchive getTransaction (missThen (.error "refused")) true
      ["shallow", "archive"]).forwards = ["shallow", "archive"] := by decide +kernel
  have hm : missedBy shallowAndArchive (missThen (.error "refused")) "shallow" = true := by
    decide +kernel
  refine (miss_returned_iff _ _ _ _ _ rfl ?_ (by decide +kernel) ?_).mpr ?_
  · rw [hf]
    exact ⟨"shallow", by simp, hm⟩
  · rw [hf]
    intro name hn r code hr
    rcases List.mem_pair.mp hn with rfl | rfl
    · exact fun _ _ => hm
    · simp [missThen] at hr
  · intro k name r hk hd
    have hw : (asked shallowAndArchive (missThen (.error "refused")) true false
        ["shallow", "archive"]).take (maxAttempts shallowAndArchive ["shallow", "archive"]) =
        ["shallow", "archive"] := by decide +kernel
    rw [hw] at hk
    rcases List.mem_pair.mp (List.mem_of_getElem? hk) with rfl | rfl
    · exact absurd (hm.symm.trans hd.2.1) (by decide)
    · exact absurd hd.1 (by simp [missThen])

/-- A busy archive at the last attempt: its retryable error goes to the client in place
of the miss. -/
theorem busy_archive_displaces_miss :
    let env := missThen (.ok ⟨.ok, busyError⟩)
    let run := sequential shallowAndArchive getTransaction env true ["shallow", "archive"]
    getTransaction.historyLookup = true ∧
      (∃ name ∈ run.forwards, missedBy shallowAndArchive env name = true) ∧
      (∀ leg ∈ run.records, leg.outcome ≠ .ok) ∧
      (∀ name ∈ run.forwards, ∀ r code, (env.forward name).result = .ok r →
        extractRpcErrorCode r.body = some code → isRetryableRpcCode code = false →
        missedBy shallowAndArchive env name = true) ∧
      ¬ MissReturned shallowAndArchive env run := by
  intro env run
  have hf : run.forwards = ["shallow", "archive"] := by decide +kernel
  have hm : missedBy shallowAndArchive env "shallow" = true := by decide +kernel
  refine ⟨rfl, by rw [hf]; exact ⟨"shallow", by simp, hm⟩, by decide +kernel, ?_, ?_⟩
  · rw [hf]
    intro name hn r code hr hc hcode
    rcases List.mem_pair.mp hn with rfl | rfl
    · exact hm
    · obtain rfl : ⟨.ok, busyError⟩ = r := Except.ok.inj hr
      obtain rfl : -32005 = code := Option.some.inj hc
      exact absurd hcode (by decide)
  · rintro ⟨-, name, hn, hm, r, hr, hb⟩
    have he : hasRpcError run.reply.body = true := by decide +kernel
    rw [hf] at hn
    rcases List.mem_pair.mp hn with rfl | rfl
    · obtain rfl : ⟨.ok, nullResult⟩ = r := Except.ok.inj hr
      rw [← hb] at he
      exact absurd he (by decide)
    · exact absurd hm (by decide +kernel)

end RpcPlane
