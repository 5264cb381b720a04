import RpcPlane.SequentialMiss

/-! The rounds of `sequential` with the reason for every provider passed over, and whose
answer the run replies with. -/

namespace RpcPlane

variable {config : Config} {ctx : RequestCtx} {env : Env} {rateGate : Bool} {max : Nat}

/-- Whose answer a run replies with: the final answer of a provider, the miss or the
retryable error of one the loop went on from, or nobody's. -/
inductive Origin where
  | final (name : String)
  | miss (name : String)
  | retried (name : String)
  | failed
  deriving DecidableEq

/-- The providers whose bodies the locals `miss` and `retried` of the loop hold. -/
structure Kept where
  miss : Option String := none
  retried : Option String := none

def Kept.origin (k : Kept) : Origin :=
  match k.miss with
  | some name => .miss name
  | none =>
    match k.retried with
    | some name => .retried name
    | none => .failed

def Kept.retry (k : Kept) (name : String) (outcome : Outcome)
    (result : Except String HttpResponse) : Kept :=
  match result with
  | .ok r =>
    if isSuccess r.status.asU16 then
      if outcome = .miss then { k with miss := some (k.miss.getD name) }
      else { k with retried := some name }
    else k
  | .error _ => k

def answerOrigin (ctx : RequestCtx) (name : String) (outcome : Outcome) : Origin :=
  if ctx.historyLookup && outcome = .miss then .miss name else .final name

def originLoop (config : Config) (ctx : RequestCtx) (env : Env) (rateGate : Bool) (max : Nat) :
    List String → Loop → Kept → Origin
  | [], _, k => k.origin
  | name :: rest, l, k =>
    match candidate config env.client max l name with
    | .stop => k.origin
    | .skip => originLoop config ctx env rateGate max rest l k
    | .reach provider =>
      if provider.maxRps.isSome && !env.acquire name && rateGate then
        originLoop config ctx env rateGate max rest l k
      else
        let leg := env.forward name
        let received := receive config ctx max l.spend name provider rest leg.result
        match received.2 with
        | .retry l' =>
          originLoop config ctx env rateGate max rest l' (k.retry name received.1 leg.result)
        | .answer _ _ _ => answerOrigin ctx name received.1

def origin (config : Config) (ctx : RequestCtx) (env : Env) (rateGate : Bool)
    (providers : List String) : Origin :=
  originLoop config ctx env rateGate (maxAttempts config providers) providers {} {}

/-- `Course` with the reason for each skip and the origin of the reply. -/
inductive Rounds (config : Config) (ctx : RequestCtx) (env : Env) (rateGate : Bool)
    (max : Nat) : List String → Loop → Kept → Run → Origin → Prop where
  | exhausted {names l k} (h : names = [] ∨ max ≤ l.attempt) :
    Rounds config ctx env rateGate max names l k (exhausted ctx l) k.origin
  | skipped {name rest l k run o} (hlt : l.attempt < max)
    (h : ∀ p, config.provider name = some p →
      (l.miss.isSome = true ∧ p.history = .recent) ∨ env.client name = false)
    (tail : Rounds config ctx env rateGate max rest l k run o) :
    Rounds config ctx env rateGate max (name :: rest) l k run o
  | shed {name rest l k run o} (hlt : l.attempt < max)
    (tail : Rounds config ctx env rateGate max rest l k run o) :
    Rounds config ctx env rateGate max (name :: rest) l k (run.after [.rateLimited name]) o
  | retried {name rest l l' k run o provider outcome} (hlt : l.attempt < max)
    (hp : Reaches config env rateGate l.miss.isSome name provider)
    (h : receive config ctx max l.spend name provider rest (env.forward name).result =
      (outcome, .retry l'))
    (tail : Rounds config ctx env rateGate max rest l'
      (k.retry name outcome (env.forward name).result) run o) :
    Rounds config ctx env rateGate max (name :: rest) l k
      (run.after (forwardEffects ctx l name outcome (env.forward name).latencyMs)) o
  | answered {name rest l k provider outcome status body ack} (hlt : l.attempt < max)
    (hp : Reaches config env rateGate l.miss.isSome name provider)
    (h : receive config ctx max l.spend name provider rest (env.forward name).result =
      (outcome, .answer status body ack)) :
    Rounds config ctx env rateGate max (name :: rest) l k
      ⟨forwardEffects ctx l name outcome (env.forward name).latencyMs ++
        [.finish (ctx.finish body status ack)], .of status body⟩
      (answerOrigin ctx name outcome)

theorem sequentialLoop_rounds (config : Config) (ctx : RequestCtx) (env : Env) (rateGate : Bool)
    (max : Nat) (names : List String) (l : Loop) (k : Kept) :
    Rounds config ctx env rateGate max names l k
      (sequentialLoop config ctx env rateGate max names l)
      (originLoop config ctx env rateGate max names l k) := by
  induction names generalizing l k with
  | nil => exact .exhausted (Or.inl rfl)
  | cons name rest ih =>
    unfold sequentialLoop originLoop
    rcases candidate_cases config env.client max l name with
      ⟨hc, hmax⟩ | ⟨hc, hlt, hskip⟩ | ⟨p, hc, hlt, hp, hmiss, hclient⟩
    · simp only [hc]
      exact .exhausted (Or.inr hmax)
    · simp only [hc]
      exact .skipped hlt hskip (ih l k)
    · simp only [hc]
      by_cases hshed : p.maxRps.isSome && !env.acquire name && rateGate
      · simp only [hshed, if_true]
        exact .shed hlt (ih l k)
      · rw [if_neg hshed, if_neg hshed]
        have hreach : Reaches config env rateGate l.miss.isSome name p :=
          ⟨hp, hmiss, hclient, by simpa using hshed⟩
        cases hr : receive config ctx max l.spend name p rest (env.forward name).result with
        | mk outcome next =>
          cases next with
          | retry l' => exact .retried hlt hreach hr (ih l' _)
          | answer status body ack => exact .answered hlt hreach hr

variable {names : List String} {l : Loop} {k : Kept} {run : Run} {o : Origin}

/-- A history miss of `name` that made the loop go on, with `rest` left of the list. -/
def MissedOn (config : Config) (ctx : RequestCtx) (env : Env) (name : String)
    (rest : List String) : Prop :=
  ctx.historyLookup = true ∧ missedBy config env name = true ∧
    rest.any (fullHistoryProvider config) = true

theorem receive_retry_missedOn {l' : Loop} {name : String} {provider : ProviderConfig}
    {rest : List String} {outcome : Outcome} (hp : config.provider name = some provider)
    (h : receive config ctx max l name provider rest (env.forward name).result =
      (outcome, .retry l')) (hm : l'.miss.isSome = true) :
    l.miss.isSome = true ∨ MissedOn config ctx env name rest := by
  generalize hres : (env.forward name).result = result at h
  have hr : Received config ctx max l name provider rest result outcome (.retry l') := by
    simpa only [h] using receive_received config ctx max l name provider rest result
  cases hr with
  | transportError => exact Or.inl hm
  | retryableHttp => exact Or.inl hm
  | @missed r hs hmiss hleft hfull =>
    rw [Bool.and_eq_true] at hmiss
    refine Or.inr ⟨hmiss.1, ?_, hfull⟩
    rw [missedBy_eq hp hres, hs, hmiss.2]
    rfl
  | retryableCode => exact Or.inl hm

/-- What became of the configured provider `name` between `before` and `after` in the list
of a loop that starts at `l`. -/
inductive Passed (config : Config) (ctx : RequestCtx) (env : Env) (max : Nat) (l : Loop)
    (before : List String) (name : String) (provider : ProviderConfig) (after : List String)
    (run : Run) (o : Origin) : Prop where
  | forwarded (h : name ∈ run.forwards)
  | noClient (h : env.client name = false)
  | shed (h : Effect.rateLimited name ∈ run.effects)
  | missedBefore (hq : provider.history = .recent) (h : l.miss.isSome = true)
  | missed {p} (xs ys : List String) (hq : provider.history = .recent) (hb : before = xs ++ p :: ys)
    (hf : p ∈ run.forwards) (h : MissedOn config ctx env p (ys ++ name :: after))
  | spent (h : run.forwards.length = max - l.attempt)
  | ended {p l' q outcome status body ack} (xs ys : List String) (hb : before = xs ++ p :: ys)
    (hp : config.provider p = some q) (hf : p ∈ run.forwards)
    (h : receive config ctx max l' p q (ys ++ name :: after) (env.forward p).result =
      (outcome, .answer status body ack))
    (hl : l'.attempt = l.attempt + run.forwards.length)
    (hr : run.reply = .of status body) (ho : o = answerOrigin ctx p outcome)

section

variable {before after : List String} {name : String} {provider : ProviderConfig}

/-- A round that forwards nothing adds a name in front of the list. -/
theorem Passed.cons_passed {first : String} {run' : Run}
    (h : Passed config ctx env max l before name provider after run o)
    (hf : run'.forwards = run.forwards) (he : ∀ e ∈ run.effects, e ∈ run'.effects)
    (hr : run'.reply = run.reply) :
    Passed config ctx env max l (first :: before) name provider after run' o := by
  cases h with
  | forwarded h => exact .forwarded (hf ▸ h)
  | noClient h => exact .noClient h
  | shed h => exact .shed (he _ h)
  | missedBefore hq h => exact .missedBefore hq h
  | @missed p xs ys hq hb hp h =>
    exact .missed (first :: xs) ys hq (by rw [hb]; rfl) (hf ▸ hp) h
  | spent h => exact .spent (by rw [hf, h])
  | @ended p l' q outcome status body ack xs ys hb hp hm h hl hreply ho =>
    exact .ended (first :: xs) ys (by rw [hb]; rfl) hp (hf ▸ hm) h (by rw [hf, hl])
      (hr.trans hreply) ho

theorem Passed.cons_retried {first : String} {run' : Run} {l₀ : Loop} {q₀ : ProviderConfig}
    {outcome₀ : Outcome} (h : Passed config ctx env max l before name provider after run o)
    (hlt : l₀.attempt < max) (hq₀ : config.provider first = some q₀)
    (hres : receive config ctx max l₀.spend first q₀ (before ++ name :: after)
      (env.forward first).result = (outcome₀, .retry l))
    (hf : run'.forwards = first :: run.forwards) (he : ∀ e ∈ run.effects, e ∈ run'.effects)
    (hr : run'.reply = run.reply) :
    Passed config ctx env max l₀ (first :: before) name provider after run' o := by
  have ha : l.attempt = l₀.attempt + 1 := (receive_retry hres).2.1
  have hmem : ∀ p ∈ run.forwards, p ∈ run'.forwards := by
    intro p hp
    rw [hf]
    exact List.mem_cons_of_mem _ hp
  have hlen : run'.forwards.length = run.forwards.length + 1 := by rw [hf, List.length_cons]
  cases h with
  | forwarded h => exact .forwarded (hmem _ h)
  | noClient h => exact .noClient h
  | shed h => exact .shed (he _ h)
  | missedBefore hq h =>
    rcases receive_retry_missedOn hq₀ hres h with h | h
    · exact .missedBefore hq h
    · exact .missed [] before hq rfl (by simp [hf]) h
  | @missed p xs ys hq hb hp h =>
    exact .missed (first :: xs) ys hq (by rw [hb]; rfl) (hmem p hp) h
  | spent h =>
    apply Passed.spent
    omega
  | @ended p l' q outcome status body ack xs ys hb hp hm h hl hreply ho =>
    exact .ended (first :: xs) ys (by rw [hb]; rfl) hp (hmem p hm) h (by omega)
      (hr.trans hreply) ho

end

theorem Rounds.passed (h : Rounds config ctx env rateGate max names l k run o)
    {before after : List String} {name : String} {provider : ProviderConfig}
    (hn : names = before ++ name :: after) (hp : config.provider name = some provider) :
    Passed config ctx env max l before name provider after run o := by
  induction h generalizing before with
  | @exhausted names l k h =>
    rcases h with h | h
    · rw [h] at hn
      simp at hn
    · apply Passed.spent
      rw [exhausted_forwards, Nat.sub_eq_zero_of_le h, List.length_nil]
  | @skipped first rest l k run o hlt hskip tail ih =>
    cases before with
    | nil =>
      obtain ⟨rfl, rfl⟩ := List.cons.inj hn
      rcases hskip provider hp with ⟨hm, hq⟩ | hc
      · exact .missedBefore hq hm
      · exact .noClient hc
    | cons b before =>
      obtain ⟨rfl, hrest⟩ := List.cons.inj hn
      exact (ih hrest).cons_passed rfl (fun _ h => h) rfl
  | @shed first rest l k run o hlt tail ih =>
    cases before with
    | nil =>
      obtain ⟨rfl, rfl⟩ := List.cons.inj hn
      exact .shed List.mem_cons_self
    | cons b before =>
      obtain ⟨rfl, hrest⟩ := List.cons.inj hn
      exact (ih hrest).cons_passed rfl (fun _ h => List.mem_cons_of_mem _ h) rfl
  | @retried first rest l l' k run o q outcome hlt hq hres tail ih =>
    cases before with
    | nil =>
      obtain ⟨rfl, rfl⟩ := List.cons.inj hn
      exact .forwarded (by simp)
    | cons b before =>
      obtain ⟨rfl, hrest⟩ := List.cons.inj hn
      subst hrest
      exact (ih rfl).cons_retried hlt hq.configured hres (by simp)
        (fun _ h => List.mem_append_right _ h) rfl
  | @answered first rest l k q outcome status body ack hlt hq hres =>
    have hf := (answered_projections ctx l first outcome (env.forward first).latencyMs
      (ctx.finish body status ack) (.of status body)).1
    cases before with
    | nil =>
      obtain ⟨rfl, rfl⟩ := List.cons.inj hn
      exact .forwarded (by simp [hf])
    | cons b before =>
      obtain ⟨rfl, hrest⟩ := List.cons.inj hn
      subst hrest
      exact .ended [] before rfl hq.configured (by simp [hf]) hres
        (by rw [hf]; rfl) rfl rfl

end RpcPlane
