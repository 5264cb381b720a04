import RpcPlane.Interleaving
import RpcPlane.HistoryRouting

/-! Requests of the interleaved proxy, explained by `handle_rpc`: whatever runs between the
steps of a request, its reply and its forwards are those of one run of `handleRpc`. -/

namespace RpcPlane

/-- A run that has forwarded to `sent` and goes on as `rest`. -/
structure Run.Continues (run : Run) (sent : List String) (rest : Run) : Prop where
  reply : run.reply = rest.reply
  forwards : run.forwards = sent ++ rest.forwards

theorem Run.Continues.trans {run mid rest : Run} {sent sent' : List String}
    (h : run.Continues sent mid) (h' : mid.Continues sent' rest) :
    run.Continues (sent ++ sent') rest := by
  refine ⟨h.reply.trans h'.reply, ?_⟩
  rw [h.forwards, h'.forwards, List.append_assoc]

theorem Run.Continues.begins {run rest : Run} {sent : List String}
    (h : run.Continues sent rest) : sent <+: run.forwards :=
  ⟨rest.forwards, h.forwards.symm⟩

theorem Run.Continues.congr {run rest rest' : Run} {sent : List String}
    (h : run.Continues sent rest) (hr : rest.reply = rest'.reply)
    (hf : rest.forwards = rest'.forwards) : run.Continues sent rest' :=
  ⟨h.reply.trans hr, by rw [h.forwards, hf]⟩

theorem Run.Continues.answered {run rest : Run} {sent : List String}
    (h : run.Continues sent rest) (hf : rest.forwards = []) :
    run.Continues sent ⟨[], rest.reply⟩ :=
  h.congr rfl hf

/-- `env` answers as `known` does, except to the acquires and the forwards still to come. -/
structure Env.Extends (known env : Env) (acquires forwards : List String) : Prop where
  client : env.client = known.client
  acquire : ∀ n, n ∉ acquires → env.acquire n = known.acquire n
  forward : ∀ n, n ∉ forwards → env.forward n = known.forward n

def Env.acquired (known : Env) (name : String) (token : Bool) : Env :=
  { known with acquire := Function.update known.acquire name token }

def Env.forwarded (known : Env) (name : String) (leg : Leg) : Env :=
  { known with forward := Function.update known.forward name leg }

section

variable {known env : Env} {name : String} {acquires forwards : List String}

theorem Env.Extends.refl (env : Env) (acquires forwards : List String) :
    env.Extends env acquires forwards :=
  ⟨rfl, fun _ _ => rfl, fun _ _ => rfl⟩

theorem Env.Extends.mono {acquires' forwards' : List String}
    (h : known.Extends env acquires forwards) (ha : acquires ⊆ acquires')
    (hf : forwards ⊆ forwards') : known.Extends env acquires' forwards' where
  client := h.client
  acquire := fun n hn => h.acquire n (fun hm => hn (ha hm))
  forward := fun n hn => h.forward n (fun hm => hn (hf hm))

theorem Env.Extends.of_acquired {token : Bool}
    (h : (known.acquired name token).Extends env acquires forwards) (hn : name ∉ acquires) :
    known.Extends env (name :: acquires) forwards ∧ env.acquire name = token := by
  refine ⟨⟨h.client, ?_, h.forward⟩, ?_⟩
  · intro n hm
    simp only [List.mem_cons, not_or] at hm
    simpa [acquired, hm.1] using h.acquire n hm.2
  · simpa [acquired] using h.acquire name hn

theorem Env.Extends.of_forwarded {leg : Leg}
    (h : (known.forwarded name leg).Extends env acquires forwards) (hn : name ∉ forwards) :
    known.Extends env acquires (name :: forwards) ∧ env.forward name = leg := by
  refine ⟨⟨h.client, h.acquire, ?_⟩, ?_⟩
  · intro n hm
    simp only [List.mem_cons, not_or] at hm
    simpa [forwarded, hm.1] using h.forward n hm.2
  · simpa [forwarded] using h.forward name hn

end

/-- A race in which `legs` complete in this order. -/
def Race.completing (panics : String → Bool) (legs : List BroadcastLeg) : Race where
  arrange spawned := if spawned.Perm legs then legs else spawned
  perm spawned := by
    split
    · exact List.Perm.symm ‹_›
    · exact .refl _
  panics := panics

theorem Race.completing_arrange {panics : String → Bool} {legs spawned : List BroadcastLeg}
    (h : legs.Perm spawned) : (Race.completing panics legs).arrange spawned = legs :=
  if_pos h.symm

def World.meets (world : World) (env : Env) (order : Race) : World :=
  { world with env := env, order := order }

@[simp] theorem World.meets_meets (world : World) (env env' : Env) (order order' : Race) :
    (world.meets env order).meets env' order' = world.meets env' order' := rfl

variable {config : Config} {client : String → Bool} {ctx : RequestCtx} {env : Env}
  {rateGate : Bool} {max : Nat}

/-- What is left of the loop once the leg of `name` is in. -/
def resume (config : Config) (ctx : RequestCtx) (env : Env) (rateGate : Bool) (max : Nat)
    (name : String) (provider : ProviderConfig) (rest : List String) (l : Loop) : Run :=
  match (receive config ctx max l name provider rest (env.forward name).result).2 with
  | .retry l' => sequentialLoop config ctx env rateGate max rest l'
  | .answer status body _ => ⟨[], .of status body⟩

section

variable {name : String} {rest : List String} {l : Loop} {provider : ProviderConfig}

theorem sequentialLoop_stop (h : candidate config env.client max l name = .stop) :
    sequentialLoop config ctx env rateGate max (name :: rest) l = exhausted ctx l := by
  rw [sequentialLoop, h]

theorem sequentialLoop_skip (h : candidate config env.client max l name = .skip) :
    sequentialLoop config ctx env rateGate max (name :: rest) l =
      sequentialLoop config ctx env rateGate max rest l := by
  rw [sequentialLoop, h]

theorem sequentialLoop_shed (h : candidate config env.client max l name = .reach provider)
    (hg : (provider.maxRps.isSome && !env.acquire name && rateGate) = true) :
    (sequentialLoop config ctx env rateGate max (name :: rest) l).Continues []
      (sequentialLoop config ctx env rateGate max rest l) := by
  rw [sequentialLoop, h]
  simp only [hg, if_true]
  exact ⟨rfl, by simp [Effect.sentTo]⟩

theorem sequentialLoop_reach (h : candidate config env.client max l name = .reach provider)
    (hg : (provider.maxRps.isSome && !env.acquire name && rateGate) = false) :
    (sequentialLoop config ctx env rateGate max (name :: rest) l).Continues [name]
      (resume config ctx env rateGate max name provider rest l.spend) := by
  rw [sequentialLoop, h]
  simp only [hg, Bool.false_eq_true, if_false]
  unfold resume
  cases hr : (receive config ctx max l.spend name provider rest (env.forward name).result).2 with
  | retry l' => exact ⟨rfl, by simp⟩
  | answer status body ack =>
    refine ⟨rfl, ?_⟩
    exact (answered_projections ctx l name _ _ _ _).1

end

/-- What a request has met so far is the beginning of a run of `handle_rpc`: in every world
that answers the rest of its questions, the run goes on from where the request stands. -/
def Phase.Explained (config : Config) (client : String → Bool) (body : Body)
    (sent : List String) : Phase → Prop
  | .arrived => sent = []
  | .snapped snapshots _ => sent = [] ∧
      (snapshots.map (·.name)).Perm (config.providers.map (·.name))
  | .sequence ctx rateGate max names l => names.Nodup ∧
      ∃ world : World, world.env.client = client ∧ world.Monitors config ∧
        ∀ env order, world.env.Extends env names names →
          (handleRpc config (world.meets env order) body).Continues sent
            (sequentialLoop config ctx env rateGate max names l)
  | .waiting ctx rateGate max name provider rest l => (name :: rest).Nodup ∧
      ∃ world : World, world.env.client = client ∧ world.Monitors config ∧
        ∀ env order, world.env.Extends env rest (name :: rest) →
          (handleRpc config (world.meets env order) body).Continues sent
            (resume config ctx env rateGate max name provider rest l)
  | .spawning ctx rateGate names spawned => (spawned.map (·.name) ++ names).Nodup ∧
      ∃ world : World, world.env.client = client ∧ world.Monitors config ∧
        ∀ env order, world.env.Extends env names (spawned.map (·.name) ++ names) →
          (handleRpc config (world.meets env order) body).Continues
            (sent ++ (spawnLegs config env rateGate names).1.filterMap Effect.sentTo)
            (race ctx env order.panics
              (order.arrange (spawned ++ (spawnLegs config env rateGate names).2)) none)
  | .racing ctx pending best => (pending.map (·.name)).Nodup ∧
      ∃ (world : World) (done : List BroadcastLeg), world.env.client = client ∧
        world.Monitors config ∧ ∀ env panics legs, world.env.Extends env [] (pending.map (·.name)) →
          (∀ n, n ∉ pending.map (·.name) → panics n = world.order.panics n) → legs.Perm pending →
          (handleRpc config (world.meets env (.completing panics (done ++ legs))) body).Continues
            sent (race ctx env panics legs best)
  | .answered reply _ _ => ∃ world : World, world.env.client = client ∧ world.Monitors config ∧
      (handleRpc config world body).Continues sent ⟨[], reply⟩

section

variable {body : Body} {sent : List String} {now : Instant} {m : Monitor}

theorem answered_explained {world : World} {order : Race} {reply : Reply}
    {pending : List BroadcastLeg} (hclient : env.client = client) (hmon : world.Monitors config)
    (h : (handleRpc config (world.meets env order) body).Continues sent ⟨[], reply⟩) :
    (Phase.answered reply ctx pending).Explained config client body sent :=
  ⟨world.meets env order, hclient, hmon, h⟩

theorem sequenceRound_explained {names : List String} {l : Loop}
    (h : (Phase.sequence ctx rateGate max names l).Explained config client body sent) :
    (sequenceRound config client now m ctx rateGate max names l).1.Explained config client body
      (sent ++ (sequenceRound config client now m ctx rateGate max names l).2.1.toList) := by
  obtain ⟨hnd, world, hclient, hmon, hrun⟩ := h
  have hself := hrun world.env world.order (.refl _ _ _)
  cases names with
  | nil =>
    simp only [sequenceRound, Option.toList_none, List.append_nil]
    exact answered_explained hclient hmon (hself.answered (exhausted_forwards ctx l))
  | cons name rest =>
    obtain ⟨hname, hrest⟩ := List.nodup_cons.mp hnd
    have hsub : rest ⊆ name :: rest := List.subset_cons_self name rest
    rw [sequenceRound]
    rcases candidate_cases config client max l name with ⟨hc, -⟩ | ⟨hc, -⟩ | ⟨p, hc, -⟩
    · simp only [hc, Option.toList_none, List.append_nil]
      rw [← hclient] at hc
      rw [sequentialLoop_stop hc] at hself
      exact answered_explained hclient hmon (hself.answered (exhausted_forwards ctx l))
    · simp only [hc, Option.toList_none, List.append_nil]
      refine ⟨hrest, world, hclient, hmon, fun env order he => ?_⟩
      have hh := hrun env order (he.mono hsub hsub)
      rw [← hclient, ← he.client] at hc
      rwa [sequentialLoop_skip hc] at hh
    · simp only [hc]
      have hworld : (world.env.acquired name (m.tryAcquire name now).1).client = client := hclient
      cases hg : (m.passGate name p now rateGate).1 with
      | true =>
        simp only [if_true, Option.toList_some]
        refine ⟨hnd, world.meets (world.env.acquired name (m.tryAcquire name now).1) world.order,
          hworld, hmon, fun env order he => ?_⟩
        obtain ⟨he, ha⟩ := he.of_acquired hname
        have hh := hrun env order he
        rw [← hclient, ← he.client] at hc
        rw [Monitor.passGate_eq, Bool.not_eq_true', ← ha] at hg
        exact hh.trans (sequentialLoop_reach hc hg)
      | false =>
        simp only [Bool.false_eq_true, if_false, Option.toList_none, List.append_nil]
        refine ⟨hrest, world.meets (world.env.acquired name (m.tryAcquire name now).1) world.order,
          hworld, hmon, fun env order he => ?_⟩
        obtain ⟨he, ha⟩ := he.of_acquired hname
        have hh := hrun env order (he.mono (List.Subset.refl _) hsub)
        rw [← hclient, ← he.client] at hc
        rw [Monitor.passGate_eq, Bool.not_eq_false', ← ha] at hg
        simpa using hh.trans (sequentialLoop_shed hc hg)

theorem spawning_skipped {name : String} {rest : List String} {spawned : List BroadcastLeg}
    (hleg : ∀ env : Env, env.client = client → spawnLeg config env rateGate name = ([], none))
    (h : (Phase.spawning ctx rateGate (name :: rest) spawned).Explained config client body sent) :
    (Phase.spawning ctx rateGate rest spawned).Explained config client body sent := by
  obtain ⟨hnd, world, hclient, hmon, hrun⟩ := h
  have hskip : (spawned.map (·.name) ++ rest).Sublist (spawned.map (·.name) ++ name :: rest) :=
    (List.sublist_cons_self name rest).append_left _
  refine ⟨hskip.nodup hnd, world, hclient, hmon, fun env order he => ?_⟩
  have hh := hrun env order (he.mono (List.subset_cons_self name rest) hskip.subset)
  rwa [spawnLegs_cons, hleg env (he.client.trans hclient)] at hh

theorem spawnRound_explained {names : List String} {spawned : List BroadcastLeg}
    (h : (Phase.spawning ctx rateGate names spawned).Explained config client body sent) :
    (spawnRound config client now m ctx rateGate names spawned).1.Explained config client body
      (sent ++ (spawnRound config client now m ctx rateGate names spawned).2.1.toList) := by
  cases names with
  | nil =>
    obtain ⟨hnd, world, hclient, hmon, hrun⟩ := h
    simp only [spawnRound, Option.toList_none, List.append_nil] at hnd hrun ⊢
    refine ⟨hnd, world, [], hclient, hmon, fun env panics legs he _ hlegs => ?_⟩
    have hh := hrun env (.completing panics legs) he
    simp only [spawnLegs, List.flatMap_nil, List.filterMap_nil, List.append_nil,
      Race.completing_arrange hlegs] at hh
    exact hh
  | cons name rest =>
    rw [spawnRound]
    cases hp : config.provider name with
    | none =>
      simp only [Option.toList_none, List.append_nil]
      exact spawning_skipped (fun env _ => by simp [spawnLeg, hp]) h
    | some p =>
      dsimp only
      cases hc : client name with
      | false =>
        simp only [Bool.not_false, if_true, Option.toList_none, List.append_nil]
        exact spawning_skipped (fun env henv => by simp [spawnLeg, hp, henv, hc]) h
      | true =>
        simp only [Bool.not_true, Bool.false_eq_true, if_false]
        obtain ⟨hnd, world, hclient, hmon, hrun⟩ := h
        have hname : name ∉ rest := (List.nodup_cons.mp (List.nodup_append.mp hnd).2.1).1
        have hworld : (world.env.acquired name (m.tryAcquire name now).1).client = client := hclient
        cases hg : (m.passGate name p now rateGate).1 with
        | true =>
          simp only [if_true, Option.toList_some]
          refine ⟨by simpa using hnd, world.meets
            (world.env.acquired name (m.tryAcquire name now).1) world.order, hworld, hmon,
            fun env order he => ?_⟩
          obtain ⟨he, ha⟩ := he.of_acquired hname
          rw [← hclient, ← he.client] at hc
          rw [Monitor.passGate_eq, Bool.not_eq_true', ← ha] at hg
          have hleg : spawnLeg config env rateGate name = ([.sent name], some ⟨name, p⟩) := by
            simp [spawnLeg, hp, hc, hg]
          have hh := hrun env order (by simpa using he)
          rw [spawnLegs_cons, hleg] at hh
          simpa [Effect.sentTo] using hh
        | false =>
          simp only [Bool.false_eq_true, if_false, Option.toList_none, List.append_nil]
          have hskip : (spawned.map (·.name) ++ rest).Sublist
              (spawned.map (·.name) ++ name :: rest) :=
            (List.sublist_cons_self name rest).append_left _
          refine ⟨hskip.nodup hnd, world.meets
            (world.env.acquired name (m.tryAcquire name now).1) world.order, hworld, hmon,
            fun env order he => ?_⟩
          obtain ⟨he, ha⟩ := he.of_acquired hname
          rw [← hclient, ← he.client] at hc
          rw [Monitor.passGate_eq, Bool.not_eq_false', ← ha] at hg
          have hleg : spawnLeg config env rateGate name = ([.rateLimited name], none) := by
            simp [spawnLeg, hp, hc, hg]
          have hh := hrun env order (he.mono (List.Subset.refl _) hskip.subset)
          rw [spawnLegs_cons, hleg] at hh
          simpa [List.filterMap_cons, Effect.sentTo] using hh

theorem dispatch_explained {phase : Phase} {round : Round}
    (h : phase.dispatch config client now m = some round)
    (he : phase.Explained config client body sent) :
    round.1.Explained config client body (sent ++ round.2.1.toList) := by
  unfold Phase.dispatch at h
  split at h
  · obtain rfl := Option.some.inj h
    exact sequenceRound_explained he
  · obtain rfl := Option.some.inj h
    exact spawnRound_explained he
  · obtain rfl := Option.some.inj h
    obtain ⟨-, world, done, hclient, hmon, hrun⟩ := he
    have hh := hrun world.env world.order.panics [] (.refl _ _ _) (fun _ _ => rfl)
      (.refl _)
    rw [Option.toList_none, List.append_nil]
    exact answered_explained hclient hmon (hh.answered race_forwards)
  · cases h

theorem answer_explained {phase : Phase} {leg : Leg} {next : Phase × Monitor}
    (h : phase.answer config now m leg = some next)
    (he : phase.Explained config client body sent) :
    next.1.Explained config client body sent := by
  unfold Phase.answer at h
  split at h
  · rename_i ctx rateGate max name provider rest l
    obtain ⟨hnd, world, hclient, hmon, hrun⟩ := he
    obtain ⟨hname, hrest⟩ := List.nodup_cons.mp hnd
    have hworld : (world.env.forwarded name leg).client = client := hclient
    have hnext : ∀ env order, (world.env.forwarded name leg).Extends env rest rest →
        env.forward name = leg ∧ (handleRpc config (world.meets env order) body).Continues sent
          (resume config ctx env rateGate max name provider rest l) := by
      intro env order he
      obtain ⟨he, hf⟩ := he.of_forwarded hname
      exact ⟨hf, hrun env order he⟩
    dsimp only at h
    cases hr : (receive config ctx max l name provider rest leg.result).2 with
    | retry l' =>
      rw [hr] at h
      obtain rfl := Option.some.inj h
      refine ⟨hrest, world.meets (world.env.forwarded name leg) world.order, hworld, hmon,
        fun env order he => ?_⟩
      obtain ⟨hf, hh⟩ := hnext env order he
      rwa [resume, hf, hr] at hh
    | answer status body' ack =>
      rw [hr] at h
      obtain rfl := Option.some.inj h
      obtain ⟨hf, hh⟩ := hnext (world.env.forwarded name leg) world.order (.refl _ _ _)
      rw [resume, hf, hr] at hh
      exact answered_explained hworld hmon hh
  · cases h

theorem racing_explained {pending : List BroadcastLeg} {best : Option BestError} {name : String}
    {leg : BroadcastLeg}
    (h : (Phase.racing ctx pending best).Explained config client body sent)
    (hfind : pending.find? (·.name == name) = some leg) (result : Option Leg) :
    ((pending.eraseP (·.name == name)).map (·.name)).Nodup ∧
      ∃ (world : World) (done : List BroadcastLeg), world.env.client = client ∧
        world.Monitors config ∧ ∀ env panics legs,
          world.env.Extends env [] ((pending.eraseP (·.name == name)).map (·.name)) →
          (∀ n, n ∉ (pending.eraseP (·.name == name)).map (·.name) →
            panics n = world.order.panics n) →
          legs.Perm (pending.eraseP (·.name == name)) →
          panics leg.name = result.isNone ∧ (∀ l ∈ result, env.forward leg.name = l) ∧
          (handleRpc config (world.meets env (.completing panics (done ++ legs))) body).Continues
            sent (race ctx env panics (leg :: legs) best) := by
  obtain ⟨hnd, world, done, hclient, hmon, hrun⟩ := h
  obtain ⟨hname, hperm, hout⟩ := find?_eraseP_key BroadcastLeg.name hfind hnd
  have hmem : ∀ n, n ∈ pending.map (·.name) ↔
      n = name ∨ n ∈ (pending.eraseP (·.name == name)).map (·.name) := by
    intro n
    rw [← (hperm.map _).mem_iff, List.map_cons, List.mem_cons, hname]
  refine ⟨(List.eraseP_sublist.map _).nodup hnd, world.meets
    (world.env.forwarded name (result.getD (world.env.forward name)))
    { world.order with panics := Function.update world.order.panics name result.isNone },
    done ++ [leg], hclient, hmon, fun env panics legs he hpanics hlegs => ?_⟩
  obtain ⟨he, hf⟩ := he.of_forwarded hout
  have hpending : world.env.Extends env [] (pending.map (·.name)) := by
    refine he.mono (List.Subset.refl _) (fun n hn => ?_)
    exact (hmem n).mpr (List.mem_cons.mp hn)
  have hold : ∀ n, n ∉ pending.map (·.name) → panics n = world.order.panics n := by
    intro n hn
    rw [hmem, not_or] at hn
    simpa [World.meets, hn.1] using hpanics n hn.2
  have hh := hrun env panics (leg :: legs) hpending hold ((hlegs.cons leg).trans hperm)
  refine ⟨?_, ?_, by simpa using hh⟩
  · simpa [World.meets, hname] using hpanics name hout
  · rintro l hl
    rw [hname, hf, hl]
    rfl

/-- One completed leg of a race: it settles the reply, or the race goes on. -/
theorem race_settle (ctx : RequestCtx) (pending : List BroadcastLeg) (best : Option BestError)
    (leg : BroadcastLeg) (l : Leg) :
    (∃ best', settle ctx pending best (l.outcome ctx.historyLookup leg.provider) l.result =
        .racing ctx pending best' ∧
      ∀ env panics rest, env.forward leg.name = l → panics leg.name = false →
        (race ctx env panics (leg :: rest) best).reply =
          (race ctx env panics rest best').reply) ∨
    ∃ reply, settle ctx pending best (l.outcome ctx.historyLookup leg.provider) l.result =
        .answered reply ctx pending ∧
      ∀ env panics rest, env.forward leg.name = l → panics leg.name = false →
        (race ctx env panics (leg :: rest) best).reply = reply := by
  cases hr : l.result with
  | error e =>
    refine Or.inl ⟨best, rfl, fun env panics rest hl hp => ?_⟩
    rw [race, if_neg (by simp [hp]), hl, hr]
    rfl
  | ok r =>
    by_cases ho : l.outcome ctx.historyLookup leg.provider = .ok
    · refine Or.inr ⟨.of 200 r.body, by simp [settle, ho], fun env panics rest hl hp => ?_⟩
      rw [race, if_neg (by simp [hp]), hl, hr]
      simp [ho]
    · refine Or.inl ⟨_, by rw [settle, if_neg ho], fun env panics rest hl hp => ?_⟩
      rw [race, if_neg (by simp [hp]), hl, hr]
      simp [ho]

theorem complete_explained {phase : Phase} {name : String} {leg : Option Leg}
    {next : Phase × Monitor} (h : phase.complete config now m name leg = some next)
    (he : phase.Explained config client body sent) :
    next.1.Explained config client body sent := by
  unfold Phase.complete at h
  split at h
  · rename_i ctx pending best
    cases hfind : pending.find? (·.name == name) with
    | none => simp [hfind] at h
    | some spawned =>
      obtain ⟨hnd, world, done, hclient, hmon, hrun⟩ := racing_explained he hfind leg
      cases leg with
      | none =>
        rw [hfind] at h
        obtain rfl := Option.some.inj h
        refine ⟨hnd, world, done, hclient, hmon, fun env panics legs he hp hlegs => ?_⟩
        obtain ⟨hpanic, -, hh⟩ := hrun env panics legs he hp hlegs
        have hreply : (race ctx env panics (spawned :: legs) best).reply =
            (race ctx env panics legs best).reply := by
          rw [race_of_panics hpanic, Run.after_reply]
        exact hh.congr hreply (race_forwards.trans race_forwards.symm)
      | some l =>
        rw [hfind] at h
        obtain rfl := Option.some.inj h
        rcases race_settle ctx (pending.eraseP (·.name == name)) best spawned l with
          ⟨best', hs, hrace⟩ | ⟨reply, hs, hrace⟩
        · rw [hs]
          refine ⟨hnd, world, done, hclient, hmon, fun env panics legs he hp hlegs => ?_⟩
          obtain ⟨hpanic, hl, hh⟩ := hrun env panics legs he hp hlegs
          exact hh.congr (hrace env panics legs (hl l rfl) hpanic)
            (race_forwards.trans race_forwards.symm)
        · rw [hs]
          obtain ⟨hpanic, hl, hh⟩ := hrun world.env world.order.panics _ (.refl _ _ _)
            (fun _ _ => rfl) (.refl _)
          have hreply := hrace world.env world.order.panics
            (pending.eraseP (·.name == name)) (hl l rfl) hpanic
          exact answered_explained hclient hmon (hh.congr hreply race_forwards)
  · rename_i reply ctx pending
    split at h
    · cases h
    · obtain rfl := Option.some.inj h
      exact he
    · obtain rfl := Option.some.inj h
      exact he
  · cases h

end

end RpcPlane
