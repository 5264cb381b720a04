import RpcPlane.Admission
import RpcPlane.ForwardAccounts
import RpcPlane.Projection

/-! What a request tells the analytics: the calls of `finish_analytics` that its moves make,
beside the replies it gives and the legs it records. -/

namespace RpcPlane

def BroadcastLeg.finished (ctx : RequestCtx) (spawned : BroadcastLeg) (leg : Leg) :
    Option FinishCall :=
  match leg.result with
  | .ok r =>
    if leg.outcome ctx.historyLookup spawned.provider = .ok then
      some (ctx.finish r.body 200 (some spawned.name))
    else none
  | .error _ => none

/-- The call of `finish_analytics` that a move makes. -/
def Phase.finished (config : Config) (cls : RequestClass) (body : Body) :
    Phase → Move → Option FinishCall
  | .snapped snapshots observedTips, .route random =>
    let decision := cls.decision config snapshots random
    if decision.broadcast && decision.providers.isEmpty then
      some ((cls.requestCtx config body observedTips).finish noProvidersAvailable.body 503 none)
    else none
  | .sequence ctx _ max names l, .dispatch =>
    -- the loop ends when the list does, or before a provider that no attempt is left for
    if names.isEmpty || decide (max ≤ l.attempt) then (exhausted ctx l).finishes.head? else none
  | .racing ctx pending best, .dispatch =>
    if pending.isEmpty then (bestErrorRun ctx best).finishes.head? else none
  | .waiting ctx _ max name provider rest l, .answer leg =>
    match (receive config ctx max l name provider rest leg.result).2 with
    | .answer status response acknowledging => some (ctx.finish response status acknowledging)
    | .retry _ => none
  | .racing ctx pending _, .complete name (some leg) =>
    (pending.find? (·.name == name)).bind (·.finished ctx leg)
  | _, _ => none

/-- What the client gets when `finish_analytics` is told this. -/
def FinishCall.reply (call : FinishCall) : Reply := .of call.status call.response

def RecordedLeg.ok (leg : RecordedLeg) : Bool := leg.outcome == .ok

def Phase.ctx? : Phase → Option RequestCtx
  | .arrived => none
  | .snapped _ _ => none
  | .sequence ctx _ _ _ _ => some ctx
  | .waiting ctx _ _ _ _ _ _ => some ctx
  | .spawning ctx _ _ _ => some ctx
  | .racing ctx _ _ => some ctx
  | .answered _ ctx _ => some ctx

variable {config : Config} {client : String → Bool}

theorem exhausted_told (ctx : RequestCtx) (l : Loop) : ∃ response status,
    (exhausted ctx l).finishes = [ctx.finish response status none] ∧
      (exhausted ctx l).reply = .of status response := by
  unfold exhausted
  cases l.miss with
  | some bytes => exact ⟨bytes, 200, rfl, rfl⟩
  | none =>
    cases l.retried with
    | some bytes => exact ⟨bytes, 200, rfl, rfl⟩
    | none => exact ⟨_, 502, rfl, rfl⟩

theorem bestErrorRun_told (ctx : RequestCtx) (best : Option BestError) : ∃ response status,
    (bestErrorRun ctx best).finishes = [ctx.finish response status none] ∧
      (bestErrorRun ctx best).reply = .of status response := by
  cases best with
  | some e => exact ⟨e.body, e.status, rfl, rfl⟩
  | none => exact ⟨_, 502, rfl, rfl⟩

section move

variable {now : Instant} {m : Monitor} {ctx : RequestCtx} {rateGate : Bool} {max : Nat}
  {cls : RequestClass} {body : Body}

theorem Phase.finished_of_reply {phase : Phase} {reply : Reply} (h : phase.reply = some reply)
    (move : Move) : phase.finished config cls body move = none := by
  cases phase with
  | answered reply ctx pending => cases move <;> rfl
  | _ => cases h

theorem sequenceRound_finished (names : List String) (l : Loop) :
    (sequenceRound config client now m ctx rateGate max names l).1.reply =
      ((Phase.sequence ctx rateGate max names l).finished config cls body .dispatch).map (·.reply) := by
  obtain ⟨response, status, hcall, hreply⟩ := exhausted_told ctx l
  cases names with
  | nil => simp [sequenceRound, Phase.finished, Phase.reply, hcall, hreply, FinishCall.reply,
      RequestCtx.finish]
  | cons name rest =>
    rw [sequenceRound]
    rcases candidate_cases config client max l name with
      ⟨hc, hmax⟩ | ⟨hc, hlt, -⟩ | ⟨p, hc, hlt, -⟩
    · simp [hc, hmax, Phase.finished, Phase.reply, hcall, hreply, FinishCall.reply,
        RequestCtx.finish]
    · simp [hc, hlt, Phase.finished, Phase.reply]
    · simp only [hc]
      split <;> simp [hlt, Phase.finished, Phase.reply]

theorem spawnRound_reply (names : List String) (spawned : List BroadcastLeg) :
    (spawnRound config client now m ctx rateGate names spawned).1.reply = none := by
  cases names with
  | nil => rfl
  | cons name rest =>
    rw [spawnRound]
    cases config.provider name with
    | none => rfl
    | some provider =>
      dsimp only
      split
      · rfl
      · split <;> rfl

theorem Phase.dispatch_finished {phase : Phase} {round : Round}
    (h : phase.dispatch config client now m = some round) :
    round.1.reply = (phase.finished config cls body .dispatch).map (·.reply) := by
  unfold dispatch at h
  split at h
  · obtain rfl := Option.some.inj h
    exact sequenceRound_finished _ _
  · obtain rfl := Option.some.inj h
    exact spawnRound_reply _ _
  · rename_i ctx best
    obtain rfl := Option.some.inj h
    obtain ⟨response, status, hcall, hreply⟩ := bestErrorRun_told ctx best
    simp [finished, reply, hcall, hreply, FinishCall.reply, RequestCtx.finish]
  · cases h

theorem Phase.answer_finished {phase : Phase} {leg : Leg} {next : Phase × Monitor}
    (h : phase.answer config now m leg = some next) :
    next.1.reply = (phase.finished config cls body (.answer leg)).map (·.reply) := by
  unfold answer at h
  split at h
  · dsimp only at h
    split at h
    · rename_i hnext
      obtain rfl := Option.some.inj h
      simp only [finished, hnext]
      rfl
    · rename_i hnext
      obtain rfl := Option.some.inj h
      simp only [finished, hnext]
      rfl
  · cases h

theorem settle_finished (ctx : RequestCtx) (pending : List BroadcastLeg) (best : Option BestError)
    (spawned : BroadcastLeg) (leg : Leg) :
    (settle ctx pending best (leg.outcome ctx.historyLookup spawned.provider) leg.result).reply =
      (spawned.finished ctx leg).map (·.reply) := by
  unfold settle BroadcastLeg.finished
  cases leg.result with
  | ok r =>
    dsimp only
    split <;> rfl
  | error e => rfl

theorem Phase.complete_finished {phase : Phase} {name : String} {leg : Option Leg}
    {next : Phase × Monitor} (hp : phase.reply = none)
    (h : phase.complete config now m name leg = some next) :
    next.1.reply = (phase.finished config cls body (.complete name leg)).map (·.reply) := by
  unfold complete at h
  split at h
  · rename_i ctx pending best
    split at h
    · cases h
    · obtain rfl := Option.some.inj h
      rfl
    · rename_i spawned leg hf
      obtain rfl := Option.some.inj h
      have hsettle := settle_finished ctx (pending.eraseP (·.name == name)) best spawned leg
      simpa [finished, hf] using hsettle
  · cases hp
  · cases h

theorem routed_finished (cls : RequestClass) (body : Body) (snapshots : List HealthSnapshot)
    (observedTips : CommitmentSlots) (random : ℚ) :
    (Phase.routed config cls body snapshots observedTips random).reply =
      ((Phase.snapped snapshots observedTips).finished config cls body (.route random)).map
        (·.reply) := by
  simp only [Phase.routed, Phase.finished]
  cases (cls.decision config snapshots random).broadcast with
  | false => rfl
  | true =>
    cases (cls.decision config snapshots random).providers.isEmpty with
    | false => rfl
    | true => rfl

/-- A request is answered by the move that tells the analytics, with what that move tells. -/
theorem Request.move_finished {r : Request} {move : Move} {next : Request × Monitor}
    (hp : r.phase.reply = none) (h : r.move config client now m move = some next) :
    next.1.phase.reply = (r.phase.finished config r.cls r.body move).map (·.reply) := by
  cases move with
  | snapshot =>
    simp only [Request.move] at h
    split at h
    · rename_i hphase
      obtain rfl := Option.some.inj h
      rw [hphase]
      rfl
    · cases h
  | route random =>
    simp only [Request.move] at h
    split at h
    · rename_i hphase
      split at h
      · obtain rfl := Option.some.inj h
        rw [hphase]
        exact routed_finished _ _ _ _ _
      · cases h
    · cases h
  | dispatch =>
    obtain ⟨round, hd, rfl⟩ := Option.map_eq_some_iff.mp h
    exact Phase.dispatch_finished hd
  | answer leg =>
    obtain ⟨next, hn, rfl⟩ := Option.map_eq_some_iff.mp h
    exact Phase.answer_finished hn
  | complete name leg =>
    obtain ⟨next, hn, rfl⟩ := Option.map_eq_some_iff.mp h
    exact Phase.complete_finished hp hn

/-- The acknowledging provider is the one whose leg the same move records as a success. -/
theorem Phase.finished_acknowledging {phase : Phase} (hp : phase.reply = none) (move : Move) :
    (phase.finished config cls body move).bind (·.acknowledging) =
      ((phase.recorded config move).toList.find? (·.ok)).map (·.provider) := by
  cases phase with
  | arrived => cases move <;> rfl
  | snapped snapshots observedTips =>
    cases move with
    | route random =>
      simp only [finished, recorded]
      split <;> rfl
    | snapshot | dispatch | answer leg | complete name leg => rfl
  | sequence ctx rateGate max names l =>
    cases move with
    | dispatch =>
      obtain ⟨response, status, hcall, -⟩ := exhausted_told ctx l
      simp only [finished, recorded, hcall]
      split <;> rfl
    | snapshot | route random | answer leg | complete name leg => rfl
  | waiting ctx rateGate max name provider rest l =>
    cases move with
    | answer leg =>
      simp only [finished, recorded]
      cases hr : receive config ctx max l name provider rest leg.result with
      | mk outcome next =>
        cases next with
        | retry l' => simp [RecordedLeg.ok, (receive_retry hr).1]
        | answer status response ack =>
          rw [(receive_answer hr).1]
          by_cases ho : outcome = .ok
          · simp [RecordedLeg.ok, RequestCtx.finish, ho]
          · simp [RecordedLeg.ok, RequestCtx.finish, ho]
    | snapshot | route random | dispatch | complete name leg => rfl
  | spawning ctx rateGate names spawned => cases move <;> rfl
  | racing ctx pending best =>
    cases move with
    | dispatch =>
      obtain ⟨response, status, hcall, -⟩ := bestErrorRun_told ctx best
      simp only [finished, recorded, hcall]
      split <;> rfl
    | complete name leg =>
      cases leg with
      | none => rfl
      | some leg =>
        simp only [finished, recorded]
        cases hf : pending.find? (·.name == name) with
        | none => rfl
        | some spawned =>
          have hname : spawned.name = name := by simpa using List.find?_some hf
          simp only [Option.bind_some, Option.map_some, Option.toList_some, BroadcastLeg.finished]
          cases hr : leg.result with
          | error e => simp [RecordedLeg.ok, Leg.outcome, hr]
          | ok r =>
            by_cases ho : leg.outcome ctx.historyLookup spawned.provider = .ok
            · simp [RecordedLeg.ok, RequestCtx.finish, ho, hname]
            · simp [RecordedLeg.ok, ho]
    | snapshot | route random | answer leg => rfl
  | answered reply ctx pending => cases hp

theorem Phase.recorded_leg {phase : Phase} {move : Move} {leg : RecordedLeg}
    (h : phase.recorded config move = some leg) :
    leg.provider ∈ phase.legs ∧
      ∃ ctx, phase.ctx? = some ctx ∧ leg.method = ctx.method ∧ leg.count = ctx.count := by
  unfold recorded at h
  split at h
  · obtain rfl := Option.some.inj h
    exact ⟨List.mem_singleton.mpr rfl, _, rfl, rfl, rfl⟩
  · obtain ⟨spawned, hf, rfl⟩ := Option.map_eq_some_iff.mp h
    have hmem := List.mem_of_find?_eq_some hf
    exact ⟨List.mem_map.mpr ⟨spawned, hmem, by simpa using List.find?_some hf⟩, _, rfl, rfl, rfl⟩
  · obtain ⟨spawned, hf, rfl⟩ := Option.map_eq_some_iff.mp h
    have hmem := List.mem_of_find?_eq_some hf
    exact ⟨List.mem_map.mpr ⟨spawned, hmem, by simpa using List.find?_some hf⟩, _, rfl, rfl, rfl⟩
  · cases h

/-- The context is the one that `handle_rpc` makes of the request. -/
def RequestCtx.Of (config : Config) (cls : RequestClass) (body : Body) (ctx : RequestCtx) : Prop :=
  ∃ observedTips, ctx = cls.requestCtx config body observedTips

theorem Phase.finished_of {phase : Phase} {move : Move} {call : FinishCall}
    (hctx : ∀ ctx ∈ phase.ctx?, RequestCtx.Of config cls body ctx)
    (h : phase.finished config cls body move = some call) :
    call.request = body ∧ call.transaction = cls.transaction ∧ call.historical = cls.historical := by
  have htold : ∃ ctx response status ack, RequestCtx.Of config cls body ctx ∧
      call = ctx.finish response status ack := by
    unfold finished at h
    split at h
    · dsimp only at h
      split at h
      · obtain rfl := Option.some.inj h
        exact ⟨_, _, _, _, ⟨_, rfl⟩, rfl⟩
      · cases h
    · rename_i ctx rateGate max names l
      obtain ⟨response, status, hcall, -⟩ := exhausted_told ctx l
      split at h
      · rw [hcall] at h
        obtain rfl := Option.some.inj h
        exact ⟨ctx, _, _, _, hctx ctx rfl, rfl⟩
      · cases h
    · rename_i ctx pending best
      obtain ⟨response, status, hcall, -⟩ := bestErrorRun_told ctx best
      split at h
      · rw [hcall] at h
        obtain rfl := Option.some.inj h
        exact ⟨ctx, _, _, _, hctx ctx rfl, rfl⟩
      · cases h
    · split at h
      · obtain rfl := Option.some.inj h
        exact ⟨_, _, _, _, hctx _ rfl, rfl⟩
      · cases h
    · obtain ⟨spawned, -, hs⟩ := Option.bind_eq_some_iff.mp h
      unfold BroadcastLeg.finished at hs
      split at hs
      · split at hs
        · obtain rfl := Option.some.inj hs
          exact ⟨_, _, _, _, hctx _ rfl, rfl⟩
        · cases hs
      · cases hs
    · cases h
  obtain ⟨ctx, response, status, ack, ⟨tips, rfl⟩, rfl⟩ := htold
  exact ⟨rfl, rfl, rfl⟩

theorem sequenceRound_ctx (names : List String) (l : Loop) :
    (sequenceRound config client now m ctx rateGate max names l).1.ctx? = some ctx := by
  cases names with
  | nil => rfl
  | cons name rest =>
    rw [sequenceRound]
    cases candidate config client max l name with
    | stop => rfl
    | skip => rfl
    | reach provider =>
      dsimp only
      split <;> rfl

theorem spawnRound_ctx (names : List String) (spawned : List BroadcastLeg) :
    (spawnRound config client now m ctx rateGate names spawned).1.ctx? = some ctx := by
  cases names with
  | nil => rfl
  | cons name rest =>
    rw [spawnRound]
    cases config.provider name with
    | none => rfl
    | some provider =>
      dsimp only
      split
      · rfl
      · split <;> rfl

theorem routed_ctx (snapshots : List HealthSnapshot) (observedTips : CommitmentSlots) (random : ℚ) :
    (Phase.routed config cls body snapshots observedTips random).ctx? =
      some (cls.requestCtx config body observedTips) := by
  unfold Phase.routed
  dsimp only
  split
  · split <;> rfl
  · rfl

/-- A request is routed once, and from then on keeps the context it was given there. -/
theorem Request.move_ctx {r : Request} {move : Move} {next : Request × Monitor}
    (h : r.move config client now m move = some next)
    (hctx : ∀ ctx ∈ r.phase.ctx?, RequestCtx.Of config r.cls r.body ctx) :
    ∀ ctx ∈ next.1.phase.ctx?, RequestCtx.Of config r.cls r.body ctx := by
  have hkept : ∀ {phase : Phase}, phase.ctx? = r.phase.ctx? →
      ∀ ctx ∈ phase.ctx?, RequestCtx.Of config r.cls r.body ctx :=
    fun he ctx hc => hctx ctx (he ▸ hc)
  cases move with
  | snapshot =>
    simp only [Request.move] at h
    split at h
    · obtain rfl := Option.some.inj h
      intro ctx hc
      cases hc
    · cases h
  | route random =>
    simp only [Request.move] at h
    split at h
    · split at h
      · obtain rfl := Option.some.inj h
        intro ctx hc
        rw [routed_ctx] at hc
        obtain rfl := Option.some.inj hc
        exact ⟨_, rfl⟩
      · cases h
    · cases h
  | dispatch =>
    obtain ⟨round, hd, rfl⟩ := Option.map_eq_some_iff.mp h
    apply hkept
    unfold Phase.dispatch at hd
    split at hd
    · rename_i hp
      obtain rfl := Option.some.inj hd
      rw [hp, sequenceRound_ctx]
      rfl
    · rename_i hp
      obtain rfl := Option.some.inj hd
      rw [hp, spawnRound_ctx]
      rfl
    · rename_i hp
      obtain rfl := Option.some.inj hd
      rw [hp]
      rfl
    · cases hd
  | answer leg =>
    obtain ⟨next, hn, rfl⟩ := Option.map_eq_some_iff.mp h
    apply hkept
    unfold Phase.answer at hn
    split at hn
    · rename_i hp
      dsimp only at hn
      rw [hp]
      split at hn <;> (obtain rfl := Option.some.inj hn; rfl)
    · cases hn
  | complete name leg =>
    obtain ⟨next, hn, rfl⟩ := Option.map_eq_some_iff.mp h
    apply hkept
    unfold Phase.complete at hn
    split at hn
    · rename_i hp
      rw [hp]
      split at hn
      · cases hn
      · obtain rfl := Option.some.inj hn
        rfl
      · obtain rfl := Option.some.inj hn
        dsimp only
        unfold settle
        split
        · split <;> rfl
        · rfl
    · rename_i hp
      rw [hp]
      split at hn
      · cases hn
      · obtain rfl := Option.some.inj hn
        rfl
      · obtain rfl := Option.some.inj hn
        rfl
    · cases hn

end move

/-- How a request stands to what it has told and what it has recorded. -/
structure Request.Told (config : Config) (calls : List FinishCall) (legs : List RecordedLeg)
    (r : Request) : Prop where
  context : ∀ ctx ∈ r.phase.ctx?, RequestCtx.Of config r.cls r.body ctx
  reached : ∀ name ∈ r.phase.legs, name ∈ r.forwards
  replies : calls.map (·.reply) = r.phase.reply.toList
  own : ∀ call ∈ calls, call.request = r.body ∧ call.transaction = r.cls.transaction ∧
    call.historical = r.cls.historical
  acknowledged : calls.head?.bind (·.acknowledging) = (legs.find? (·.ok)).map (·.provider)
  /-- legs outlive the reply only when a success gave it -/
  stragglers : r.phase.reply.isSome → r.phase.legs ≠ [] → (legs.find? (·.ok)).isSome
  billed : ∀ leg ∈ legs, leg.method = r.cls.method ∧ leg.count = r.cls.calls ∧
    leg.provider ∈ r.forwards

variable {calls : List FinishCall} {legs : List RecordedLeg} {r : Request}

theorem Request.Told.arrived (config : Config) (h : r.phase = .arrived) : r.Told config [] [] where
  context ctx hc := by simp [h, Phase.ctx?] at hc
  reached name hn := by simp [h, Phase.legs] at hn
  replies := by simp [h, Phase.reply]
  own call hc := by cases hc
  acknowledged := rfl
  stragglers hr := by simp [h, Phase.reply] at hr
  billed leg hl := by cases hl

section step

variable {now : Instant} {m : Monitor} {move : Move} {next : Request × Monitor}

theorem Request.move_frame (h : r.move config client now m move = some next) :
    next.1.body = r.body ∧ next.1.cls = r.cls ∧
      next.1.forwards = r.forwards ++ (r.phase.sent config client now m move).toList := by
  cases move with
  | snapshot =>
    simp only [Request.move] at h
    split at h
    · obtain rfl := Option.some.inj h
      exact ⟨rfl, rfl, (List.append_nil _).symm⟩
    · cases h
  | route random =>
    simp only [Request.move] at h
    split at h
    · split at h
      · obtain rfl := Option.some.inj h
        exact ⟨rfl, rfl, (List.append_nil _).symm⟩
      · cases h
    · cases h
  | dispatch =>
    obtain ⟨round, hd, rfl⟩ := Option.map_eq_some_iff.mp h
    exact ⟨rfl, rfl, by simp [Phase.sent, hd]⟩
  | answer leg =>
    obtain ⟨next, -, rfl⟩ := Option.map_eq_some_iff.mp h
    exact ⟨rfl, rfl, (List.append_nil _).symm⟩
  | complete name leg =>
    obtain ⟨next, -, rfl⟩ := Option.map_eq_some_iff.mp h
    exact ⟨rfl, rfl, (List.append_nil _).symm⟩

theorem sequenceRound_alone {ctx : RequestCtx} {rateGate : Bool} {max : Nat} (names : List String)
    (l : Loop)
    (h : (sequenceRound config client now m ctx rateGate max names l).1.reply.isSome) :
    (sequenceRound config client now m ctx rateGate max names l).1.legs = [] := by
  cases names with
  | nil => rfl
  | cons name rest =>
    rw [sequenceRound] at h ⊢
    cases hc : candidate config client max l name with
    | stop => rfl
    | skip => rfl
    | reach provider =>
      simp only [hc] at h ⊢
      split at h <;> cases h

/-- A reply that leaves legs in flight is that of a success. -/
theorem Request.move_won (hp : r.phase.reply = none)
    (h : r.move config client now m move = some next) (hr : next.1.phase.reply.isSome)
    (hl : next.1.phase.legs ≠ []) :
    ((r.phase.finished config r.cls r.body move).bind (·.acknowledging)).isSome := by
  cases move with
  | snapshot =>
    simp only [Request.move] at h
    split at h
    · obtain rfl := Option.some.inj h
      cases hr
    · cases h
  | route random =>
    simp only [Request.move] at h
    split at h
    · split at h
      · obtain rfl := Option.some.inj h
        exact absurd (routed_legs _ _ _ _ _) hl
      · cases h
    · cases h
  | dispatch =>
    obtain ⟨round, hd, rfl⟩ := Option.map_eq_some_iff.mp h
    unfold Phase.dispatch at hd
    split at hd
    · obtain rfl := Option.some.inj hd
      exact absurd (sequenceRound_alone _ _ hr) hl
    · obtain rfl := Option.some.inj hd
      dsimp only at hr
      rw [spawnRound_reply] at hr
      cases hr
    · obtain rfl := Option.some.inj hd
      exact absurd rfl hl
    · cases hd
  | answer leg =>
    obtain ⟨next, hn, rfl⟩ := Option.map_eq_some_iff.mp h
    unfold Phase.answer at hn
    split at hn
    · dsimp only at hn
      split at hn
      · obtain rfl := Option.some.inj hn
        cases hr
      · obtain rfl := Option.some.inj hn
        exact absurd rfl hl
    · cases hn
  | complete name leg =>
    obtain ⟨next, hn, rfl⟩ := Option.map_eq_some_iff.mp h
    unfold Phase.complete at hn
    split at hn
    · rename_i ctx pending best hphase
      split at hn
      · cases hn
      · obtain rfl := Option.some.inj hn
        cases hr
      · rename_i spawned leg hf
        obtain rfl := Option.some.inj hn
        rw [hphase]
        simp only [Phase.finished, hf, Option.bind_some]
        dsimp only at hr
        rw [settle_finished, Option.isSome_map] at hr
        obtain ⟨call, hcall⟩ := Option.isSome_iff_exists.mp hr
        unfold BroadcastLeg.finished at hcall ⊢
        split at hcall
        · split at hcall
          · rename_i ho
            rw [if_pos ho]
            rfl
          · cases hcall
        · cases hcall
    · rename_i hphase
      rw [hphase] at hp
      cases hp
    · cases hn

/-- Until the reply nothing has succeeded; after it nothing more is told, and what is still
recorded comes after a success. -/
theorem Request.Told.step (h : r.Told config calls legs)
    (hn : r.move config client now m move = some next) :
    next.1.Told config (calls ++ (r.phase.finished config r.cls r.body move).toList)
      (legs ++ (r.phase.recorded config move).toList) := by
  obtain ⟨hbody, hcls, hsent⟩ := Request.move_frame hn
  have hlegs := Request.move_legs hn
  have hforwards : ∀ name ∈ r.forwards, name ∈ next.1.forwards := by
    intro name hm
    rw [hsent]
    exact List.mem_append_left _ hm
  have hreached : ∀ name ∈ next.1.phase.legs, name ∈ next.1.forwards := by
    intro name hm
    rw [hsent]
    rcases List.mem_append.mp (hlegs.mem_iff.mpr (List.mem_append_right _ hm)) with hm | hm
    · exact List.mem_append_left _ (h.reached name hm)
    · exact List.mem_append_right _ hm
  have hbilled : ∀ leg ∈ legs ++ (r.phase.recorded config move).toList,
      leg.method = next.1.cls.method ∧ leg.count = next.1.cls.calls ∧
        leg.provider ∈ next.1.forwards := by
    intro leg hm
    rw [hcls]
    rcases List.mem_append.mp hm with hm | hm
    · obtain ⟨hmethod, hcount, hf⟩ := h.billed leg hm
      exact ⟨hmethod, hcount, hforwards _ hf⟩
    · obtain ⟨hp, ctx, hc, hmethod, hcount⟩ := Phase.recorded_leg (Option.mem_toList.mp hm)
      obtain ⟨tips, rfl⟩ := h.context ctx hc
      exact ⟨hmethod, hcount, hforwards _ (h.reached _ hp)⟩
  have hown : ∀ call ∈ calls ++ (r.phase.finished config r.cls r.body move).toList,
      call.request = next.1.body ∧ call.transaction = next.1.cls.transaction ∧
        call.historical = next.1.cls.historical := by
    intro call hm
    rw [hbody, hcls]
    rcases List.mem_append.mp hm with hm | hm
    · exact h.own call hm
    · exact Phase.finished_of h.context (Option.mem_toList.mp hm)
  have hcontext : ∀ ctx ∈ next.1.phase.ctx?, RequestCtx.Of config next.1.cls next.1.body ctx := by
    rw [hbody, hcls]
    exact Request.move_ctx hn h.context
  cases hp : r.phase.reply with
  | none =>
    have hcalls : calls = [] := by
      have hreplies := h.replies
      rw [hp] at hreplies
      exact List.map_eq_nil_iff.mp hreplies
    subst hcalls
    have hnone : legs.find? (·.ok) = none := by
      have hack := h.acknowledged
      exact Option.map_eq_none_iff.mp hack.symm
    have hack := @Phase.finished_acknowledging config r.cls r.body _ hp move
    refine ⟨hcontext, hreached, ?_, hown, ?_, ?_, hbilled⟩
    · rw [Request.move_finished hp hn]
      cases r.phase.finished config r.cls r.body move <;> rfl
    · rw [List.find?_append, hnone, Option.none_or, ← hack]
      cases r.phase.finished config r.cls r.body move <;> rfl
    · intro hr hl
      have hwon := Request.move_won hp hn hr hl
      rw [hack, Option.isSome_map] at hwon
      rwa [List.find?_append, hnone, Option.none_or]
  | some reply =>
    have hfinished := @Phase.finished_of_reply config r.cls r.body _ _ hp move
    have hreply := Request.move_reply hn hp
    have hfind : (legs ++ (r.phase.recorded config move).toList).find? (·.ok) =
        legs.find? (·.ok) := by
      rw [List.find?_append]
      cases hrec : r.phase.recorded config move with
      | none => exact Option.or_none
      | some leg =>
        have hne : r.phase.legs ≠ [] := List.ne_nil_of_mem (Phase.recorded_leg hrec).1
        have hsome := h.stragglers (by rw [hp]; rfl) hne
        exact Option.or_of_isSome hsome
    rw [hfinished, Option.toList_none, List.append_nil]
    refine ⟨hcontext, hreached, ?_, ?_, ?_, ?_, hbilled⟩
    · rw [hreply, ← hp]
      exact h.replies
    · rw [hbody, hcls]
      exact h.own
    · rw [hfind]
      exact h.acknowledged
    · intro _ hl
      rw [hfind]
      apply h.stragglers (by rw [hp]; rfl)
      intro hnil
      have hsentNone : r.phase.sent config client now m move = none := by
        cases hphase : r.phase with
        | answered reply ctx pending => cases move <;> rfl
        | _ =>
          rw [hphase] at hp
          cases hp
      rw [hnil, hsentNone] at hlegs
      have hempty := List.nil_perm.mp hlegs
      exact hl (List.append_eq_nil_iff.mp hempty).2

end step

def Sys.finished (config : Config) (s : Sys) : Event → Option FinishCall
  | .move i move => s.requests[i]?.bind (fun r => r.phase.finished config r.cls r.body move)
  | _ => none

/-- Every request carries the class of its own body, in its context too. -/
def Request.Classed (config : Config) (r : Request) : Prop :=
  r.cls = requestClass config r.body ∧ ∀ ctx ∈ r.phase.ctx?, RequestCtx.Of config r.cls r.body ctx

theorem Sys.step_classed {s t : Sys} {e : Event} (h : s.step config client e = some t)
    (hs : ∀ r ∈ s.requests, r.Classed config) : ∀ r ∈ t.requests, r.Classed config := by
  refine Sys.step_requests h (fun body => ⟨rfl, fun ctx hc => by cases hc⟩) ?_ hs
  rintro i move r next - - hn ⟨hcls, hctx⟩
  obtain ⟨hbody, hsame, -⟩ := Request.move_frame hn
  refine ⟨by rw [hbody, hsame, hcls], ?_⟩
  rw [hbody, hsame]
  exact Request.move_ctx hn hctx

theorem proxy_classed {s : Sys} (h : (proxy config client).Reachable s) :
    ∀ r ∈ s.requests, r.Classed config :=
  System.invariant_reachable (I := fun s : Sys => ∀ r ∈ s.requests, r.Classed config)
    (fun s hi r hr => by simp [hi.1] at hr) (fun _ _ _ hs ht => Sys.step_classed ht hs) h

/-- What the answered requests come to, when each counts by its class and body. -/
def Sys.answered (w : RequestClass → Body → Nat) (s : Sys) : Nat :=
  (s.requests.map (fun r => if r.phase.reply.isSome then w r.cls r.body else 0)).sum

/-- A step answers the request whose analytics it tells, and no other. -/
theorem Sys.step_answered {s t : Sys} {e : Event} (h : s.step config client e = some t)
    (hs : ∀ r ∈ s.requests, r.Classed config) (w : TransactionRequest → HistoricalRequestClass →
      Body → Nat) :
    ((s.finished config e).elim 0 (fun call => w call.transaction call.historical call.request)) +
        s.answered (fun cls body => w cls.transaction cls.historical body) =
      t.answered (fun cls body => w cls.transaction cls.historical body) := by
  rcases Sys.step_cases h with ⟨he, hne⟩ | ⟨body, rfl, he⟩ | ⟨i, move, r, next, rfl, hr, hn, rfl⟩
  · have hnone : s.finished config e = none := by
      cases e with
      | move i move => exact absurd rfl (hne i move)
      | tick | arrive | probe | reference => rfl
    simp [hnone, answered, he]
  · simp [finished, answered, he, Phase.reply]
  · have hsum := sum_map_set (fun r : Request => if r.phase.reply.isSome then
      w r.cls.transaction r.cls.historical r.body else 0) hr next.1
    obtain ⟨-, hctx⟩ := hs r (List.mem_of_getElem? hr)
    obtain ⟨hbody, hcls, -⟩ := Request.move_frame hn
    have hmove : ((r.phase.finished config r.cls r.body move).elim 0
          (fun call => w call.transaction call.historical call.request)) +
        (if r.phase.reply.isSome then w r.cls.transaction r.cls.historical r.body else 0) =
      if next.1.phase.reply.isSome then
        w next.1.cls.transaction next.1.cls.historical next.1.body else 0 := by
      rw [hbody, hcls]
      cases hp : r.phase.reply with
      | none =>
        rw [Request.move_finished hp hn, Option.isSome_map]
        cases hf : r.phase.finished config r.cls r.body move with
        | none => rfl
        | some call =>
          obtain ⟨hrequest, htransaction, hhistorical⟩ := Phase.finished_of hctx hf
          simp [hrequest, htransaction, hhistorical]
      | some reply =>
        rw [Phase.finished_of_reply hp, Request.move_reply hn hp]
        simp
    simp only [finished, answered, hr, Option.bind_some]
    omega

/-- The calls of `finish_analytics` that a run makes. -/
def finishes (config : Config) (client : String → Bool) (s : Sys) (es : List Event) :
    List FinishCall :=
  (proxy config client).trace (fun s e => (s.finished config e).toList) s es

/-- There is one call for each answered request. -/
theorem proxy_answered {s₀ s : Sys} {es : List Event} (hinit : (proxy config client).init s₀)
    (hrun : (proxy config client).run s₀ es = some s)
    (w : TransactionRequest → HistoricalRequestClass → Body → Nat) :
    ((finishes config client s₀ es).map
        (fun call => w call.transaction call.historical call.request)).sum =
      s.answered (fun cls body => w cls.transaction cls.historical body) := by
  have htotal := System.total_add_eq (I := fun s : Sys => ∀ r ∈ s.requests, r.Classed config)
    (f := fun s e => (((s.finished config e).toList.map
      (fun call => w call.transaction call.historical call.request)).sum)) (g := fun _ _ => 0)
    (φ := fun s => s.answered (fun cls body => w cls.transaction cls.historical body))
    (fun _ _ _ hs h => Sys.step_classed h hs) (fun s e t hs h => ?_)
    (fun r hr => by simp [hinit.1] at hr) hrun
  · have hnone : s₀.answered (fun cls body => w cls.transaction cls.historical body) = 0 := by
      simp [Sys.answered, hinit.1]
    rw [System.total_zero] at htotal
    rw [finishes, System.sum_trace]
    omega
  · have hstep := Sys.step_answered h hs w
    cases hf : s.finished config e with
    | none => simpa [hf] using hstep
    | some call => simpa [hf] using hstep

/-- What the moves of request `i` make, of all that a run makes. -/
def ownTrace {β : Type} (config : Config) (client : String → Bool) (i : Nat)
    (f : Sys → Event → Option β) (s : Sys) (es : List Event) : List β :=
  (proxy config client).trace (fun s e => if e.moves i then (f s e).toList else []) s es

def finishCalls (config : Config) (client : String → Bool) (i : Nat) (s : Sys) (es : List Event) :
    List FinishCall :=
  ownTrace config client i (·.finished config) s es

def requestLegs (config : Config) (client : String → Bool) (i : Nat) (s : Sys) (es : List Event) :
    List RecordedLeg :=
  ownTrace config client i (·.recorded config) s es

theorem ownTrace_snoc {β : Type} (f : Sys → Event → Option β) {s t u : Sys} {es : List Event}
    {e : Event} {i : Nat} (h : (proxy config client).run s es = some t)
    (ht : t.step config client e = some u) : ownTrace config client i f s (es ++ [e]) =
      ownTrace config client i f s es ++ if e.moves i then (f t e).toList else [] :=
  System.trace_snoc _ h ht

theorem Event.moves_iff {e : Event} {i : Nat} : e.moves i = true ↔ ∃ move, e = .move i move := by
  cases e with
  | move j move => simp [moves]
  | tick | arrive | probe | reference => simp [moves]

/-- The histories of request `i` after a run: its own calls and legs, none if it is not there. -/
def Sys.Tells (config : Config) (client : String → Bool) (s₀ : Sys) (i : Nat) (es : List Event)
    (s : Sys) : Prop :=
  (s.requests[i]? = none →
    finishCalls config client i s₀ es = [] ∧ requestLegs config client i s₀ es = []) ∧
  ∀ r, s.requests[i]? = some r →
    r.Told config (finishCalls config client i s₀ es) (requestLegs config client i s₀ es)

theorem Sys.Tells.step {s₀ s t : Sys} {e : Event} {es : List Event} {i : Nat}
    (h : Sys.Tells config client s₀ i es s) (hrun : (proxy config client).run s₀ es = some s)
    (ht : s.step config client e = some t) : Sys.Tells config client s₀ i (es ++ [e]) t := by
  have hcalls : finishCalls config client i s₀ (es ++ [e]) = finishCalls config client i s₀ es ++
      if e.moves i then (s.finished config e).toList else [] := ownTrace_snoc _ hrun ht
  have hlegs : requestLegs config client i s₀ (es ++ [e]) = requestLegs config client i s₀ es ++
      if e.moves i then (s.recorded config e).toList else [] := ownTrace_snoc _ hrun ht
  unfold Tells
  rw [hcalls, hlegs]
  cases hr : s.requests[i]? with
  | none =>
    obtain ⟨hnoCalls, hnoLegs⟩ := h.1 hr
    have hmoves : e.moves i = false := by
      by_contra hm
      obtain ⟨move, rfl⟩ := Event.moves_iff.mp (by simpa using hm)
      simp [Sys.step, hr] at ht
    rw [hnoCalls, hnoLegs, hmoves]
    exact ⟨fun _ => ⟨rfl, rfl⟩, fun r hr' => .arrived config (Sys.step_arrived ht hr hr').1⟩
  | some r =>
    have htold := h.2 r hr
    rcases Sys.step_request ht hr with ⟨hmoves, ht'⟩ | ⟨move, next, rfl, hn, ht'⟩
    · rw [ht', hmoves]
      constructor
      · intro hnone
        cases hnone
      · intro r' hr'
        obtain rfl := Option.some.inj hr'
        simpa using htold
    · rw [ht']
      constructor
      · intro hnone
        cases hnone
      · intro r' hr'
        obtain rfl := Option.some.inj hr'
        simpa [Event.moves, finished, recorded, hr] using htold.step hn

/-- In every run a request calls `finish_analytics` when it is answered and at no other time, with
its own body and class and with what the client gets. It names the provider whose success was
the first that the request recorded, and no provider if there was none. The legs it records,
before and after its reply, carry its label and its number of calls, and went where it was
forwarded. -/
theorem proxy_finishes_once (config : Config) (client : String → Bool) (s₀ s : Sys)
    (es : List Event) (hinit : (proxy config client).init s₀)
    (hrun : (proxy config client).run s₀ es = some s) (i : Nat) (r : Request)
    (hr : s.requests[i]? = some r) :
    (finishCalls config client i s₀ es).map (·.reply) = r.phase.reply.toList ∧
    (∀ call ∈ finishCalls config client i s₀ es,
      call.request = r.body ∧ call.transaction = r.cls.transaction ∧
        call.historical = r.cls.historical ∧
        call.acknowledging =
          ((requestLegs config client i s₀ es).find? (·.ok)).map (·.provider)) ∧
    ∀ leg ∈ requestLegs config client i s₀ es,
      leg.method = r.cls.method ∧ leg.count = r.cls.calls ∧ leg.provider ∈ r.forwards ∧
        (leg.ok = true → r.phase.reply.isSome) := by
  have htells := System.invariant_history (I := fun es s => Sys.Tells config client s₀ i es s)
    ⟨fun _ => ⟨rfl, rfl⟩, fun r hr => by simp [hinit.1] at hr⟩
    (fun as s e t hrun hs ht => hs.step hrun ht) hrun
  have htold := htells.2 r hr
  refine ⟨htold.replies, ?_, ?_⟩
  · intro call hc
    obtain ⟨hbody, htransaction, hhistorical⟩ := htold.own call hc
    refine ⟨hbody, htransaction, hhistorical, ?_⟩
    have hone : finishCalls config client i s₀ es = [call] := by
      have hlength := congrArg List.length htold.replies
      rw [List.length_map] at hlength
      have hle : (finishCalls config client i s₀ es).length ≤ 1 := by
        rw [hlength]
        cases r.phase.reply <;> simp
      obtain ⟨c, hcs⟩ := List.length_eq_one_iff.mp (le_antisymm hle (List.length_pos_of_mem hc))
      rw [hcs] at hc ⊢
      rw [List.mem_singleton.mp hc]
    have hack := htold.acknowledged
    rwa [hone] at hack
  · intro leg hl
    obtain ⟨hmethod, hcount, hf⟩ := htold.billed leg hl
    refine ⟨hmethod, hcount, hf, fun hok => ?_⟩
    have hsome : ((requestLegs config client i s₀ es).find? (·.ok)).isSome :=
      List.find?_isSome.mpr ⟨leg, hl, hok⟩
    have hack := htold.acknowledged
    have hreplies := htold.replies
    cases hcalls : finishCalls config client i s₀ es with
    | nil =>
      rw [hcalls, List.head?_nil, Option.bind_none] at hack
      rw [Option.map_eq_none_iff.mp hack.symm] at hsome
      cases hsome
    | cons call rest =>
      rw [hcalls] at hreplies
      cases hreply : r.phase.reply with
      | none =>
        rw [hreply] at hreplies
        cases hreplies
      | some reply => rfl

def broadcasting : Config where
  providers := twoProviders.providers
  routing := { broadcastWrites := true }

/-- Of two legs the second wins, and the first is recorded after the reply. -/
def secondWins : List Event :=
  [.arrive sendTransaction.body, .move 0 .snapshot, .move 0 (.route 0), .move 0 .dispatch,
    .move 0 .dispatch, .move 0 .dispatch,
    .move 0 (.complete "b" (some ⟨.ok ⟨.ok, sendTransaction.body⟩, 20⟩)),
    .move 0 (.complete "a" (some ⟨.ok ⟨.ok, sendTransaction.body⟩, 30⟩))]

theorem proxy_finishes_once_second_wins :
    let client : String → Bool := fun _ => true
    ∃ s r, (proxy broadcasting client).run (Sys.start broadcasting) secondWins = some s ∧
      s.requests[0]? = some r ∧
      (requestLegs broadcasting client 0 (Sys.start broadcasting) secondWins).map (·.provider) =
        ["b", "a"] ∧
      ∃ call ∈ finishCalls broadcasting client 0 (Sys.start broadcasting) secondWins,
        call.transaction = .single ∧ call.acknowledging = some "b" := by
  intro client
  have hends : ((proxy broadcasting client).run (Sys.start broadcasting) secondWins).any
      (fun s => s.requests[0]?.any (fun r => r.phase.reply.isSome && r.cls.transaction == .single)) =
        true := by
    decide +kernel
  obtain ⟨s, hs, hr⟩ := (Option.any_eq_true _ _).mp hends
  obtain ⟨r, hr, hphase⟩ := (Option.any_eq_true _ _).mp hr
  obtain ⟨hreply, hsingle⟩ : r.phase.reply.isSome ∧ r.cls.transaction = .single := by
    simpa using hphase
  obtain ⟨hreplies, hcalls, -⟩ := proxy_finishes_once broadcasting client _ s secondWins
    (Sys.start_init _ _) hs 0 r hr
  obtain ⟨reply, hreply⟩ := Option.isSome_iff_exists.mp hreply
  rw [hreply] at hreplies
  obtain ⟨call, rest, hcall, -⟩ := List.map_eq_cons_iff.mp hreplies
  have hm : call ∈ finishCalls broadcasting client 0 (Sys.start broadcasting) secondWins := by
    rw [hcall]
    exact List.mem_cons_self
  obtain ⟨-, htransaction, -, hack⟩ := hcalls call hm
  refine ⟨s, r, hs, hr, by decide +kernel, call, hm, htransaction.trans hsingle, hack.trans ?_⟩
  decide +kernel

end RpcPlane
