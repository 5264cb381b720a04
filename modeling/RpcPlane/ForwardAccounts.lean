import RpcPlane.HealthRuns
import RpcPlane.RateLaw

/-! Every forward of the proxy is accounted for: it is in flight, was lost with its task, or was
recorded, once. -/

namespace RpcPlane

/-- The providers that the legs in flight went to. -/
def Phase.legs : Phase → List String
  | .waiting _ _ _ name _ _ _ => [name]
  | .spawning _ _ _ spawned => spawned.map (·.name)
  | .racing _ pending _ => pending.map (·.name)
  | .answered _ _ pending => pending.map (·.name)
  | _ => []

/-- The provider of the leg whose task a move finds to have panicked. -/
def Phase.panicked : Phase → Move → Option String
  | .racing _ pending _, .complete name none => (pending.find? (·.name == name)).map (·.name)
  | .answered _ _ pending, .complete name none => (pending.find? (·.name == name)).map (·.name)
  | _, _ => none

def Phase.sent (config : Config) (client : String → Bool) (now : Instant) (m : Monitor)
    (phase : Phase) : Move → Option String
  | .dispatch => (phase.dispatch config client now m).bind (·.2.1)
  | _ => none

def Phase.ended (config : Config) (phase : Phase) (move : Move) : Option String :=
  ((phase.recorded config move).map (·.provider)).or (phase.panicked move)

theorem pending_perm {pending : List BroadcastLeg} {name : String} {spawned : BroadcastLeg}
    (h : pending.find? (·.name == name) = some spawned) : (pending.map (·.name)).Perm
      (name :: (pending.eraseP (·.name == name)).map (·.name)) := by
  have hname : spawned.name = name := by simpa using List.find?_some h
  have hperm := ((perm_eraseP_of_find? h).map (·.name)).symm
  rwa [List.map_cons, hname] at hperm

variable {config : Config} {client : String → Bool}

section move

variable {now : Instant} {m : Monitor} {ctx : RequestCtx} {rateGate : Bool} {max : Nat}

theorem sequenceRound_legs (names : List String) (l : Loop) :
    (sequenceRound config client now m ctx rateGate max names l).1.legs =
      (sequenceRound config client now m ctx rateGate max names l).2.1.toList := by
  cases names with
  | nil => rfl
  | cons name rest =>
    rw [sequenceRound]
    cases candidate config client max l name with
    | stop => rfl
    | skip => rfl
    | reach provider =>
      dsimp only
      split <;> rfl

theorem spawnRound_legs (names : List String) (spawned : List BroadcastLeg) :
    (spawnRound config client now m ctx rateGate names spawned).1.legs = spawned.map (·.name) ++
      (spawnRound config client now m ctx rateGate names spawned).2.1.toList := by
  cases names with
  | nil => exact (List.append_nil _).symm
  | cons name rest =>
    rw [spawnRound]
    cases config.provider name with
    | none => exact (List.append_nil _).symm
    | some provider =>
      dsimp only
      split
      · exact (List.append_nil _).symm
      · split
        · exact List.map_append
        · exact (List.append_nil _).symm

theorem routed_legs (cls : RequestClass) (body : Body) (snapshots : List HealthSnapshot)
    (observedTips : CommitmentSlots) (random : ℚ) :
    (Phase.routed config cls body snapshots observedTips random).legs = [] := by
  unfold Phase.routed
  dsimp only
  split
  · split <;> rfl
  · rfl

theorem settle_legs (ctx : RequestCtx) (pending : List BroadcastLeg) (best : Option BestError)
    (outcome : Outcome) (result : Except String HttpResponse) :
    (settle ctx pending best outcome result).legs = pending.map (·.name) := by
  unfold settle
  split
  · split <;> rfl
  · rfl

theorem Phase.dispatch_legs {phase : Phase} {round : Round}
    (h : phase.dispatch config client now m = some round) :
    round.1.legs = phase.legs ++ round.2.1.toList := by
  unfold dispatch at h
  split at h
  · obtain rfl := Option.some.inj h
    exact sequenceRound_legs _ _
  · obtain rfl := Option.some.inj h
    exact spawnRound_legs _ _
  · obtain rfl := Option.some.inj h
    rfl
  · cases h

theorem Phase.answer_legs {phase : Phase} {leg : Leg} {next : Phase × Monitor}
    (h : phase.answer config now m leg = some next) :
    phase.legs = (phase.ended config (.answer leg)).toList ++ next.1.legs := by
  unfold answer at h
  split at h
  · dsimp only at h
    split at h <;> (obtain rfl := Option.some.inj h; rfl)
  · cases h

theorem Phase.complete_legs {phase : Phase} {name : String} {leg : Option Leg}
    {next : Phase × Monitor} (h : phase.complete config now m name leg = some next) :
    phase.legs.Perm ((phase.ended config (.complete name leg)).toList ++ next.1.legs) := by
  have hname : ∀ {pending : List BroadcastLeg} {spawned : BroadcastLeg},
      pending.find? (·.name == name) = some spawned → spawned.name = name :=
    fun hf => by simpa using List.find?_some hf
  unfold complete at h
  split at h
  · rename_i ctx pending best
    split at h
    · cases h
    · rename_i spawned hf
      obtain rfl := Option.some.inj h
      have hended : (racing ctx pending best).ended config (.complete name none) = some name := by
        simp [ended, recorded, panicked, hf, hname hf]
      rw [hended]
      exact pending_perm hf
    · rename_i spawned leg hf
      obtain rfl := Option.some.inj h
      have hended : (racing ctx pending best).ended config (.complete name (some leg)) = some name := by
        simp [ended, recorded, hf]
      rw [hended, settle_legs]
      exact pending_perm hf
  · rename_i reply ctx pending
    split at h
    · cases h
    · rename_i spawned hf
      obtain rfl := Option.some.inj h
      have hended : (answered reply ctx pending).ended config (.complete name none) = some name := by
        simp [ended, recorded, panicked, hf, hname hf]
      rw [hended]
      exact pending_perm hf
    · rename_i spawned leg hf
      obtain rfl := Option.some.inj h
      have hended : (answered reply ctx pending).ended config (.complete name (some leg)) =
          some name := by
        simp [ended, recorded, hf]
      rw [hended]
      exact pending_perm hf
  · cases h

/-- A move turns what it sends into legs in flight, and legs in flight into what it ends. -/
theorem Request.move_legs {r : Request} {move : Move} {next : Request × Monitor}
    (h : r.move config client now m move = some next) :
    (r.phase.legs ++ (r.phase.sent config client now m move).toList).Perm
      ((r.phase.ended config move).toList ++ next.1.phase.legs) := by
  cases move with
  | snapshot =>
    simp only [Request.move] at h
    split at h
    · rename_i hp
      obtain rfl := Option.some.inj h
      rw [hp]
      exact .refl _
    · cases h
  | route random =>
    simp only [Request.move] at h
    split at h
    · rename_i hp
      split at h
      · obtain rfl := Option.some.inj h
        rw [hp, routed_legs]
        exact .refl _
      · cases h
    · cases h
  | dispatch =>
    obtain ⟨round, hd, rfl⟩ := Option.map_eq_some_iff.mp h
    have hended : r.phase.ended config .dispatch = none := by
      cases r.phase <;> rfl
    have hlegs := Phase.dispatch_legs hd
    simp [Phase.sent, hd, hended, hlegs]
  | answer leg =>
    obtain ⟨next, hn, rfl⟩ := Option.map_eq_some_iff.mp h
    have hlegs := Phase.answer_legs hn
    simp [Phase.sent, hlegs]
  | complete name leg =>
    obtain ⟨next, hn, rfl⟩ := Option.map_eq_some_iff.mp h
    have hlegs := Phase.complete_legs hn
    simpa [Phase.sent] using hlegs

end move

def Sys.recorded (config : Config) (s : Sys) : Event → Option RecordedLeg
  | .move i move => s.requests[i]?.bind (·.phase.recorded config move)
  | _ => none

def Sys.panicked (s : Sys) : Event → Option String
  | .move i move => s.requests[i]?.bind (·.phase.panicked move)
  | _ => none

def Sys.inFlight (s : Sys) (name : String) : Nat := (s.requests.map (·.phase.legs.count name)).sum

/-- The legs that a run records, with the times it records them at. -/
def recordedLegs (config : Config) (client : String → Bool) (s : Sys) (es : List Event) :
    List (Instant × RecordedLeg) :=
  (proxy config client).trace (fun s e => (s.recorded config e).toList.map (s.now, ·)) s es

def panics (config : Config) (client : String → Bool) (name : String) (s : Sys)
    (es : List Event) : Nat :=
  (proxy config client).total (fun s e => (s.panicked e).toList.count name) s es

theorem Phase.ended_count (phase : Phase) (move : Move) (name : String) :
    (phase.ended config move).toList.count name =
      (phase.recorded config move).toList.countP (·.provider == name) +
        (phase.panicked move).toList.count name := by
  unfold ended
  cases hrec : phase.recorded config move with
  | none => simp
  | some leg =>
    have hnone : phase.panicked move = none := by
      unfold recorded at hrec
      split at hrec
      · rfl
      · rfl
      · rfl
      · cases hrec
    simp [hnone, List.count_singleton, List.countP_singleton]

theorem Phase.sent_forwarded {s : Sys} {i : Nat} {r : Request} (hr : s.requests[i]? = some r)
    (move : Move) (name : String) :
    (r.phase.sent config client s.now s.monitor move).toList.count name =
      (s.forwarded config client (.move i move)).toList.countP (·.1 == name) := by
  cases move with
  | dispatch =>
    simp only [sent, Sys.forwarded, hr, Option.bind_some]
    cases r.phase.dispatch config client s.now s.monitor with
    | none => rfl
    | some round =>
      cases hsent : round.2.1 with
      | none => simp [hsent]
      | some n => simp [hsent, List.count_singleton, List.countP_singleton]
  | snapshot | route random | answer leg | complete n leg => rfl

theorem Sys.step_inFlight {s t : Sys} {e : Event} (h : s.step config client e = some t)
    (name : String) :
    (s.forwarded config client e).toList.countP (·.1 == name) + s.inFlight name =
      ((s.recorded config e).toList.countP (·.provider == name) + (s.panicked e).toList.count name) +
        t.inFlight name := by
  rcases Sys.step_cases h with ⟨he, hne⟩ | ⟨body, rfl, he⟩ | ⟨i, move, r, next, rfl, hr, hn, rfl⟩
  · have hrec : s.recorded config e = none := by
      cases e with
      | move i move => exact absurd rfl (hne i move)
      | tick | arrive | probe | reference => rfl
    have hpanic : s.panicked e = none := by
      cases e with
      | move i move => exact absurd rfl (hne i move)
      | tick | arrive | probe | reference => rfl
    rw [forwarded_eq_none (fun i => hne i .dispatch), hrec, hpanic, inFlight, inFlight, he]
    rfl
  · simp [inFlight, he, forwarded, recorded, panicked, Phase.legs]
  · have hsum := sum_map_set (·.phase.legs.count name) hr next.1
    have hcount := (Request.move_legs hn).count_eq name
    rw [List.count_append, List.count_append, Phase.ended_count, Phase.sent_forwarded hr] at hcount
    simp only [recorded, panicked, hr, Option.bind_some, inFlight]
    omega

theorem RecordedLeg.call_live {leg : RecordedLeg} {now : Instant} {c : RecordCall}
    (h : leg.call now = some c) : c.isProbe = false := by
  obtain ⟨sample, -, rfl⟩ := Option.map_eq_some_iff.mp h
  rfl

theorem RecordedLeg.ops_live (leg : RecordedLeg) (now : Instant) (k : String) :
    ((leg.ops now k).filterMap EntryOp.call?).filter (!·.isProbe) =
      ([leg].filter (·.provider == k)).filterMap (·.call now) := by
  by_cases hk : leg.provider = k
  · cases hc : leg.call now with
    | none => simp [ops, hk, hc]
    | some c => simp [ops, hk, hc, EntryOp.call?, RecordedLeg.call_live hc]
  · simp [ops, hk]

theorem ProbeEnd.ops_live (result : ProbeEnd) (now : Instant) :
    ((result.ops now).filterMap EntryOp.call?).filter (!·.isProbe) = [] := by
  cases result <;> rfl

theorem Phase.ops_live (config : Config) (client : String → Bool) (phase : Phase) (now : Instant) (k : String) (move : Move) :
    ((phase.ops config client now k move).filterMap EntryOp.call?).filter (!·.isProbe) =
      ((phase.recorded config move).toList.filter (·.provider == k)).filterMap (·.call now) := by
  have hrest : ∀ o : Option RecordedLeg,
      ((o.elim [] (·.ops now k)).filterMap EntryOp.call?).filter (!·.isProbe) =
        (o.toList.filter (·.provider == k)).filterMap (·.call now) := by
    intro o
    cases o with
    | none => rfl
    | some leg => exact leg.ops_live now k
  cases move with
  | snapshot =>
    have hnone : phase.recorded config .snapshot = none := by cases phase <;> rfl
    rw [hnone]
    rfl
  | dispatch =>
    have hnone : phase.recorded config .dispatch = none := by cases phase <;> rfl
    rw [hnone, ops]
    split <;> rfl
  | route random => exact hrest _
  | answer leg => exact hrest _
  | complete name leg => exact hrest _

theorem Sys.calls_live (config : Config) (client : String → Bool) (s : Sys) (k : String) (e : Event) :
    (s.calls config client k e).filter (!·.isProbe) =
      (((s.recorded config e).toList.map (s.now, ·)).filter (·.2.provider == k)).filterMap
        (fun recorded => recorded.2.call recorded.1) := by
  cases e with
  | tick ns => rfl
  | arrive body => rfl
  | reference slots round => rfl
  | probe name result =>
    have hlive := result.ops_live s.now
    simp only [calls, ops, recorded, Option.toList_none, List.map_nil, List.filter_nil,
      List.filterMap_nil]
    split
    · exact hlive
    · rfl
  | move i move =>
    simp only [calls, ops, recorded]
    cases hr : s.requests[i]? with
    | none => rfl
    | some r =>
      have hlive := r.phase.ops_live config client s.now k move
      simp only [Option.bind_some]
      rw [hlive, List.filter_map, List.filterMap_map]
      rfl

/-- In every run, the forwards to a provider are those in flight, those lost in a panic, and
those recorded, each once; the live calls of its health are the recorded legs, one for each
that is not neutral, in their order; and its health, but for the slots, is what these and its
probes make of a new one. -/
theorem proxy_accounts (config : Config) (client : String → Bool) (s₀ s : Sys) (es : List Event)
    (hinit : (proxy config client).init s₀) (hrun : (proxy config client).run s₀ es = some s)
    (name : String) :
    s.forwardsTo name =
        (recordedLegs config client s₀ es).countP (·.2.provider == name) +
          panics config client name s₀ es + s.inFlight name ∧
      (recordCalls config client name s₀ es).filter (!·.isProbe) =
        ((recordedLegs config client s₀ es).filter (·.2.provider == name)).filterMap
          (fun recorded => recorded.2.call recorded.1) ∧
      (config.validate = .ok () → (config.provider name).isSome →
        ∃ e τ, s.monitor.entry name = some e ∧ τ ≤ s.now ∧
          (recordings config.health).run (0, {}) (recordCalls config client name s₀ es) =
            some (τ, e.health.inner.withoutSlots)) := by
  refine ⟨?_, ?_, ?_⟩
  · have hflight := System.total_add_eq (I := fun _ => True) (φ := (·.inFlight name))
      (fun _ _ _ _ _ => trivial) (fun _ _ _ _ h => Sys.step_inFlight h name) trivial hrun
    have hsent := System.total_add_eq (I := fun _ => True) (φ := (·.forwardsTo name))
      (f := fun s e => (s.forwarded config client e).toList.countP (·.1 == name)) (g := fun _ _ => 0)
      (fun _ _ _ _ _ => trivial) (fun s e t _ h => by rw [Sys.step_forwards h name]; omega)
      trivial hrun
    have hnone : s₀.inFlight name = 0 ∧ s₀.forwardsTo name = 0 := by
      simp [Sys.inFlight, Sys.forwardsTo, hinit.1]
    rw [System.total_add] at hflight
    rw [System.total_zero] at hsent
    rw [recordedLegs, System.countP_trace, panics]
    simp only [List.countP_map, Function.comp_def]
    omega
  · have hlive := fun (step : Sys × Event × Sys) => step.1.calls_live config client name step.2.1
    simp only [recordCalls, recordedLegs, System.trace, List.filter_flatMap, List.filterMap_flatMap,
      hlive]
  · intro hv hprovider
    obtain ⟨p, hp⟩ := Option.isSome_iff_exists.mp hprovider
    obtain ⟨⟨τ, g⟩, hcalls, hτ, e, he, hg⟩ := proxy_mirrors hv hp hinit hrun
    obtain rfl : g = e.health.inner.withoutSlots := hg
    exact ⟨e, τ, he, hτ, hcalls⟩

/-- Of two forwards one is answered and the other still in flight; a probe has come in between. -/
def oneAnswered : List Event :=
  requestsASecondApart ++ [.probe "a" (.ok ⟨{ processed := some 90 }, 30⟩ (some 1)),
    .move 0 (.answer ⟨.error "connection refused", 1⟩)]

theorem proxy_accounts_one_answered :
    let client : String → Bool := fun _ => true
    ∃ s e τ, (proxy oneCapped client).run (Sys.start oneCapped) oneAnswered = some s ∧
      s.forwardsTo "a" = 2 ∧ s.inFlight "a" = 1 ∧
      (recordedLegs oneCapped client (Sys.start oneCapped) oneAnswered).countP
        (·.2.provider == "a") = 1 ∧
      s.monitor.entry "a" = some e ∧ e.health.inner.window.map Prod.snd = [.success, .failure] ∧
      (recordings oneCapped.health).run (0, {})
        (recordCalls oneCapped client "a" (Sys.start oneCapped) oneAnswered) =
          some (τ, e.health.inner.withoutSlots) ∧
      ((recordCalls oneCapped client "a" (Sys.start oneCapped) oneAnswered).filter
        (!·.isProbe)).map (·.sample) = [.failure] := by
  intro client
  have hends : ((proxy oneCapped client).run (Sys.start oneCapped) oneAnswered).any
      (fun s => s.forwardsTo "a" == 2 && s.inFlight "a" == 1 && (s.monitor.entry "a").any
        (fun e => e.health.inner.window.map Prod.snd == [.success, .failure])) = true := by
    decide +kernel
  obtain ⟨s, hs, hcounts⟩ := (Option.any_eq_true _ _).mp hends
  obtain ⟨⟨hsent, hflight⟩, hwindow⟩ := by
    simpa only [Bool.and_eq_true, beq_iff_eq] using hcounts
  obtain ⟨e, he, hwindow⟩ := (Option.any_eq_true _ _).mp hwindow
  have hpanics : panics oneCapped client "a" (Sys.start oneCapped) oneAnswered = 0 := by
    decide +kernel
  obtain ⟨haccounts, hlive, hhealth⟩ := proxy_accounts oneCapped client (Sys.start oneCapped) s
    oneAnswered (Sys.start_init _ _) hs "a"
  obtain ⟨e', τ, he', -, hcalls⟩ := hhealth rfl rfl
  obtain rfl : e = e' := Option.some.inj (he.symm.trans he')
  refine ⟨s, e, τ, hs, hsent, hflight, by omega, he, by simpa using hwindow, hcalls, ?_⟩
  rw [hlive]
  decide +kernel

end RpcPlane
