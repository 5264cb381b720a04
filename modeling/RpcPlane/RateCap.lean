import RpcPlane.Interleaving

/-! Rate caps under concurrency. The peek that decides whether a request may be shed comes
before the tokens are spent, so other requests can empty every bucket in between. -/

namespace RpcPlane

variable {config : Config} {client : String → Bool}

def Eligible (config : Config) (client : String → Bool) (cls : RequestClass) : Prop :=
  ∃ name p, config.provider name = some p ∧ client name = true ∧
    routeSupports config.providers cls.method cls.fullHistory name = true

def Reply.IsAllProvidersFailed (reply : Reply) : Prop :=
  reply.status = allProvidersFailed.status ∧ reply.body.bytes = allProvidersFailed.body.bytes

instance (reply : Reply) : Decidable reply.IsAllProvidersFailed :=
  inferInstanceAs (Decidable (_ ∧ _))

def Phase.reply : Phase → Option Reply
  | .answered reply _ _ => some reply
  | _ => none

def Phase.lastGated : Phase → Option String
  | .sequence _ true _ [name] _ => some name
  | .spawning _ true [name] _ => some name
  | _ => none

def Sys.Serves (config : Config) (client : String → Bool) (s : Sys) (name : String) : Prop :=
  ∃ p ∈ config.provider name, client name = true ∧
    (p.maxRps = none ∨ (s.monitor.tryAcquire name s.now).1 = true)

instance (config : Config) (client : String → Bool) (s : Sys) (name : String) :
    Decidable (s.Serves config client name) :=
  inferInstanceAs (Decidable (∃ p ∈ config.provider name, _))

/-- When a request under the gate that has not been forwarded comes to the last provider of
its list, it can be forwarded to that one. -/
def LastServes (config : Config) (client : String → Bool) (s : Sys) : Event → Prop
  | .move i .dispatch => ∀ r ∈ s.requests[i]?, r.forwards = [] →
      ∀ name ∈ r.phase.lastGated, s.Serves config client name
  | _ => True

instance (config : Config) (client : String → Bool) (s : Sys) :
    ∀ e, Decidable (LastServes config client s e)
  | .move i .dispatch => inferInstanceAs (Decidable (∀ r ∈ s.requests[i]?, _ → _))
  | .move _ .snapshot | .move _ (.route _) | .move _ (.answer _) | .move _ (.complete _ _) =>
    isTrue trivial
  | .tick _ | .arrive _ | .probe _ _ | .reference _ _ => isTrue trivial

def Remaining (config : Config) (client : String → Bool) (rateGate : Bool)
    (names : List String) : Prop :=
  if rateGate then names ≠ []
  else ∃ name ∈ names, ∃ p, config.provider name = some p ∧ client name = true

/-- A request that has not been forwarded yet is still on its way to a forward. -/
def Phase.OnTrack (config : Config) (client : String → Bool) : Phase → Prop
  | .arrived => True
  | .snapped snapshots _ => (snapshots.map (·.name)).Perm (config.providers.map (·.name))
  | .sequence _ rateGate max names l =>
    l.attempt = 0 ∧ l.miss = none ∧ 0 < max ∧ Remaining config client rateGate names
  | .spawning _ rateGate names _ => Remaining config client rateGate names
  | .waiting .. | .racing .. | .answered .. => False

def Request.OnTrack (config : Config) (client : String → Bool) (r : Request) : Prop :=
  Eligible config client r.cls → r.forwards = [] → r.phase.OnTrack config client

theorem Monitor.passGate_ungated (m : Monitor) (name : String) (provider : ProviderConfig)
    (now : Instant) : (m.passGate name provider now false).1 = true := by
  simp [passGate_eq]

theorem Monitor.passGate_of_serves {m : Monitor} {name : String} {p : ProviderConfig} {now : Instant}
    (h : p.maxRps = none ∨ (m.tryAcquire name now).1 = true) (rateGate : Bool) :
    (m.passGate name p now rateGate).1 = true := by
  rw [passGate_eq]
  rcases h with h | h <;> simp [h]

theorem Remaining.passed {s : Sys} {rateGate : Bool} {name : String} {rest : List String}
    (h : Remaining config client rateGate (name :: rest))
    (hlast : rateGate = true → rest = [] → s.Serves config client name)
    (hpassed : ∀ p, config.provider name = some p → client name = true →
      (s.monitor.passGate name p s.now rateGate).1 = false) :
    Remaining config client rateGate rest := by
  cases rateGate with
  | true =>
    simp only [Remaining, if_true]
    intro hnil
    obtain ⟨p, hp, hc, hserves⟩ := hlast rfl hnil
    exact absurd ((hpassed p hp hc).symm.trans (Monitor.passGate_of_serves hserves true)) (by decide)
  | false =>
    simp only [Remaining, Bool.false_eq_true, if_false] at h ⊢
    obtain ⟨n, hn, p, hp, hc⟩ := h
    rcases List.mem_cons.mp hn with rfl | hn
    · exact absurd ((hpassed p hp hc).symm.trans (s.monitor.passGate_ungated n p s.now)) (by decide)
    · exact ⟨n, hn, p, hp, hc⟩

theorem Remaining.ne_nil {rateGate : Bool} {names : List String}
    (h : Remaining config client rateGate names) : names ≠ [] := by
  cases rateGate with
  | true => simpa [Remaining] using h
  | false =>
    simp only [Remaining, Bool.false_eq_true, if_false] at h
    obtain ⟨n, hn, -⟩ := h
    exact List.ne_nil_of_mem hn

section

variable {s : Sys} {ctx : RequestCtx} {rateGate : Bool}

theorem sequenceRound_onTrack {max : Nat} {names : List String} {l : Loop} {round : Round}
    (h : sequenceRound config client s.now s.monitor ctx rateGate max names l = round)
    (htrack : (Phase.sequence ctx rateGate max names l).OnTrack config client)
    (hlast : ∀ name, (Phase.sequence ctx rateGate max names l).lastGated = some name →
      s.Serves config client name) (hsent : round.2.1 = none) :
    round.1.OnTrack config client := by
  obtain ⟨hl, hm, hmax, hr⟩ := htrack
  cases names with
  | nil => exact absurd rfl hr.ne_nil
  | cons name rest =>
    have hlast' : rateGate = true → rest = [] → s.Serves config client name := by
      rintro rfl rfl
      exact hlast name rfl
    rw [sequenceRound] at h
    rcases candidate_cases config client max l name with
      ⟨-, hstop⟩ | ⟨hc, -, hskip⟩ | ⟨p, hc, -, hp, -, -⟩
    · rw [hl] at hstop
      exact absurd hmax (not_lt.mpr hstop)
    · simp only [hc] at h
      subst h
      refine ⟨hl, hm, hmax, hr.passed hlast' (fun p hp hclient => ?_)⟩
      rcases hskip p hp with ⟨hmiss, -⟩ | hn
      · rw [hm] at hmiss
        exact absurd hmiss (by decide)
      · exact absurd (hn.symm.trans hclient) (by decide)
    · simp only [hc] at h
      cases ha : (s.monitor.passGate name p s.now rateGate).1 with
      | true =>
        rw [ha, if_pos rfl] at h
        subst h
        cases hsent
      | false =>
        rw [ha, if_neg (by decide)] at h
        subst h
        refine ⟨hl, hm, hmax, hr.passed hlast' (fun q hq _ => ?_)⟩
        obtain rfl : p = q := Option.some.inj (hp.symm.trans hq)
        exact ha

theorem spawnRound_onTrack {names : List String} {spawned : List BroadcastLeg} {round : Round}
    (h : spawnRound config client s.now s.monitor ctx rateGate names spawned = round)
    (hr : Remaining config client rateGate names)
    (hlast : ∀ name, (Phase.spawning ctx rateGate names spawned).lastGated = some name →
      s.Serves config client name) (hsent : round.2.1 = none) :
    round.1.OnTrack config client := by
  cases names with
  | nil => exact absurd rfl hr.ne_nil
  | cons name rest =>
    have hlast' : rateGate = true → rest = [] → s.Serves config client name := by
      rintro rfl rfl
      exact hlast name rfl
    rw [spawnRound] at h
    cases hp : config.provider name with
    | none =>
      rw [hp] at h
      subst h
      exact hr.passed hlast' (fun p hp' => absurd (hp.symm.trans hp') (by simp))
    | some p =>
      rw [hp] at h
      dsimp only at h
      cases hc : client name with
      | false =>
        rw [hc, Bool.not_false, if_pos rfl] at h
        subst h
        exact hr.passed hlast' (fun q _ hq => absurd (hc.symm.trans hq) (by decide))
      | true =>
        rw [hc, Bool.not_true, if_neg (by decide)] at h
        cases ha : (s.monitor.passGate name p s.now rateGate).1 with
        | true =>
          rw [ha, if_pos rfl] at h
          subst h
          cases hsent
        | false =>
          rw [ha, if_neg (by decide)] at h
          subst h
          refine hr.passed hlast' (fun q hq _ => ?_)
          obtain rfl : p = q := Option.some.inj (hp.symm.trans hq)
          exact ha

theorem routed_onTrack {cls : RequestClass} {body : Body} {snapshots : List HealthSnapshot}
    {observedTips : CommitmentSlots} {random : ℚ} (he : Eligible config client cls)
    (hs : (snapshots.map (·.name)).Perm (config.providers.map (·.name))) :
    (Phase.routed config cls body snapshots observedTips random).OnTrack config client := by
  obtain ⟨name, p, hp, hclient, hsupports⟩ := he
  have hdegraded := route_degraded cls.method snapshots config.routing.strategy config.providers
    config.routing.broadcastWrites config.routing.writeMethods cls.fullHistory random
  have hremaining : Remaining config client (!(cls.decision config snapshots random).degraded)
      (cls.decision config snapshots random).providers := by
    rw [RequestClass.decision, hdegraded]
    cases ha : availableFor cls.method snapshots config.providers cls.fullHistory with
    | nil =>
      have hmem : name ∈ snapshots.map (·.name) := by
        rw [hs.mem_iff]
        obtain ⟨hpm, rfl⟩ := Config.provider_some hp
        exact List.mem_map_of_mem hpm
      obtain ⟨snap, hsnap, rfl⟩ := List.mem_map.mp hmem
      exact ⟨_, (mem_route_degraded _ _ _ _ _ _ _ _ ha).mpr ⟨snap, hsnap, rfl, hsupports⟩, p, hp,
        hclient⟩
    | cons a as =>
      have hne : availableFor cls.method snapshots config.providers cls.fullHistory ≠ [] := by
        rw [ha]
        exact List.cons_ne_nil _ _
      refine List.ne_nil_of_mem (a := a.name) ((mem_route_available _ _ _ _ _ _ _ _ hne).mpr ?_)
      rw [ha]
      exact List.mem_map_of_mem List.mem_cons_self
  have hne := hremaining.ne_nil
  unfold Phase.routed
  dsimp only
  split
  · rw [if_neg (by simpa using hne)]
    exact hremaining
  · refine ⟨rfl, rfl, ?_, hremaining⟩
    have hlen := List.length_pos_iff.mpr hne
    unfold maxAttempts
    omega

theorem Request.move_onTrack {r : Request} {move : Move} {next : Request × Monitor}
    (h : r.move config client s.now s.monitor move = some next) (ht : s.Tracks config)
    (hr : r.OnTrack config client)
    (hlast : move = .dispatch → r.forwards = [] → ∀ name, r.phase.lastGated = some name →
      s.Serves config client name) : next.1.OnTrack config client := by
  intro he hf
  cases move with
  | snapshot =>
    simp only [Request.move] at h
    split at h
    · obtain rfl := Option.some.inj h
      have hn := s.monitor.snapshots_names s.now config.health
      simp only [Phase.OnTrack, Monitor.snapshotsWithTips]
      rw [hn]
      exact ht
    · cases h
  | route random =>
    simp only [Request.move] at h
    split at h
    · rename_i snapshots observedTips hp
      split at h
      · obtain rfl := Option.some.inj h
        have hs := hr he hf
        rw [hp] at hs
        exact routed_onTrack he hs
      · cases h
    · cases h
  | dispatch =>
    obtain ⟨round, hd, rfl⟩ := Option.map_eq_some_iff.mp h
    obtain ⟨hrf, hsent⟩ := List.append_eq_nil_iff.mp hf
    have hsent : round.2.1 = none := by simpa using hsent
    have htrack := hr he hrf
    have hlast := hlast rfl hrf
    generalize r.phase = phase at hd htrack hlast
    unfold Phase.dispatch at hd
    split at hd
    · exact sequenceRound_onTrack (Option.some.inj hd) htrack hlast hsent
    · exact spawnRound_onTrack (Option.some.inj hd) htrack hlast hsent
    · exact absurd htrack id
    · cases hd
  | answer leg =>
    obtain ⟨answer, ha, rfl⟩ := Option.map_eq_some_iff.mp h
    have htrack := hr he hf
    generalize r.phase = phase at ha htrack
    unfold Phase.answer at ha
    split at ha
    · exact absurd htrack id
    · cases ha
  | complete name leg =>
    obtain ⟨completion, hc, rfl⟩ := Option.map_eq_some_iff.mp h
    have htrack := hr he hf
    generalize r.phase = phase at hc htrack
    unfold Phase.complete at hc
    split at hc
    · exact absurd htrack id
    · exact absurd htrack id
    · cases hc

end

theorem Sys.step_onTrack {s t : Sys} {e : Event} (h : s.step config client e = some t)
    (hlast : LastServes config client s e)
    (hi : s.Tracks config ∧ ∀ r ∈ s.requests, r.OnTrack config client) :
    t.Tracks config ∧ ∀ r ∈ t.requests, r.OnTrack config client := by
  obtain ⟨ht, hr⟩ := hi
  refine ⟨by rw [Sys.Tracks, Sys.step_names h]; exact ht, ?_⟩
  refine Sys.step_requests h (fun _ _ _ => trivial) ?_ hr
  rintro i move r next rfl hri hn hrx
  refine Request.move_onTrack hn ht hrx ?_
  rintro rfl hf name hg
  exact hlast r hri hf name hg

/-- In every run in which the last provider of a gated list can always be forwarded to, a
request that some provider may serve is not failed without a forward. -/
theorem capped_request_forwarded (config : Config) (client : String → Bool) (s₀ s : Sys)
    (events : List Event) (hinit : (proxy config client).init s₀)
    (hmeets : (proxy config client).Meets (LastServes config client) s₀ events)
    (hrun : (proxy config client).run s₀ events = some s) :
    ∀ r ∈ s.requests, Eligible config client r.cls →
      ∀ reply, r.phase.reply = some reply → reply.IsAllProvidersFailed → r.forwards ≠ [] := by
  have hstart : s₀.Tracks config ∧ ∀ r ∈ s₀.requests, r.OnTrack config client := by
    refine ⟨proxy_init_tracks hinit, ?_⟩
    rw [hinit.1]
    simp
  have hinv := System.invariant_of_meets
    (I := fun s => s.Tracks config ∧ ∀ r ∈ s.requests, r.OnTrack config client)
    (fun _ _ _ hi hp h => Sys.step_onTrack h hp hi) hstart hmeets hrun
  intro r hr he reply hreply _ hf
  have htrack := hinv.2 r hr he hf
  cases hp : r.phase <;> rw [hp] at htrack hreply <;> first | exact htrack | cases hreply

def oneCapped : Config where
  providers := [{ name := "a", url := "http://a", maxRps := some 1 }]

def loneRequest : List Event :=
  [.arrive sendTransaction.body, .move 0 .snapshot, .move 0 (.route 0), .move 0 .dispatch,
    .move 0 (.answer ⟨.error "connection refused", 1⟩), .move 0 .dispatch]

theorem capped_request_forwarded_alone :
    ∃ s, (proxy oneCapped (fun _ => true)).run (Sys.start oneCapped) loneRequest = some s ∧
      ∀ r ∈ s.requests, Eligible oneCapped (fun _ => true) r.cls →
        ∀ reply, r.phase.reply = some reply → reply.IsAllProvidersFailed → r.forwards ≠ [] := by
  obtain ⟨s, hs⟩ : ∃ s, (proxy oneCapped (fun _ => true)).run (Sys.start oneCapped) loneRequest =
      some s := Option.isSome_iff_exists.mp (by decide +kernel)
  exact ⟨s, hs, capped_request_forwarded oneCapped (fun _ => true) _ s loneRequest
    (Sys.start_init _ _) (by decide +kernel) hs⟩

/-- Two requests that peek at the same token. The first one spends it. -/
def racingRequests : List Event :=
  [.arrive sendTransaction.body, .arrive sendTransaction.body, .move 0 .snapshot,
    .move 1 .snapshot, .move 0 (.route 0), .move 1 (.route 0), .move 0 .dispatch,
    .move 1 .dispatch, .move 1 .dispatch]

theorem second_request_never_forwarded :
    oneCapped.validate = .ok () ∧
      ∃ s, (proxy oneCapped (fun _ => true)).run (Sys.start oneCapped) racingRequests = some s ∧
        ∃ r ∈ s.requests, Eligible oneCapped (fun _ => true) r.cls ∧
          (∃ reply, r.phase.reply = some reply ∧ reply.IsAllProvidersFailed) ∧
          r.forwards = [] := by
  refine ⟨rfl, ?_⟩
  have hrun : ((proxy oneCapped (fun _ => true)).run (Sys.start oneCapped) racingRequests).any
      (fun s => decide (∃ r ∈ s.requests,
        routeSupports oneCapped.providers r.cls.method r.cls.fullHistory "a" = true ∧
        (∃ reply ∈ r.phase.reply, reply.IsAllProvidersFailed) ∧ r.forwards = [])) = true := by
    decide +kernel
  obtain ⟨s, hs, hd⟩ := (Option.any_eq_true _ _).mp hrun
  obtain ⟨r, hr, hsupports, hreply, hf⟩ := of_decide_eq_true hd
  exact ⟨s, hs, r, hr, ⟨"a", _, rfl, rfl, hsupports⟩, hreply, hf⟩

end RpcPlane
