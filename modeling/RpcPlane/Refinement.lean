import RpcPlane.Explained
import RpcPlane.RateCap

/-! The interleaved proxy refines `handle_rpc`: a request of any reachable state goes the way
of one run of `handleRpc`, and what holds of all those runs holds of the proxy. -/

namespace RpcPlane

variable {config : Config} {client : String → Bool}

section

variable {body : Body} {now : Instant} {m : Monitor}

theorem routed_explained {snapshots : List HealthSnapshot} {observedTips : CommitmentSlots}
    {random : ℚ} (hv : config.validate = .ok ()) (hr : 0 ≤ random ∧ random < 1)
    (hs : (snapshots.map (·.name)).Perm (config.providers.map (·.name))) :
    (Phase.routed config (requestClass config body) body snapshots observedTips random).Explained
      config client body [] := by
  let world : World := ⟨snapshots, observedTips, random, hr,
    ⟨client, fun _ => true, fun _ => ⟨.error "unused", 0⟩⟩, .inOrder⟩
  have hmon : world.Monitors config := hs
  have hnames := Config.validate_names hv
  obtain ⟨decision, hd⟩ : ∃ d, (requestClass config body).decision config snapshots random = d :=
    ⟨_, rfl⟩
  have hnd : decision.providers.Nodup := by
    rw [← hd]
    exact route_nodup _ _ _ _ _ _ _ _ (hs.nodup_iff.mpr hnames) hnames
  have hrun : ∀ env order, handleRpc config (world.meets env order) body =
      if decision.broadcast then
        broadcast config ((requestClass config body).requestCtx config body observedTips) env
          (!decision.degraded) order decision.providers
      else sequential config ((requestClass config body).requestCtx config body observedTips) env
        (!decision.degraded) decision.providers := by
    intro env order
    rw [← hd]
    rfl
  unfold Phase.routed
  dsimp only
  rw [hd]
  cases hb : decision.broadcast with
  | true =>
    simp only [hb, if_true] at hrun ⊢
    cases he : decision.providers.isEmpty with
    | true =>
      have hh : (handleRpc config (world.meets world.env .inOrder) body).Continues []
          ⟨[], noProvidersAvailable⟩ := by
        rw [hrun, broadcast, if_pos he]
        exact ⟨rfl, rfl⟩
      exact answered_explained rfl hmon hh
    | false =>
      refine ⟨hnd, world, rfl, hmon, fun env order _ => ?_⟩
      rw [hrun, broadcast, if_neg (by simp [he])]
      exact ⟨rfl, by simp⟩
  | false =>
    simp only [hb, Bool.false_eq_true, if_false] at hrun ⊢
    refine ⟨hnd, world, rfl, hmon, fun env order _ => ?_⟩
    rw [hrun]
    exact ⟨rfl, rfl⟩

theorem move_explained {r : Request} {move : Move} {next : Request × Monitor}
    (hv : config.validate = .ok ()) (hm : m.names.Perm (config.providers.map (·.name)))
    (h : r.move config client now m move = some next) (hc : r.cls = requestClass config r.body)
    (he : r.phase.Explained config client r.body r.forwards) :
    next.1.cls = requestClass config next.1.body ∧
      next.1.phase.Explained config client next.1.body next.1.forwards := by
  cases move with
  | snapshot =>
    simp only [Request.move] at h
    split at h
    · rename_i hp
      obtain rfl := Option.some.inj h
      rw [hp] at he
      refine ⟨hc, he, ?_⟩
      have hn := m.snapshots_names now config.health
      simp only [Monitor.snapshotsWithTips]
      rw [hn]
      exact hm
    · cases h
  | route random =>
    simp only [Request.move] at h
    split at h
    · rename_i snapshots observedTips hp
      split at h
      · rename_i hr
        obtain rfl := Option.some.inj h
        rw [hp] at he
        refine ⟨hc, ?_⟩
        rw [he.1, hc]
        exact routed_explained hv hr he.2
      · cases h
    · cases h
  | dispatch =>
    obtain ⟨round, hd, rfl⟩ := Option.map_eq_some_iff.mp h
    exact ⟨hc, dispatch_explained hd he⟩
  | answer leg =>
    obtain ⟨next, hn, rfl⟩ := Option.map_eq_some_iff.mp h
    exact ⟨hc, answer_explained hn he⟩
  | complete name leg =>
    obtain ⟨next, hn, rfl⟩ := Option.map_eq_some_iff.mp h
    exact ⟨hc, complete_explained hn he⟩

end

def Request.Explained (config : Config) (client : String → Bool) (r : Request) : Prop :=
  r.cls = requestClass config r.body ∧ r.phase.Explained config client r.body r.forwards

theorem proxy_explained (hv : config.validate = .ok ()) {s : Sys}
    (h : (proxy config client).Reachable s) : ∀ r ∈ s.requests, r.Explained config client := by
  have hinv := System.invariant_reachable
    (I := fun s => s.Tracks config ∧ ∀ r ∈ s.requests, r.Explained config client) ?_ ?_ h
  · exact hinv.2
  · intro s hs
    refine ⟨proxy_init_tracks hs, ?_⟩
    rw [hs.1]
    simp
  · rintro s e t ⟨ht, hr⟩ hstep
    refine ⟨by rw [Sys.Tracks, Sys.step_names hstep]; exact ht, ?_⟩
    refine Sys.step_requests hstep (fun body => ⟨rfl, rfl⟩) ?_ hr
    intro i move r next _ _ hn hrx
    exact move_explained hv ht hn hrx.1 hrx.2

theorem Phase.Explained.world {phase : Phase} {body : Body} {sent : List String}
    (h : phase.Explained config client body sent) :
    ∃ world : World, world.env.client = client ∧ world.Monitors config ∧
      sent <+: (handleRpc config world body).forwards ∧
      ∀ reply ctx pending, phase = .answered reply ctx pending →
        (handleRpc config world body).reply = reply ∧
          (handleRpc config world body).forwards = sent := by
  have hfresh : ∃ world : World, world.env.client = client ∧ world.Monitors config :=
    ⟨(onlyClosed config "").meets ⟨client, fun _ => true, fun _ => ⟨.error "unused", 0⟩⟩ .inOrder,
      rfl, onlyClosed_monitors config ""⟩
  cases phase with
  | arrived =>
    obtain rfl : sent = [] := h
    obtain ⟨world, hclient, hmon⟩ := hfresh
    exact ⟨world, hclient, hmon, List.nil_prefix, by simp⟩
  | snapped snapshots observedTips =>
    obtain ⟨rfl, -⟩ := h
    obtain ⟨world, hclient, hmon⟩ := hfresh
    exact ⟨world, hclient, hmon, List.nil_prefix, by simp⟩
  | sequence ctx rateGate max names l =>
    obtain ⟨-, world, hclient, hmon, hrun⟩ := h
    exact ⟨world, hclient, hmon, (hrun world.env world.order (.refl _ _ _)).begins, by simp⟩
  | waiting ctx rateGate max name provider rest l =>
    obtain ⟨-, world, hclient, hmon, hrun⟩ := h
    exact ⟨world, hclient, hmon, (hrun world.env world.order (.refl _ _ _)).begins, by simp⟩
  | spawning ctx rateGate names spawned =>
    obtain ⟨-, world, hclient, hmon, hrun⟩ := h
    have hh := hrun world.env world.order (.refl _ _ _)
    refine ⟨world, hclient, hmon, ?_, by simp⟩
    exact (List.prefix_append _ _).trans hh.begins
  | racing ctx pending best =>
    obtain ⟨-, world, done, hclient, hmon, hrun⟩ := h
    have hh := hrun world.env world.order.panics pending (.refl _ _ _) (fun _ _ => rfl) (.refl _)
    exact ⟨world.meets world.env (.completing world.order.panics (done ++ pending)), hclient, hmon,
      hh.begins, by simp⟩
  | answered reply ctx pending =>
    obtain ⟨world, hclient, hmon, hh⟩ := h
    refine ⟨world, hclient, hmon, hh.begins, ?_⟩
    rintro _ _ _ ⟨⟩
    exact ⟨hh.reply, hh.forwards.trans (List.append_nil _)⟩

/-- In every reachable state, the forwards of a request begin those of a run of
`handle_rpc`, and an answered request has the reply and the forwards of that run. -/
theorem proxy_refines_handleRpc (hv : config.validate = .ok ()) {s : Sys}
    (hs : (proxy config client).Reachable s) {r : Request} (hr : r ∈ s.requests) :
    ∃ world : World, world.env.client = client ∧ world.Monitors config ∧
      r.forwards <+: (handleRpc config world r.body).forwards ∧
      ∀ reply ctx pending, r.phase = .answered reply ctx pending →
        (handleRpc config world r.body).reply = reply ∧
          (handleRpc config world r.body).forwards = r.forwards :=
  (proxy_explained hv hs r hr).2.world

theorem proxy_refines_handleRpc_alone :
    let client : String → Bool := fun _ => true
    ∃ s r, (proxy oneCapped client).run (Sys.start oneCapped) loneRequest = some s ∧
      s.requests = [r] ∧ ∃ reply ctx pending, r.phase = .answered reply ctx pending ∧
        ∃ world : World, world.Monitors oneCapped ∧
          (handleRpc oneCapped world r.body).reply = reply ∧
          (handleRpc oneCapped world r.body).forwards = r.forwards := by
  intro client
  obtain ⟨s, hs⟩ : ∃ s, (proxy oneCapped client).run (Sys.start oneCapped) loneRequest = some s :=
    Option.isSome_iff_exists.mp (by decide +kernel)
  have hone : ((proxy oneCapped client).run (Sys.start oneCapped) loneRequest).all
      (fun s => s.requests.length == 1 && s.requests.all (·.phase.reply.isSome)) = true := by
    decide +kernel
  rw [hs, Option.all_some, Bool.and_eq_true, beq_iff_eq] at hone
  obtain ⟨r, hr⟩ := List.length_eq_one_iff.mp hone.1
  have hm : r ∈ s.requests := hr ▸ List.mem_cons_self
  have hreply := List.all_eq_true.mp hone.2 r hm
  obtain ⟨reply, ctx, pending, hp⟩ : ∃ reply ctx pending, r.phase = .answered reply ctx pending := by
    cases hp : r.phase with
    | answered reply ctx pending => exact ⟨reply, ctx, pending, rfl⟩
    | _ =>
      rw [hp] at hreply
      cases hreply
  obtain ⟨world, -, hmon, -, hanswer⟩ := @proxy_refines_handleRpc oneCapped client rfl s
    ⟨_, loneRequest, Sys.start_init _ _, hs⟩ r hm
  exact ⟨s, r, hs, hr, reply, ctx, pending, hp, world, hmon, hanswer reply ctx pending hp⟩

theorem handleRpc_forwards_nodup {world : World} {body : Body} (hv : config.validate = .ok ())
    (hm : world.Monitors config) : (handleRpc config world body).forwards.Nodup := by
  have hnames := Config.validate_names hv
  have hnd : (world.decision config (requestClass config body)).providers.Nodup :=
    route_nodup _ _ _ _ _ _ _ _ (hm.nodup_iff.mpr hnames) hnames
  unfold handleRpc
  dsimp only
  split
  · rw [broadcast_forwards]
    exact (spawnLegs_sublist _).nodup hnd
  · exact (sequentialLoop_course _ _ _ _ _ _ _).forwards_sublist.nodup hnd

/-- No provider is sent the same request twice. -/
theorem proxy_forwards_nodup (hv : config.validate = .ok ()) {s : Sys}
    (hs : (proxy config client).Reachable s) {r : Request} (hr : r ∈ s.requests) :
    r.forwards.Nodup := by
  obtain ⟨world, -, hm, hsent, -⟩ := (proxy_explained hv hs r hr).2.world
  exact hsent.sublist.nodup (handleRpc_forwards_nodup hv hm)

theorem proxy_never_reaches_recent (hv : config.validate = .ok ()) {s : Sys}
    (hs : (proxy config client).Reachable s) {r : Request} (hr : r ∈ s.requests)
    (hl : CallsListed r.body config.routing.fullHistoryMethods)
    (h : Readable r.body ∨ RecentRefuseUnknown config) :
    ∀ name ∈ r.forwards, ∀ p, config.provider name = some p → p.history ≠ .recent := by
  obtain ⟨world, -, -, hsent, -⟩ := (proxy_explained hv hs r hr).2.world
  intro name hn
  exact neverReachesRecent_of hl h name (hsent.subset hn)

theorem proxy_never_reaches_recent_signatures :
    let client : String → Bool := fun _ => true
    let events : List Event :=
      [.arrive signaturesBatch, .move 0 .snapshot, .move 0 (.route 0), .move 0 .dispatch]
    ∃ s r, (proxy shallowAndArchive client).run (Sys.start shallowAndArchive) events = some s ∧
      r ∈ s.requests ∧ r.forwards = ["archive"] ∧
      ∀ name ∈ r.forwards, ∀ p, shallowAndArchive.provider name = some p → p.history ≠ .recent := by
  intro client events
  have hbody : ((proxy shallowAndArchive client).run (Sys.start shallowAndArchive) events).map
      (fun s => s.requests.map (·.body)) = some [signaturesBatch] := rfl
  have hends : ((proxy shallowAndArchive client).run (Sys.start shallowAndArchive) events).any
      (fun s => s.requests.any (fun r => r.forwards == ["archive"])) = true := by
    decide +kernel
  obtain ⟨s, hs, hsent⟩ := (Option.any_eq_true _ _).mp hends
  obtain ⟨r, hr, hsent⟩ := List.any_eq_true.mp hsent
  rw [hs, Option.map_some] at hbody
  have hbody : r.body = signaturesBatch := by
    have hm := List.mem_map_of_mem hr (f := (·.body))
    rw [Option.some.inj hbody] at hm
    exact List.mem_singleton.mp hm
  refine ⟨s, r, hs, hr, by simpa using hsent, ?_⟩
  apply @proxy_never_reaches_recent shallowAndArchive client rfl s
    ⟨_, events, Sys.start_init _ _, hs⟩ r hr
  · rw [hbody]
    exact ⟨_, rfl, signaturesCall, List.mem_singleton_self _, "getSignaturesForAddress",
      List.mem_singleton_self _, _, rfl, _, List.mem_singleton_self _, rfl, _, rfl, rfl⟩
  · rw [hbody]
    exact Or.inl ⟨_, rfl, by rintro call hc; obtain rfl := List.mem_singleton.mp hc; rfl⟩

end RpcPlane
