import RpcPlane.Progress
import RpcPlane.Recovery

/-! Which providers a request can reach: those that the snapshot it took admits, however much
the health of the providers changes between its snapshot and its forwards. -/

namespace RpcPlane

/-- The providers that a request has still to go through. -/
def Phase.listed : Phase → List String
  | .sequence _ _ _ names _ => names
  | .waiting _ _ _ _ _ rest _ => rest
  | .spawning _ _ names _ => names
  | _ => []

/-- The request has been routed. -/
def Phase.decided : Phase → Bool
  | .arrived => false
  | .snapped _ _ => false
  | _ => true

/-- A provider of the request's method and depth, and an available one if there is any. -/
def Admits (config : Config) (cls : RequestClass) (snapshots : List HealthSnapshot)
    (name : String) : Prop :=
  routeSupports config.providers cls.method cls.fullHistory name = true ∧
    ((∃ snap ∈ snapshots, snap.name = name ∧ snap.isAvailable = true) ∨
      ∀ snap ∈ snapshots,
        routeSupports config.providers cls.method cls.fullHistory snap.name = true →
          snap.isAvailable = false)

/-- The request stands where a decision on these snapshots has led it. -/
structure Request.Follows (config : Config) (client : String → Bool)
    (snapshots : List HealthSnapshot) (r : Request) : Prop where
  stage : (∃ observedTips, r.phase = .snapped snapshots observedTips) ∨ r.phase.decided = true
  admitted : ∀ name ∈ r.phase.listed ++ r.forwards, Admits config r.cls snapshots name
  reached : ∀ name ∈ r.forwards, (∃ p, config.provider name = some p) ∧ client name = true

variable {config : Config} {client : String → Bool}

theorem decision_admits {cls : RequestClass} {snapshots : List HealthSnapshot} {random : ℚ}
    {name : String} (h : name ∈ (cls.decision config snapshots random).providers) :
    Admits config cls snapshots name := by
  obtain ⟨-, hsupports⟩ := supports_of_mem_route _ _ _ _ _ _ _ _ h
  refine ⟨hsupports, ?_⟩
  by_cases ha : availableFor cls.method snapshots config.providers cls.fullHistory = []
  · exact Or.inr (availableFor_eq_nil.mp ha)
  · obtain ⟨snap, hs, hname⟩ := List.mem_map.mp ((mem_route_available _ _ _ _ _ _ _ _ ha).mp h)
    have hs := List.mem_filter.mp hs
    exact Or.inl ⟨snap, hs.1, hname, (Bool.and_eq_true_iff.mp hs.2).1⟩

section move

variable {now : Instant} {m : Monitor} {ctx : RequestCtx} {rateGate : Bool} {max : Nat}

theorem sequenceRound_listed (names : List String) (l : Loop) (round : Round)
    (h : sequenceRound config client now m ctx rateGate max names l = round) :
    (∀ n ∈ round.1.listed ++ round.2.1.toList, n ∈ names) ∧
      ∀ n ∈ round.2.1, (∃ p, config.provider n = some p) ∧ client n = true := by
  cases names with
  | nil =>
    subst h
    simp [sequenceRound, Phase.listed]
  | cons name rest =>
    rw [sequenceRound] at h
    rcases candidate_cases config client max l name with
      ⟨hc, -⟩ | ⟨hc, -⟩ | ⟨p, hc, -, hp, -, hclient⟩
    · simp only [hc] at h
      subst h
      simp [Phase.listed]
    · simp only [hc] at h
      subst h
      simp +contextual [Phase.listed]
    · simp only [hc] at h
      split at h
      · subst h
        simp +contextual [Phase.listed, hp, hclient, or_comm]
      · subst h
        simp +contextual [Phase.listed]

theorem spawnRound_listed (names : List String) (spawned : List BroadcastLeg) (round : Round)
    (h : spawnRound config client now m ctx rateGate names spawned = round) :
    (∀ n ∈ round.1.listed ++ round.2.1.toList, n ∈ names) ∧
      ∀ n ∈ round.2.1, (∃ p, config.provider n = some p) ∧ client n = true := by
  cases names with
  | nil =>
    subst h
    simp [spawnRound, Phase.listed]
  | cons name rest =>
    rw [spawnRound] at h
    cases hp : config.provider name with
    | none =>
      simp only [hp] at h
      subst h
      simp +contextual [Phase.listed]
    | some p =>
      simp only [hp] at h
      cases hclient : client name with
      | false =>
        simp only [hclient, Bool.not_false, if_true] at h
        subst h
        simp +contextual [Phase.listed]
      | true =>
        simp only [hclient, Bool.not_true, Bool.false_eq_true, if_false] at h
        split at h
        · subst h
          simp +contextual [Phase.listed, hp, hclient, or_comm]
        · subst h
          simp +contextual [Phase.listed]

theorem Phase.dispatch_listed {phase : Phase} {round : Round}
    (h : phase.dispatch config client now m = some round) :
    (∀ n ∈ round.1.listed ++ round.2.1.toList, n ∈ phase.listed) ∧
      ∀ n ∈ round.2.1, (∃ p, config.provider n = some p) ∧ client n = true := by
  unfold dispatch at h
  split at h
  · exact sequenceRound_listed _ _ _ (Option.some.inj h)
  · exact spawnRound_listed _ _ _ (Option.some.inj h)
  · obtain rfl := Option.some.inj h
    simp [listed]
  · cases h

theorem Phase.answer_listed {phase : Phase} {leg : Leg} {next : Phase × Monitor}
    (h : phase.answer config now m leg = some next) : ∀ n ∈ next.1.listed, n ∈ phase.listed := by
  unfold answer at h
  split at h
  · dsimp only at h
    split at h
    · obtain rfl := Option.some.inj h
      exact fun n hn => hn
    · obtain rfl := Option.some.inj h
      simp [listed]
  · cases h

theorem Phase.complete_listed {phase : Phase} {name : String} {leg : Option Leg}
    {next : Phase × Monitor} (h : phase.complete config now m name leg = some next) :
    next.1.listed = [] := by
  unfold complete at h
  split at h
  · split at h
    · cases h
    · obtain rfl := Option.some.inj h
      rfl
    · obtain rfl := Option.some.inj h
      unfold settle
      split
      · split <;> rfl
      · rfl
  · split at h
    · cases h
    · obtain rfl := Option.some.inj h
      rfl
    · obtain rfl := Option.some.inj h
      rfl
  · cases h

theorem routed_decided (cls : RequestClass) (body : Body) (snapshots : List HealthSnapshot)
    (observedTips : CommitmentSlots) (random : ℚ) :
    (Phase.routed config cls body snapshots observedTips random).decided = true := by
  unfold Phase.routed
  dsimp only
  split
  · split <;> rfl
  · rfl

theorem routed_listed (cls : RequestClass) (body : Body) (snapshots : List HealthSnapshot)
    (observedTips : CommitmentSlots) (random : ℚ) :
    ∀ n ∈ (Phase.routed config cls body snapshots observedTips random).listed,
      Admits config cls snapshots n := by
  unfold Phase.routed
  dsimp only
  split
  · split
    · simp [Phase.listed]
    · exact fun n hn => decision_admits hn
  · exact fun n hn => decision_admits hn

theorem sequenceRound_decided (names : List String) (l : Loop) :
    (sequenceRound config client now m ctx rateGate max names l).1.decided = true := by
  cases names with
  | nil => rfl
  | cons name rest =>
    rw [sequenceRound]
    cases candidate config client max l name with
    | stop => rfl
    | skip => rfl
    | reach provider =>
      dsimp only
      split <;> rfl

theorem spawnRound_decided (names : List String) (spawned : List BroadcastLeg) :
    (spawnRound config client now m ctx rateGate names spawned).1.decided = true := by
  cases names with
  | nil => rfl
  | cons name rest =>
    rw [spawnRound]
    cases config.provider name with
    | none => rfl
    | some provider =>
      dsimp only
      split
      · rfl
      · split <;> rfl

theorem Phase.dispatch_decided {phase : Phase} {round : Round}
    (h : phase.dispatch config client now m = some round) : round.1.decided = true := by
  unfold dispatch at h
  split at h
  · obtain rfl := Option.some.inj h
    exact sequenceRound_decided _ _
  · obtain rfl := Option.some.inj h
    exact spawnRound_decided _ _
  · obtain rfl := Option.some.inj h
    rfl
  · cases h

theorem Phase.answer_decided {phase : Phase} {leg : Leg} {next : Phase × Monitor}
    (h : phase.answer config now m leg = some next) : next.1.decided = true := by
  unfold answer at h
  split at h
  · dsimp only at h
    split at h <;> (obtain rfl := Option.some.inj h; rfl)
  · cases h

theorem settle_decided (ctx : RequestCtx) (pending : List BroadcastLeg) (best : Option BestError)
    (outcome : Outcome) (result : Except String HttpResponse) :
    (settle ctx pending best outcome result).decided = true := by
  unfold settle
  split
  · split <;> rfl
  · rfl

theorem Phase.complete_decided {phase : Phase} {name : String} {leg : Option Leg}
    {next : Phase × Monitor} (h : phase.complete config now m name leg = some next) :
    next.1.decided = true := by
  unfold complete at h
  split at h
  · split at h
    · cases h
    · obtain rfl := Option.some.inj h
      rfl
    · obtain rfl := Option.some.inj h
      exact settle_decided _ _ _ _ _
  · split at h
    · cases h
    · obtain rfl := Option.some.inj h
      rfl
    · obtain rfl := Option.some.inj h
      rfl
  · cases h

theorem Request.Follows.move {snapshots : List HealthSnapshot} {r : Request} {move : Move}
    {next : Request × Monitor} (hf : r.Follows config client snapshots)
    (h : r.move config client now m move = some next) : next.1.Follows config client snapshots := by
  cases move with
  | snapshot =>
    simp only [Request.move] at h
    split at h
    · rename_i hp
      rcases hf.stage with ⟨tips, ht⟩ | hd
      · rw [hp] at ht
        cases ht
      · rw [hp] at hd
        cases hd
    · cases h
  | route random =>
    simp only [Request.move] at h
    split at h
    · rename_i shown observedTips hp
      split at h
      · obtain rfl := Option.some.inj h
        obtain rfl : shown = snapshots := by
          rcases hf.stage with ⟨tips, ht⟩ | hd
          · exact (Phase.snapped.inj (hp.symm.trans ht)).1
          · rw [hp] at hd
            cases hd
        refine ⟨Or.inr (routed_decided _ _ _ _ _), fun name hn => ?_, hf.reached⟩
        rcases List.mem_append.mp hn with hn | hn
        · exact routed_listed _ _ _ _ _ name hn
        · exact hf.admitted name (List.mem_append_right _ hn)
      · cases h
    · cases h
  | dispatch =>
    obtain ⟨round, hd, rfl⟩ := Option.map_eq_some_iff.mp h
    obtain ⟨hlisted, hreached⟩ := Phase.dispatch_listed hd
    refine ⟨Or.inr (Phase.dispatch_decided hd), fun name hn => ?_, fun name hn => ?_⟩
    · rcases List.mem_append.mp hn with hn | hn
      · exact hf.admitted name (List.mem_append_left _ (hlisted name (List.mem_append_left _ hn)))
      · rcases List.mem_append.mp hn with hn | hn
        · exact hf.admitted name (List.mem_append_right _ hn)
        · exact hf.admitted name (List.mem_append_left _ (hlisted name (List.mem_append_right _ hn)))
    · rcases List.mem_append.mp hn with hn | hn
      · exact hf.reached name hn
      · exact hreached name (Option.mem_toList.mp hn)
  | answer leg =>
    obtain ⟨next, hn, rfl⟩ := Option.map_eq_some_iff.mp h
    refine ⟨Or.inr (Phase.answer_decided hn), fun name hname => ?_, hf.reached⟩
    rcases List.mem_append.mp hname with hname | hname
    · exact hf.admitted name (List.mem_append_left _ (Phase.answer_listed hn name hname))
    · exact hf.admitted name (List.mem_append_right _ hname)
  | complete name leg =>
    obtain ⟨next, hn, rfl⟩ := Option.map_eq_some_iff.mp h
    refine ⟨Or.inr (Phase.complete_decided hn), fun n hname => ?_, hf.reached⟩
    have hnone := Phase.complete_listed hn
    simp only [hnone, List.nil_append] at hname
    exact hf.admitted n (List.mem_append_right _ hname)

end move

/-- In a run that `as` has taken so far: the request has not looked at the monitor yet, or it
follows the snapshots it took at its one `snapshot` move. -/
def Sys.Traced (config : Config) (client : String → Bool) (s₀ : Sys) (as : List Event) (i : Nat)
    (r : Request) : Prop :=
  r.phase = .arrived ∧ r.forwards = [] ∨
    ∃ es₁ es₂ s₁, as = es₁ ++ .move i .snapshot :: es₂ ∧
      (proxy config client).run s₀ es₁ = some s₁ ∧ r.Follows config client (s₁.snapshots config)

theorem Sys.Traced.step {s₀ s t : Sys} {as : List Event} {e : Event} {i : Nat} {r r' : Request}
    (hrun : (proxy config client).run s₀ as = some s) (hr : s.requests[i]? = some r)
    (ht : Sys.Traced config client s₀ as i r) (h : s.step config client e = some t)
    (hr' : t.requests[i]? = some r') : Sys.Traced config client s₀ (as ++ [e]) i r' := by
  have hlater : ∀ {q : Request}, (∃ es₁ es₂ s₁, as = es₁ ++ .move i .snapshot :: es₂ ∧
      (proxy config client).run s₀ es₁ = some s₁ ∧ q.Follows config client (s₁.snapshots config)) →
      Sys.Traced config client s₀ (as ++ [e]) i q := by
    rintro q ⟨es₁, es₂, s₁, rfl, hs₁, hq⟩
    exact Or.inr ⟨es₁, es₂ ++ [e], s₁, by simp, hs₁, hq⟩
  rcases Sys.step_request h hr with ⟨-, hsame⟩ | ⟨move, next, rfl, hn, hnext⟩
  · obtain rfl : r = r' := Option.some.inj (hsame.symm.trans hr')
    rcases ht with ht | ht
    · exact Or.inl ht
    · exact hlater ht
  · obtain rfl : next.1 = r' := Option.some.inj (hnext.symm.trans hr')
    rcases ht with ⟨hp, hsent⟩ | ⟨es₁, es₂, s₁, has, hs₁, hq⟩
    · -- an arrived request can only take its snapshot
      cases move with
      | snapshot =>
        simp only [Request.move, hp] at hn
        obtain rfl := Option.some.inj hn
        exact Or.inr ⟨as, [], s, rfl, hrun, Or.inl ⟨_, rfl⟩, by simp [Phase.listed, hsent],
          by simp [hsent]⟩
      | route random => simp [Request.move, hp] at hn
      | dispatch => simp [Request.move, hp, Phase.dispatch] at hn
      | answer leg => simp [Request.move, hp, Phase.answer] at hn
      | complete name leg => simp [Request.move, hp, Phase.complete] at hn
    · exact hlater ⟨es₁, es₂, s₁, has, hs₁, hq.move hn⟩

/-- A request that was not there before a step has just arrived. -/
theorem Sys.step_arrived {s t : Sys} {e : Event} {i : Nat} {r : Request}
    (h : s.step config client e = some t) (hs : s.requests[i]? = none)
    (hr : t.requests[i]? = some r) : r.phase = .arrived ∧ r.forwards = [] := by
  rcases Sys.step_cases h with ⟨he, -⟩ | ⟨body, -, he⟩ | ⟨j, _, _, next, -, -, -, rfl⟩
  · rw [he, hs] at hr
    cases hr
  · rw [he, List.getElem?_append_right (List.getElem?_eq_none_iff.mp hs)] at hr
    have hm := List.mem_of_getElem? hr
    obtain rfl := List.mem_singleton.mp hm
    exact ⟨rfl, rfl⟩
  · have hlen := List.getElem?_eq_none_iff.mp hs
    have hnone : (s.requests.set j next.1)[i]? = none :=
      List.getElem?_eq_none_iff.mpr ((List.length_set ..).trans_le hlen)
    rw [hnone] at hr
    cases hr

/-- In every run, a request goes to no provider twice and only to providers that the snapshots
it took admit: of its method and depth, and available then unless none was, whatever happened
to their health before or after. -/
theorem proxy_forwards_admitted (config : Config) (client : String → Bool)
    (hv : config.validate = .ok ()) (s₀ s : Sys) (es : List Event)
    (hinit : (proxy config client).init s₀) (hrun : (proxy config client).run s₀ es = some s)
    (i : Nat) (r : Request) (hr : s.requests[i]? = some r) :
    r.cls = requestClass config r.body ∧ r.forwards.Nodup ∧
      (r.forwards = [] ∨
        ∃ es₁ es₂ s₁, es = es₁ ++ .move i .snapshot :: es₂ ∧
          (proxy config client).run s₀ es₁ = some s₁ ∧
          ∀ name ∈ r.forwards, Admits config r.cls (s₁.snapshots config) name ∧
            (∃ p, config.provider name = some p) ∧ client name = true) := by
  have hreach : (proxy config client).Reachable s := ⟨s₀, es, hinit, hrun⟩
  have hm := List.mem_of_getElem? hr
  refine ⟨(proxy_explained hv hreach r hm).1, proxy_forwards_nodup hv hreach hm, ?_⟩
  have htraced := System.invariant_history
    (I := fun as s => ∀ i r, s.requests[i]? = some r → Sys.Traced config client s₀ as i r)
    (fun i r hr => by simp [hinit.1] at hr) (fun as s e t hrun hs h i r' hr' => ?_) hrun
  · rcases htraced i r hr with ⟨-, hsent⟩ | ⟨es₁, es₂, s₁, hes, hs₁, hf⟩
    · exact Or.inl hsent
    · exact Or.inr ⟨es₁, es₂, s₁, hes, hs₁, fun name hn =>
        ⟨hf.admitted name (List.mem_append_right _ hn), hf.reached name hn⟩⟩
  · cases hold : s.requests[i]? with
    | none => exact Or.inl (Sys.step_arrived h hold hr')
    | some r => exact Sys.Traced.step hrun hold (hs i r hold) h hr'

theorem proxy_forwards_admitted_alone :
    let client : String → Bool := fun _ => true
    ∃ s r, (proxy oneCapped client).run (Sys.start oneCapped) loneRequest = some s ∧
      s.requests[0]? = some r ∧ r.forwards = ["a"] ∧
      ∃ es₁ es₂ s₁, loneRequest = es₁ ++ .move 0 .snapshot :: es₂ ∧
        (proxy oneCapped client).run (Sys.start oneCapped) es₁ = some s₁ ∧
        Admits oneCapped r.cls (s₁.snapshots oneCapped) "a" := by
  intro client
  have hends : ((proxy oneCapped client).run (Sys.start oneCapped) loneRequest).any
      (fun s => s.requests[0]?.any (fun r => r.forwards == ["a"])) = true := by
    decide +kernel
  obtain ⟨s, hs, hsent⟩ := (Option.any_eq_true _ _).mp hends
  obtain ⟨r, hr, hsent⟩ := (Option.any_eq_true _ _).mp hsent
  have hsent : r.forwards = ["a"] := by simpa using hsent
  obtain ⟨-, -, hnone | ⟨es₁, es₂, s₁, hes, hs₁, hall⟩⟩ := proxy_forwards_admitted oneCapped client rfl
    (Sys.start oneCapped) s loneRequest (Sys.start_init _ _) hs 0 r hr
  · rw [hsent] at hnone
    cases hnone
  · exact ⟨s, r, hs, hr, hsent, es₁, es₂, s₁, hes, hs₁, (hall "a" (hsent ▸ List.mem_cons_self)).1⟩

end RpcPlane
