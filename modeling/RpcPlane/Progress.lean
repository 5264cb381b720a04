import RpcPlane.Potential
import RpcPlane.RateCap
import RpcPlane.Refinement

/-! Progress: whatever else the proxy does, a request that is not finished has a step of its
own to take, and it takes only so many. -/

namespace RpcPlane

/-- How many steps a request can still take, its stragglers included. A provider of the list
costs two steps at most, a dispatch and an answer or a completion. -/
def Phase.remaining (config : Config) : Phase → Nat
  | .arrived => 2 * config.providers.length + 4
  | .snapped _ _ => 2 * config.providers.length + 3
  | .sequence _ _ _ names _ => 2 * names.length + 1
  | .waiting _ _ _ _ _ rest _ => 2 * rest.length + 2
  | .spawning _ _ names spawned => 2 * names.length + spawned.length + 2
  | .racing _ pending _ => pending.length + 1
  | .answered _ _ pending => pending.length

def Event.moves (i : Nat) : Event → Bool
  | .move j _ => j == i
  | _ => false

/-- The moves open to a request. The runtime chooses among them, and the upstream side chooses
how a forward ends. -/
def Phase.Offers : Phase → Move → Prop
  | .arrived, .snapshot => True
  | .snapped _ _, .route random => 0 ≤ random ∧ random < 1
  | .sequence .., .dispatch => True
  | .waiting .., .answer _ => True
  | .spawning .., .dispatch => True
  | .racing _ pending _, .complete name _ => name ∈ pending.map (·.name)
  | .racing _ pending _, .dispatch => pending = []
  | .answered _ _ pending, .complete name _ => name ∈ pending.map (·.name)
  | _, _ => False

variable {config : Config} {client : String → Bool}

section move

variable {now : Instant} {m : Monitor} {ctx : RequestCtx} {rateGate : Bool} {max : Nat}

theorem sequenceRound_remaining (names : List String) (l : Loop) :
    (sequenceRound config client now m ctx rateGate max names l).1.remaining config <
      2 * names.length + 1 := by
  cases names with
  | nil => exact Nat.zero_lt_one
  | cons name rest =>
    rw [sequenceRound, List.length_cons]
    cases candidate config client max l name with
    | stop => exact Nat.succ_pos _
    | skip => simp only [Phase.remaining]; omega
    | reach provider =>
      dsimp only
      split <;> (simp only [Phase.remaining]; omega)

theorem spawnRound_remaining (names : List String) (spawned : List BroadcastLeg) :
    (spawnRound config client now m ctx rateGate names spawned).1.remaining config <
      2 * names.length + spawned.length + 2 := by
  cases names with
  | nil => simp [spawnRound, Phase.remaining]
  | cons name rest =>
    rw [spawnRound, List.length_cons]
    cases config.provider name with
    | none => simp only [Phase.remaining]; omega
    | some provider =>
      dsimp only
      split
      · simp only [Phase.remaining]; omega
      · split
        · simp only [Phase.remaining, List.length_append, List.length_singleton]; omega
        · simp only [Phase.remaining]; omega

theorem Phase.dispatch_remaining {phase : Phase} {round : Round}
    (h : phase.dispatch config client now m = some round) :
    round.1.remaining config < phase.remaining config := by
  unfold dispatch at h
  split at h
  · obtain rfl := Option.some.inj h
    exact sequenceRound_remaining _ _
  · obtain rfl := Option.some.inj h
    exact spawnRound_remaining _ _
  · obtain rfl := Option.some.inj h
    exact Nat.zero_lt_one
  · cases h

theorem Phase.answer_remaining {phase : Phase} {leg : Leg} {next : Phase × Monitor}
    (h : phase.answer config now m leg = some next) :
    next.1.remaining config < phase.remaining config := by
  unfold answer at h
  split at h
  · dsimp only at h
    split at h
    · obtain rfl := Option.some.inj h
      exact Nat.lt_succ_self _
    · obtain rfl := Option.some.inj h
      exact Nat.succ_pos _
  · cases h

theorem settle_remaining (ctx : RequestCtx) (pending : List BroadcastLeg) (best : Option BestError)
    (outcome : Outcome) (result : Except String HttpResponse) :
    (settle ctx pending best outcome result).remaining config ≤ pending.length + 1 := by
  unfold settle
  split
  · split
    · exact Nat.le_succ _
    · exact le_rfl
  · exact le_rfl

theorem Phase.complete_remaining {phase : Phase} {name : String} {leg : Option Leg}
    {next : Phase × Monitor} (h : phase.complete config now m name leg = some next) :
    next.1.remaining config < phase.remaining config := by
  have hfewer : ∀ {pending : List BroadcastLeg} {spawned : BroadcastLeg},
      pending.find? (·.name == name) = some spawned →
      (pending.eraseP (·.name == name)).length + 1 = pending.length :=
    fun hf => (perm_eraseP_of_find? hf).length_eq
  unfold complete at h
  split at h
  · split at h
    · cases h
    · rename_i hf
      obtain rfl := Option.some.inj h
      have hlen := hfewer hf
      simp only [remaining]
      omega
    · rename_i spawned leg hf
      obtain rfl := Option.some.inj h
      have hlen := hfewer hf
      simp only [remaining]
      exact (settle_remaining _ _ _ _ _).trans_lt (by omega)
  · split at h
    · cases h
    · rename_i hf
      obtain rfl := Option.some.inj h
      have hlen := hfewer hf
      simp only [remaining]
      omega
    · rename_i hf
      obtain rfl := Option.some.inj h
      have hlen := hfewer hf
      simp only [remaining]
      omega
  · cases h

theorem decision_length (cls : RequestClass) {snapshots : List HealthSnapshot} (random : ℚ)
    (hnames : (config.providers.map (·.name)).Nodup)
    (hs : (snapshots.map (·.name)).Perm (config.providers.map (·.name))) :
    (cls.decision config snapshots random).providers.length ≤ config.providers.length := by
  have hnd : (cls.decision config snapshots random).providers.Nodup :=
    route_nodup _ _ _ _ _ _ _ _ (hs.nodup_iff.mpr hnames) hnames
  have hsub : (cls.decision config snapshots random).providers ⊆ config.providers.map (·.name) :=
    fun name hn => hs.subset (supports_of_mem_route _ _ _ _ _ _ _ _ hn).1
  have hle := (hnd.subperm hsub).length_le
  rwa [List.length_map] at hle

theorem routed_remaining {cls : RequestClass} {body : Body} {snapshots : List HealthSnapshot}
    {observedTips : CommitmentSlots} {random : ℚ}
    (hnames : (config.providers.map (·.name)).Nodup)
    (hs : (snapshots.map (·.name)).Perm (config.providers.map (·.name))) :
    (Phase.routed config cls body snapshots observedTips random).remaining config <
      2 * config.providers.length + 3 := by
  have hlen := decision_length cls random hnames hs
  unfold Phase.routed
  dsimp only
  split
  · split
    · exact Nat.succ_pos _
    · simp only [Phase.remaining, List.length_nil]
      omega
  · simp only [Phase.remaining]
    omega

theorem Request.move_remaining {r : Request} {move : Move} {next : Request × Monitor}
    (hv : config.validate = .ok ()) (he : r.Explained config client)
    (h : r.move config client now m move = some next) :
    next.1.phase.remaining config < r.phase.remaining config := by
  cases move with
  | snapshot =>
    simp only [Request.move] at h
    split at h
    · rename_i hp
      obtain rfl := Option.some.inj h
      rw [hp]
      exact Nat.lt_succ_self _
    · cases h
  | route random =>
    simp only [Request.move] at h
    split at h
    · rename_i snapshots observedTips hp
      split at h
      · obtain rfl := Option.some.inj h
        have hphase := he.2
        rw [hp] at hphase ⊢
        exact routed_remaining (Config.validate_names hv) hphase.2
      · cases h
    · cases h
  | dispatch =>
    obtain ⟨round, hd, rfl⟩ := Option.map_eq_some_iff.mp h
    exact Phase.dispatch_remaining hd
  | answer leg =>
    obtain ⟨next, hn, rfl⟩ := Option.map_eq_some_iff.mp h
    exact Phase.answer_remaining hn
  | complete name leg =>
    obtain ⟨next, hn, rfl⟩ := Option.map_eq_some_iff.mp h
    exact Phase.complete_remaining hn

/-- A request takes each move that it is offered. -/
theorem Request.move_offered (r : Request) (move : Move) (h : r.phase.Offers move) :
    (r.move config client now m move).isSome := by
  unfold Phase.Offers at h
  split at h
  · rename_i hp
    simp [Request.move, hp]
  · rename_i hp
    simp [Request.move, hp, h]
  · rename_i hp
    simp [Request.move, hp, Phase.dispatch]
  · rename_i leg hp
    simp only [Request.move, hp, Phase.answer, Option.isSome_map]
    split <;> rfl
  · rename_i hp
    simp [Request.move, hp, Phase.dispatch]
  · rename_i name leg hp
    obtain ⟨spawned, hf⟩ := exists_find?_key BroadcastLeg.name h
    cases leg <;> simp [Request.move, hp, Phase.complete, hf]
  · rename_i hp
    simp [Request.move, hp, Phase.dispatch, h]
  · rename_i name leg hp
    obtain ⟨spawned, hf⟩ := exists_find?_key BroadcastLeg.name h
    cases leg <;> simp [Request.move, hp, Phase.complete, hf]
  · exact h.elim

end move

theorem Phase.exists_offer {phase : Phase} (h : 0 < phase.remaining config) :
    ∃ move, phase.Offers move := by
  cases phase with
  | arrived => exact ⟨.snapshot, trivial⟩
  | snapped snapshots observedTips => exact ⟨.route 0, zero_roll⟩
  | sequence ctx rateGate max names l => exact ⟨.dispatch, trivial⟩
  | waiting ctx rateGate max name provider rest l => exact ⟨.answer ⟨.error "timed out", 0⟩, trivial⟩
  | spawning ctx rateGate names spawned => exact ⟨.dispatch, trivial⟩
  | racing ctx pending best =>
    cases pending with
    | nil => exact ⟨.dispatch, rfl⟩
    | cons leg rest => exact ⟨.complete leg.name none, List.mem_cons_self⟩
  | answered reply ctx pending =>
    cases pending with
    | nil => exact absurd h (Nat.lt_irrefl 0)
    | cons leg rest => exact ⟨.complete leg.name none, List.mem_cons_self⟩

theorem Phase.reply_of_finished {phase : Phase} (h : phase.remaining config = 0) :
    phase.reply.isSome := by
  cases phase with
  | answered reply ctx pending => rfl
  | _ => simp [remaining] at h

theorem Request.move_reply {r : Request} {move : Move} {now : Instant} {m : Monitor}
    {next : Request × Monitor} {reply : Reply} (h : r.move config client now m move = some next)
    (hr : r.phase.reply = some reply) : next.1.phase.reply = some reply := by
  obtain ⟨ctx, pending, hp⟩ : ∃ ctx pending, r.phase = .answered reply ctx pending := by
    cases hp : r.phase with
    | answered reply' ctx pending =>
      rw [hp] at hr
      obtain rfl : reply' = reply := Option.some.inj hr
      exact ⟨ctx, pending, rfl⟩
    | _ =>
      rw [hp] at hr
      cases hr
  cases move with
  | complete name leg =>
    obtain ⟨next, hn, rfl⟩ := Option.map_eq_some_iff.mp h
    simp only [Phase.complete, hp] at hn
    split at hn
    · cases hn
    · obtain rfl := Option.some.inj hn
      rfl
    · obtain rfl := Option.some.inj hn
      rfl
  | snapshot => simp [Request.move, hp] at h
  | route random => simp [Request.move, hp] at h
  | dispatch => simp [Request.move, hp, Phase.dispatch] at h
  | answer leg => simp [Request.move, hp, Phase.answer] at h

/-- A request takes its own moves only. -/
theorem Sys.step_request {s t : Sys} {e : Event} {i : Nat} {r : Request}
    (h : s.step config client e = some t) (hr : s.requests[i]? = some r) :
    e.moves i = false ∧ t.requests[i]? = some r ∨
      ∃ move next, e = .move i move ∧ r.move config client s.now s.monitor move = some next ∧
        t.requests[i]? = some next.1 := by
  have hi : i < s.requests.length := (List.getElem?_eq_some_iff.mp hr).1
  rcases Sys.step_cases h with ⟨he, hne⟩ | ⟨body, rfl, he⟩ | ⟨j, move, r', next, rfl, hr', hn, rfl⟩
  · have hother : e.moves i = false := by
      cases e with
      | move j move => exact absurd rfl (hne j move)
      | tick | arrive | probe | reference => rfl
    exact Or.inl ⟨hother, by rw [he, hr]⟩
  · exact Or.inl ⟨rfl, by rw [he, List.getElem?_append_left hi, hr]⟩
  · by_cases hj : j = i
    · subst hj
      obtain rfl : r' = r := Option.some.inj (hr'.symm.trans hr)
      exact Or.inr ⟨move, next, rfl, hn, List.getElem?_set_self hi⟩
    · exact Or.inl ⟨by simp [Event.moves, hj], by rw [List.getElem?_set_ne hj, hr]⟩

def Sys.remaining (config : Config) (s : Sys) (i : Nat) : Nat :=
  s.requests[i]?.elim 0 (·.phase.remaining config)

/-- Request `i` is there in a reachable state. -/
def Sys.Serving (config : Config) (client : String → Bool) (i : Nat) (s : Sys) : Prop :=
  (proxy config client).Reachable s ∧ (s.requests[i]?).isSome

theorem Sys.Serving.step {s t : Sys} {e : Event} {i : Nat} (hs : s.Serving config client i)
    (h : s.step config client e = some t) : t.Serving config client i := by
  refine ⟨hs.1.step h, ?_⟩
  obtain ⟨r, hr⟩ := Option.isSome_iff_exists.mp hs.2
  rcases Sys.step_request h hr with ⟨-, ht⟩ | ⟨_, _, -, -, ht⟩
  · exact ht ▸ rfl
  · exact ht ▸ rfl

theorem Sys.Serving.step_remaining {s t : Sys} {e : Event} {i : Nat}
    (hv : config.validate = .ok ()) (hs : s.Serving config client i)
    (h : s.step config client e = some t) :
    (if e.moves i then 1 else 0) + t.remaining config i ≤ 0 + s.remaining config i := by
  obtain ⟨r, hr⟩ := Option.isSome_iff_exists.mp hs.2
  rcases Sys.step_request h hr with ⟨he, ht⟩ | ⟨move, next, rfl, hn, ht⟩
  · simp [Sys.remaining, he, ht, hr]
  · have hless := Request.move_remaining hv (proxy_explained hv hs.1 r (List.mem_of_getElem? hr)) hn
    simp only [Event.moves, beq_self_eq_true, if_true, Sys.remaining, ht, hr, Option.elim_some]
    omega

theorem proxy_remaining_le (hv : config.validate = .ok ()) {s : Sys}
    (hs : (proxy config client).Reachable s) :
    ∀ r ∈ s.requests, r.phase.remaining config ≤ 2 * config.providers.length + 4 := by
  have hinv := System.invariant_reachable (I := fun s => (proxy config client).Reachable s ∧
    ∀ r ∈ s.requests, r.phase.remaining config ≤ 2 * config.providers.length + 4) ?_ ?_ hs
  · exact hinv.2
  · intro s hi
    exact ⟨⟨s, [], hi, rfl⟩, by simp [hi.1]⟩
  · rintro s e t ⟨hr, hle⟩ hstep
    refine ⟨hr.step hstep, Sys.step_requests hstep (fun _ => le_rfl) ?_ hle⟩
    intro i move r next _ hri hn hrle
    have hless := Request.move_remaining hv (proxy_explained hv hr r (List.mem_of_getElem? hri)) hn
    exact hless.le.trans hrle

/-- Whatever happens around it, a request is finished after at most `2 * n + 4` moves of its own,
for `n` providers; until then some move is open to it, none of them can be refused, and once it
has its reply it keeps it. -/
theorem proxy_request_progress (config : Config) (client : String → Bool)
    (hv : config.validate = .ok ()) (s t : Sys) (es : List Event)
    (hs : (proxy config client).Reachable s) (hrun : (proxy config client).run s es = some t)
    (i : Nat) (r : Request) (hr : s.requests[i]? = some r) :
    ∃ r', t.requests[i]? = some r' ∧
      es.countP (·.moves i) + r'.phase.remaining config ≤ r.phase.remaining config ∧
      r.phase.remaining config ≤ 2 * config.providers.length + 4 ∧
      (0 < r'.phase.remaining config → ∃ move, r'.phase.Offers move) ∧
      (∀ move, r'.phase.Offers move → (t.step config client (.move i move)).isSome) ∧
      (r'.phase.remaining config = 0 → r'.phase.reply.isSome) ∧
      (∀ reply, r.phase.reply = some reply → r'.phase.reply = some reply) := by
  have hserving : s.Serving config client i := ⟨hs, hr ▸ rfl⟩
  have hserved : t.Serving config client i := System.invariant_run
    (I := Sys.Serving config client i) (fun _ _ _ hs h => hs.step h) hserving hrun
  obtain ⟨r', hr'⟩ := Option.isSome_iff_exists.mp hserved.2
  have hpaid := System.total_add_le (I := Sys.Serving config client i)
    (f := fun _ e => if Event.moves i e then 1 else 0) (g := fun _ _ => 0)
    (φ := fun s => s.remaining config i) (fun _ _ _ hs h => hs.step h)
    (fun _ _ _ hs h => hs.step_remaining hv h) hserving hrun
  refine ⟨r', hr', ?_, proxy_remaining_le hv hs r (List.mem_of_getElem? hr), Phase.exists_offer,
    ?_, Phase.reply_of_finished, ?_⟩
  · simpa [System.total_countP _ hrun, Sys.remaining, hr, hr'] using hpaid
  · intro move hoffer
    simpa [Sys.step, hr'] using r'.move_offered move hoffer
  · intro reply hreply
    have hkept := System.invariant_run
      (I := fun s => ∃ r, s.requests[i]? = some r ∧ r.phase.reply = some reply) ?_
      ⟨r, hr, hreply⟩ hrun
    · obtain ⟨r₁, hr₁, hreply₁⟩ := hkept
      obtain rfl : r₁ = r' := Option.some.inj (hr₁.symm.trans hr')
      exact hreply₁
    · rintro s e t ⟨r, hr, hreply⟩ h
      rcases Sys.step_request h hr with ⟨-, ht⟩ | ⟨_, next, -, hn, ht⟩
      · exact ⟨r, ht, hreply⟩
      · exact ⟨next.1, ht, Request.move_reply hn hreply⟩

def arrivedAlone : Sys :=
  { Sys.start oneCapped with
    requests := [{ body := sendTransaction.body, cls := requestClass oneCapped sendTransaction.body }] }

/-- The lone request takes five of the six moves that one provider allows. -/
theorem proxy_request_progress_alone :
    let client : String → Bool := fun _ => true
    ∃ t r', (proxy oneCapped client).run arrivedAlone loneRequest.tail = some t ∧
      t.requests[0]? = some r' ∧ loneRequest.tail.countP (·.moves 0) = 5 ∧
      5 + r'.phase.remaining oneCapped ≤ 6 ∧ r'.phase.remaining oneCapped = 0 ∧
      r'.phase.reply.isSome := by
  intro client
  have hends : ((proxy oneCapped client).run arrivedAlone loneRequest.tail).any
      (fun t => t.requests[0]?.any (fun r => r.phase.remaining oneCapped == 0)) = true := by
    decide +kernel
  obtain ⟨t, ht, hdone⟩ := (Option.any_eq_true _ _).mp hends
  obtain ⟨r₀, hr₀, hzero⟩ := (Option.any_eq_true _ _).mp hdone
  have hzero : r₀.phase.remaining oneCapped = 0 := by simpa using hzero
  obtain ⟨r', hr', hmoves, -, -, -, hreply, -⟩ := proxy_request_progress oneCapped client rfl
    arrivedAlone t loneRequest.tail
    ⟨Sys.start oneCapped, [.arrive sendTransaction.body], Sys.start_init _ _, rfl⟩ ht 0 _ rfl
  obtain rfl : r₀ = r' := Option.some.inj (hr₀.symm.trans hr')
  exact ⟨t, r₀, ht, hr₀, rfl, hmoves, hzero, hreply hzero⟩

end RpcPlane
