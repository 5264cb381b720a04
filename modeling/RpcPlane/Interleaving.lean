import RpcPlane.Handle
import RpcPlane.Monitor
import RpcPlane.Transition

/-! The proxy as a whole: any number of requests, whose steps interleave with one another,
with the probes and with the passing of time. A request runs to its reply: a client that goes away
before it, so that the handler is dropped with its legs in flight and nothing of them is recorded,
is left out. -/

namespace RpcPlane

/-- Where a request stands. A leg in `pending` has been sent and has not completed. -/
inductive Phase where
  | arrived
  | snapped (snapshots : List HealthSnapshot) (observedTips : CommitmentSlots)
  | sequence (ctx : RequestCtx) (rateGate : Bool) (max : Nat) (names : List String) (l : Loop)
  | waiting (ctx : RequestCtx) (rateGate : Bool) (max : Nat) (name : String)
      (provider : ProviderConfig) (rest : List String) (l : Loop)
  | spawning (ctx : RequestCtx) (rateGate : Bool) (names : List String)
      (spawned : List BroadcastLeg)
  | racing (ctx : RequestCtx) (pending : List BroadcastLeg) (best : Option BestError)
  | answered (reply : Reply) (ctx : RequestCtx) (pending : List BroadcastLeg)

structure Request where
  body : Body
  cls : RequestClass
  phase : Phase := .arrived
  forwards : List String := []

/-- A step of one request. `complete` without a result is a task that panicked. -/
inductive Move where
  | snapshot
  | route (random : ℚ)
  | dispatch
  | answer (leg : Leg)
  | complete (name : String) (leg : Option Leg)

inductive Event where
  | tick (ns : Nat)
  | arrive (body : Body)
  | move (i : Nat) (m : Move)
  | probe (name : String) (result : ProbeEnd)
  | reference (slots : CommitmentSlots) (round : Option Nat)

structure Sys where
  now : Instant
  monitor : Monitor
  requests : List Request := []

def Monitor.passGate (m : Monitor) (name : String) (provider : ProviderConfig) (now : Instant)
    (rateGate : Bool) : Bool × Monitor :=
  if provider.maxRps.isSome then
    ((m.tryAcquire name now).1 || !rateGate, (m.tryAcquire name now).2)
  else (true, m)

def Phase.routed (config : Config) (cls : RequestClass) (body : Body)
    (snapshots : List HealthSnapshot) (observedTips : CommitmentSlots) (random : ℚ) : Phase :=
  let decision := cls.decision config snapshots random
  let ctx := cls.requestCtx config body observedTips
  let rateGate := !decision.degraded
  if decision.broadcast then
    if decision.providers.isEmpty then .answered noProvidersAvailable ctx []
    else .spawning ctx rateGate decision.providers []
  else .sequence ctx rateGate (maxAttempts config decision.providers) decision.providers {}

abbrev Round := Phase × Option String × Monitor

def sequenceRound (config : Config) (client : String → Bool) (now : Instant) (m : Monitor)
    (ctx : RequestCtx) (rateGate : Bool) (max : Nat) : List String → Loop → Round
  | [], l => (.answered (exhausted ctx l).reply ctx [], none, m)
  | name :: rest, l =>
    match candidate config client max l name with
    | .stop => (.answered (exhausted ctx l).reply ctx [], none, m)
    | .skip => (.sequence ctx rateGate max rest l, none, m)
    | .reach provider =>
      let passed := m.passGate name provider now rateGate
      if passed.1 then
        (.waiting ctx rateGate max name provider rest l.spend, some name, passed.2)
      else (.sequence ctx rateGate max rest l, none, passed.2)

def spawnRound (config : Config) (client : String → Bool) (now : Instant) (m : Monitor)
    (ctx : RequestCtx) (rateGate : Bool) : List String → List BroadcastLeg → Round
  | [], spawned => (.racing ctx spawned none, none, m)
  | name :: rest, spawned =>
    match config.provider name with
    | none => (.spawning ctx rateGate rest spawned, none, m)
    | some provider =>
      if !client name then (.spawning ctx rateGate rest spawned, none, m)
      else
        let passed := m.passGate name provider now rateGate
        if passed.1 then
          (.spawning ctx rateGate rest (spawned ++ [⟨name, provider⟩]), some name, passed.2)
        else (.spawning ctx rateGate rest spawned, none, passed.2)

def Phase.dispatch (config : Config) (client : String → Bool) (now : Instant) (m : Monitor) :
    Phase → Option Round
  | .sequence ctx rateGate max names l =>
    some (sequenceRound config client now m ctx rateGate max names l)
  | .spawning ctx rateGate names spawned =>
    some (spawnRound config client now m ctx rateGate names spawned)
  | .racing ctx [] best => some (.answered (bestErrorRun ctx best).reply ctx [], none, m)
  | _ => none

def Phase.answer (config : Config) (now : Instant) (m : Monitor) (leg : Leg) :
    Phase → Option (Phase × Monitor)
  | .waiting ctx rateGate max name provider rest l =>
    let received := receive config ctx max l name provider rest leg.result
    let m' := m.recordOutcome name now received.1 leg.latencyMs config.health
    match received.2 with
    | .retry l' => some (.sequence ctx rateGate max rest l', m')
    | .answer status body _ => some (.answered (.of status body) ctx [], m')
  | _ => none

def settle (ctx : RequestCtx) (pending : List BroadcastLeg) (best : Option BestError)
    (outcome : Outcome) : Except String HttpResponse → Phase
  | .ok r =>
    if outcome = .ok then .answered (.of 200 r.body) ctx pending
    else .racing ctx pending (keepBetter BestError.rank best ⟨r.status.asU16, r.body,
      broadcastErrorRank outcome r.status.asU16 (extractRpcErrorCode r.body)⟩)
  | .error _ => .racing ctx pending best

def Phase.complete (config : Config) (now : Instant) (m : Monitor) (name : String)
    (leg : Option Leg) (phase : Phase) : Option (Phase × Monitor) :=
  match phase with
  | .racing ctx pending best =>
    match pending.find? (·.name == name), leg with
    | none, _ => none
    | some _, none => some (.racing ctx (pending.eraseP (·.name == name)) best, m)
    | some spawned, some leg =>
      let outcome := leg.outcome ctx.historyLookup spawned.provider
      some (settle ctx (pending.eraseP (·.name == name)) best outcome leg.result,
        m.recordOutcome name now outcome leg.latencyMs config.health)
  | .answered reply ctx pending =>
    match pending.find? (·.name == name), leg with
    | none, _ => none
    | some _, none => some (.answered reply ctx (pending.eraseP (·.name == name)), m)
    | some spawned, some leg =>
      some (.answered reply ctx (pending.eraseP (·.name == name)), m.recordOutcome name now
        (leg.outcome ctx.historyLookup spawned.provider) leg.latencyMs config.health)
  | _ => none

def Request.move (config : Config) (client : String → Bool) (now : Instant) (m : Monitor)
    (r : Request) : Move → Option (Request × Monitor)
  | .snapshot =>
    match r.phase with
    | .arrived =>
      let (snapshots, observedTips, m') := m.snapshotsWithTips now config.health
      some ({ r with phase := .snapped snapshots observedTips }, m')
    | _ => none
  | .route random =>
    match r.phase with
    | .snapped snapshots observedTips =>
      if 0 ≤ random ∧ random < 1 then
        some ({ r with phase := .routed config r.cls r.body snapshots observedTips random }, m)
      else none
    | _ => none
  | .dispatch =>
    (r.phase.dispatch config client now m).map (fun round =>
      ({ r with phase := round.1, forwards := r.forwards ++ round.2.1.toList }, round.2.2))
  | .answer leg =>
    (r.phase.answer config now m leg).map (fun next => ({ r with phase := next.1 }, next.2))
  | .complete name leg =>
    (r.phase.complete config now m name leg).map (fun next =>
      ({ r with phase := next.1 }, next.2))

/-- A probe loop runs for the provider: `start` spawns one for each that has a client, and
`health_loop` leaves those that do not serve `getSlot`. -/
def Probed (config : Config) (client : String → Bool) (name : String) : Prop :=
  client name = true ∧ ∃ p, config.provider name = some p ∧ p.supports "getSlot" = true

instance (config : Config) (client : String → Bool) (name : String) :
    Decidable (Probed config client name) :=
  decidable_of_iff (client name && (config.provider name).any (·.supports "getSlot"))
    (by simp [Probed, Option.any_eq_true])

def Sys.step (config : Config) (client : String → Bool) (s : Sys) : Event → Option Sys
  | .tick ns => some { s with now := s.now + ns }
  | .arrive body =>
    some { s with requests := s.requests ++ [{ body := body, cls := requestClass config body }] }
  | .move i move =>
    match s.requests[i]? with
    | none => none
    | some r =>
      (r.move config client s.now s.monitor move).map (fun next =>
        { s with requests := s.requests.set i next.1, monitor := next.2 })
  | .probe name result =>
    if Probed config client name then
      some { s with monitor := s.monitor.probed name s.now config.health result }
    else none
  | .reference slots round =>
    if config.health.referenceUrl.isSome then
      some { s with monitor := s.monitor.referenceProbed slots round }
    else none

/-- The proxy with a configuration and the clients it could build. It starts with a new
monitor, whose entries may be in any order. -/
def proxy (config : Config) (client : String → Bool) : System Sys Event where
  init s := s.requests = [] ∧
    s.monitor.entries.Perm (config.providers.map (ProviderEntry.new · s.now))
  step := Sys.step config client

variable {config : Config} {client : String → Bool}

section

variable {now : Instant} {m : Monitor} {ctx : RequestCtx} {rateGate : Bool} {max : Nat}

theorem Monitor.passGate_eq (m : Monitor) (name : String) (provider : ProviderConfig)
    (now : Instant) (rateGate : Bool) :
    (m.passGate name provider now rateGate).1 =
      !(provider.maxRps.isSome && !(m.tryAcquire name now).1 && rateGate) := by
  unfold passGate
  cases provider.maxRps.isSome <;> simp

@[simp] theorem Monitor.passGate_names (m : Monitor) (name : String) (provider : ProviderConfig)
    (now : Instant) (rateGate : Bool) : (m.passGate name provider now rateGate).2.names = m.names := by
  unfold passGate
  split <;> simp

theorem sequenceRound_names (names : List String) (l : Loop) :
    (sequenceRound config client now m ctx rateGate max names l).2.2.names = m.names := by
  cases names with
  | nil => rfl
  | cons name rest =>
    rw [sequenceRound]
    cases hc : candidate config client max l name with
    | stop => rfl
    | skip => rfl
    | reach provider =>
      dsimp only
      split <;> simp

theorem spawnRound_names (names : List String) (spawned : List BroadcastLeg) :
    (spawnRound config client now m ctx rateGate names spawned).2.2.names = m.names := by
  cases names with
  | nil => rfl
  | cons name rest =>
    rw [spawnRound]
    cases hp : config.provider name with
    | none => rfl
    | some provider =>
      dsimp only
      split
      · rfl
      · split <;> simp

theorem Phase.dispatch_names {phase : Phase} {round : Round}
    (h : phase.dispatch config client now m = some round) : round.2.2.names = m.names := by
  unfold dispatch at h
  split at h
  · obtain rfl := Option.some.inj h
    exact sequenceRound_names _ _
  · obtain rfl := Option.some.inj h
    exact spawnRound_names _ _
  · obtain rfl := Option.some.inj h
    rfl
  · cases h

theorem Phase.answer_names {phase : Phase} {leg : Leg} {next : Phase × Monitor}
    (h : phase.answer config now m leg = some next) : next.2.names = m.names := by
  unfold answer at h
  split at h
  · dsimp only at h
    split at h <;> (obtain rfl := Option.some.inj h; simp)
  · cases h

theorem Phase.complete_names {phase : Phase} {name : String} {leg : Option Leg}
    {next : Phase × Monitor} (h : phase.complete config now m name leg = some next) :
    next.2.names = m.names := by
  unfold complete at h
  split at h
  · split at h
    · cases h
    · obtain rfl := Option.some.inj h
      rfl
    · obtain rfl := Option.some.inj h
      simp
  · split at h
    · cases h
    · obtain rfl := Option.some.inj h
      rfl
    · obtain rfl := Option.some.inj h
      simp
  · cases h

theorem Request.move_names {r : Request} {move : Move} {next : Request × Monitor}
    (h : r.move config client now m move = some next) : next.2.names = m.names := by
  cases move with
  | snapshot =>
    simp only [Request.move] at h
    split at h
    · obtain rfl := Option.some.inj h
      exact m.snapshotsWithTips_names now config.health
    · cases h
  | route random =>
    simp only [Request.move] at h
    split at h
    · split at h
      · obtain rfl := Option.some.inj h
        rfl
      · cases h
    · cases h
  | dispatch =>
    obtain ⟨round, hr, rfl⟩ := Option.map_eq_some_iff.mp h
    exact Phase.dispatch_names hr
  | answer leg =>
    obtain ⟨next, hn, rfl⟩ := Option.map_eq_some_iff.mp h
    exact Phase.answer_names hn
  | complete name leg =>
    obtain ⟨next, hn, rfl⟩ := Option.map_eq_some_iff.mp h
    exact Phase.complete_names hn

end

def Sys.start (config : Config) : Sys where
  now := 0
  monitor := Monitor.new config.providers 0

theorem Sys.start_init (config : Config) (client : String → Bool) :
    (proxy config client).init (Sys.start config) :=
  ⟨rfl, .refl _⟩

theorem Sys.step_cases {s t : Sys} {e : Event} (h : s.step config client e = some t) :
    (t.requests = s.requests ∧ ∀ i move, e ≠ .move i move) ∨
    (∃ body, e = .arrive body ∧
      t.requests = s.requests ++ [{ body := body, cls := requestClass config body }]) ∨
    ∃ i move r next, e = .move i move ∧ s.requests[i]? = some r ∧
      r.move config client s.now s.monitor move = some next ∧
      t = { s with requests := s.requests.set i next.1, monitor := next.2 } := by
  cases e with
  | tick ns =>
    obtain rfl := Option.some.inj h
    exact Or.inl ⟨rfl, by simp⟩
  | arrive body =>
    obtain rfl := Option.some.inj h
    exact Or.inr (Or.inl ⟨body, rfl, rfl⟩)
  | move i move =>
    simp only [Sys.step] at h
    cases hr : s.requests[i]? with
    | none => simp [hr] at h
    | some r =>
      rw [hr] at h
      obtain ⟨next, hn, rfl⟩ := Option.map_eq_some_iff.mp h
      exact Or.inr (Or.inr ⟨i, move, r, next, rfl, hr, hn, rfl⟩)
  | probe name result =>
    simp only [Sys.step] at h
    split at h
    · obtain rfl := Option.some.inj h
      exact Or.inl ⟨rfl, by simp⟩
    · cases h
  | reference slots round =>
    simp only [Sys.step] at h
    split at h
    · obtain rfl := Option.some.inj h
      exact Or.inl ⟨rfl, by simp⟩
    · cases h

theorem Sys.step_requests {s t : Sys} {e : Event} {P : Request → Prop}
    (h : s.step config client e = some t)
    (hnew : ∀ body, P { body := body, cls := requestClass config body })
    (hmove : ∀ i move r next, e = .move i move → s.requests[i]? = some r →
      r.move config client s.now s.monitor move = some next → P r → P next.1)
    (hr : ∀ r ∈ s.requests, P r) : ∀ r ∈ t.requests, P r := by
  rcases Sys.step_cases h with ⟨he, -⟩ | ⟨body, -, he⟩ | ⟨i, move, r, next, he, hri, hn, rfl⟩
  · rw [he]
    exact hr
  · rw [he]
    intro r hm
    rcases List.mem_append.mp hm with hm | hm
    · exact hr r hm
    · obtain rfl := List.mem_singleton.mp hm
      exact hnew body
  · intro r' hm
    rcases List.mem_or_eq_of_mem_set hm with hm | rfl
    · exact hr r' hm
    · exact hmove i move r next he hri hn (hr r (List.mem_of_getElem? hri))

theorem Sys.step_names {s t : Sys} {e : Event} (h : s.step config client e = some t) :
    t.monitor.names = s.monitor.names := by
  cases e with
  | tick ns =>
    obtain rfl := Option.some.inj h
    rfl
  | arrive body =>
    obtain rfl := Option.some.inj h
    rfl
  | move i move =>
    rcases step_cases h with ⟨-, hne⟩ | ⟨body, he, -⟩ | ⟨_, _, r, next, -, -, hn, rfl⟩
    · exact absurd rfl (hne i move)
    · cases he
    · exact Request.move_names hn
  | probe name result =>
    simp only [Sys.step] at h
    split at h
    · obtain rfl := Option.some.inj h
      simp
    · cases h
  | reference slots round =>
    simp only [Sys.step] at h
    split at h
    · obtain rfl := Option.some.inj h
      simp
    · cases h

def Sys.Tracks (config : Config) (s : Sys) : Prop :=
  s.monitor.names.Perm (config.providers.map (·.name))

theorem proxy_init_tracks {s : Sys} (h : (proxy config client).init s) : s.Tracks config := by
  have hp := h.2.map ProviderEntry.name
  rw [List.map_map] at hp
  exact hp

theorem proxy_tracks {s : Sys} (h : (proxy config client).Reachable s) : s.Tracks config :=
  System.invariant_reachable (fun _ => proxy_init_tracks)
    (fun _ _ _ hi hs => by rw [Sys.Tracks, Sys.step_names hs]; exact hi) h

end RpcPlane
