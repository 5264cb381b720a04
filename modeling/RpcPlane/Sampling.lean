import RpcPlane.ProbeGrid

/-! The probe loops and the snapshots that are taken meanwhile. Each access to what they share is
a step of its own: the round tips, the slots of the reference, the health of one provider. -/

namespace RpcPlane

/-- An entry of the round tips, with the loop that made it and when it had launched its probe. -/
structure Report where
  loop : Nat
  health : Option Nat
  launched : Nat
  round : Nat
  slots : CommitmentSlots

/-- What loops and snapshots share. A health record is known by its number, since a loop and a
snapshot may hold one that the monitor has let go. -/
structure Shared where
  now : Nat
  grid : ProbeGrid
  healths : List ProviderHealth
  referenceSlots : CommitmentSlots := {}
  roundTips : RoundTips := fun _ => none
  /-- history: what the round tips have observed -/
  reports : List Report := []

/-- A probe in flight, with the tick it was launched for. -/
structure Launch where
  tick : Nat
  launched : Nat
  round : Option Nat

inductive SamplerPhase where
  | waiting
  | ticked (tick : Nat)
  | probing (launch : Launch)
  | observing (launch : Launch) (res : ProbeResult)
  | updating (launch : Launch) (res : ProbeResult)
  | recording (result : ProbeEnd)
  | ended

/-- A `health_loop`, or the `reference_loop` when it has no health to update. -/
structure Sampler where
  health : Option Nat
  deadline : Nat
  phase : SamplerPhase := .waiting
  stopped : Bool := false

inductive SamplerAct where
  | tick
  | launch
  | answered (res : ProbeResult)
  | throttled (latencyMs : ℚ)
  | failed (latencyMs : ℚ)
  | observe
  | update
  | record

def ProviderHealth.recordProbe (h : ProviderHealth) (now : Nat) (cfg : HealthConfig) :
    ProbeEnd → ProviderHealth
  | .ok res _ => h.record now true res.processedLatencyMs true cfg
  | .rateLimited latencyMs => h.recordThrottled now latencyMs cfg
  | .failed latencyMs => h.record now false latencyMs true cfg

def ProviderHealth.recordOutcome (h : ProviderHealth) (now : Nat) (cfg : HealthConfig)
    (outcome : Outcome) (latencyMs : ℚ) : ProviderHealth :=
  match outcome with
  | .ok => h.record now true latencyMs false cfg
  | .providerError => h.record now false latencyMs false cfg
  | .rateLimited => h.recordThrottled now latencyMs cfg
  | .clientError | .miss | .behind | .unsupported => h

def Shared.modify (s : Shared) (i : Nat) (f : ProviderHealth → ProviderHealth) : Shared :=
  { s with healths := s.healths.modify i f }

/-- `if let Some(round)` around the write of the round tips. -/
def Shared.observe (s : Shared) (k : Nat) (health : Option Nat) (launch : Launch)
    (slots : CommitmentSlots) : Shared :=
  match launch.round with
  | some round =>
    { s with
      roundTips := s.roundTips.observe round slots
      reports := s.reports ++ [⟨k, health, launch.launched, round, slots⟩] }
  | none => s

def Sampler.step (interval : SkippingInterval) (cfg : HealthConfig) (k : Nat) (m : Sampler)
    (s : Shared) : SamplerAct → Option (Sampler × Shared)
  | .tick =>
    match m.phase with
    | .waiting =>
      if m.deadline ≤ s.now then
        some ({ m with
          phase := .ticked m.deadline
          deadline := interval.next s.grid.period m.deadline s.now }, s)
      else none
    | _ => none
  | .launch =>
    match m.phase with
    | .ticked tick =>
      if m.stopped then some ({ m with phase := .ended }, s)
      else some ({ m with phase := .probing ⟨tick, s.now, s.grid.onGridRound tick s.now⟩ }, s)
    | _ => none
  | .answered res =>
    match m.phase with
    | .probing launch => some ({ m with phase := .observing launch res }, s)
    | _ => none
  | .throttled latencyMs =>
    match m.phase with
    | .probing _ => some ({ m with phase := .recording (.rateLimited latencyMs) }, s)
    | _ => none
  | .failed latencyMs =>
    match m.phase with
    | .probing _ => some ({ m with phase := .recording (.failed latencyMs) }, s)
    | _ => none
  | .observe =>
    match m.phase with
    | .observing launch res =>
      some ({ m with phase := .updating launch res }, s.observe k m.health launch res.slots)
    | _ => none
  | .update =>
    match m.phase with
    | .updating launch res =>
      match m.health with
      | some i =>
        some ({ m with phase := .recording (.ok res launch.round) },
          s.modify i (·.updateSlotsInRound res.slots launch.round))
      | none =>
        some ({ m with phase := .waiting },
          { s with referenceSlots := s.referenceSlots.merge res.slots })
    | _ => none
  | .record =>
    match m.phase with
    | .recording result =>
      match m.health with
      | some i => some ({ m with phase := .waiting }, s.modify i (·.recordProbe s.now cfg result))
      -- a failed probe of the reference is only counted
      | none => some ({ m with phase := .waiting }, s)
    | _ => none

inductive SnapshotPhase where
  | reading (rest : List Nat)
  | booking
  | snapping (rest : List Nat) (book : TipBook)

/-- A `snapshots_with_tips` under way. -/
structure SnapshotCall where
  handles : List Nat
  phase : SnapshotPhase
  tips : SlotTips := {}
  observedTips : CommitmentSlots := {}
  snapshots : List HealthSnapshot := []
  /-- history: the slots this call has read, and how many reports were made before it copied the
  round tips -/
  seen : List CommitmentSlots := []
  before : Nat := 0

def SnapshotCall.new (handles : List Nat) : SnapshotCall where
  handles := handles
  phase := .reading handles

def SnapshotCall.read (call : SnapshotCall) (slots : CommitmentSlots) : SnapshotCall :=
  { call with
    tips := call.tips.observe slots
    observedTips := call.observedTips.observeMax slots
    seen := call.seen ++ [slots] }

def SnapshotCall.fillConfirmed (call : SnapshotCall) : SnapshotCall :=
  if call.observedTips.confirmed.isNone then
    { call with
      observedTips := { call.observedTips with confirmed := call.observedTips.finalized } }
  else call

/-- The next access of the call. The peek at the buckets, which reads no slots, is left out. -/
def SnapshotCall.step (cfg : HealthConfig) (s : Shared) (call : SnapshotCall) :
    Option SnapshotCall :=
  match call.phase with
  | .reading (i :: rest) =>
    (s.healths[i]?).map (fun h => { call.read h.inner.slots with phase := .reading rest })
  | .reading [] =>
    some { (call.read s.referenceSlots).fillConfirmed with phase := .booking }
  | .booking =>
    some { call with
      phase := .snapping call.handles ⟨call.tips, s.roundTips⟩
      before := s.reports.length }
  | .snapping (i :: rest) book =>
    (s.healths[i]?).map (fun h =>
      { call with
        phase := .snapping rest book
        snapshots := call.snapshots ++ [h.snapshot book.tip cfg] })
  | .snapping [] _ => none

structure Sampling extends Shared where
  /-- the health records that the monitor has, in the order of its map -/
  entries : List Nat
  samplers : List Sampler := []
  calls : List SnapshotCall := []

inductive SamplingEvent where
  | wait (ns : Nat)
  /-- `add_provider` up to the write of the map -/
  | create (provider : ProviderConfig)
  | insert (i : Nat)
  | remove (name : String)
  | stop (k : Nat)
  /-- the task of a loop makes its ticker -/
  | start (health : Option Nat)
  | loop (k : Nat) (act : SamplerAct)
  /-- an outcome of a live request -/
  | recorded (i : Nat) (outcome : Outcome) (latencyMs : ℚ)
  | collect
  | advance (j : Nat)

def Sampling.nameOf (s : Sampling) (i : Nat) : Option String := (s.healths[i]?).map (·.name)

def Sampling.step (interval : SkippingInterval) (cfg : HealthConfig) (s : Sampling) :
    SamplingEvent → Option Sampling
  | .wait ns => some { s with now := s.now + ns }
  | .create provider => some { s with healths := s.healths ++ [⟨provider.name, {}⟩] }
  | .insert i =>
    if i < s.healths.length then
      some { s with entries := s.entries.filter (fun k => s.nameOf k != s.nameOf i) ++ [i] }
    else none
  | .remove name =>
    some { s with entries := s.entries.filter (fun k => s.nameOf k != some name) }
  | .stop k => some { s with samplers := s.samplers.modify k (fun m => { m with stopped := true }) }
  | .start health =>
    if ∀ i ∈ health, i < s.healths.length then
      some { s with samplers := s.samplers ++ [⟨health, s.grid.firstTick s.now, .waiting, false⟩] }
    else none
  | .loop k act =>
    match s.samplers[k]? with
    | some m =>
      (m.step interval cfg k s.toShared act).map (fun next =>
        { s with toShared := next.2, samplers := s.samplers.set k next.1 })
    | none => none
  | .recorded i outcome latencyMs =>
    some { s with toShared := s.modify i (·.recordOutcome s.now cfg outcome latencyMs) }
  | .collect => some { s with calls := s.calls ++ [.new s.entries] }
  | .advance j =>
    match s.calls[j]? with
    | some call =>
      (call.step cfg s.toShared).map (fun call => { s with calls := s.calls.set j call })
    | none => none

/-- The monitor from `HealthMonitor::new` on. -/
def sampling (interval : SkippingInterval) (cfg : HealthConfig) : System Sampling SamplingEvent where
  init s := ∃ providers : List ProviderConfig, ∃ now,
    s = { now := now, grid := .new cfg.intervalMs now
          healths := providers.map (⟨·.name, {}⟩)
          entries := List.range providers.length }
  step := Sampling.step interval cfg

end RpcPlane
