import RpcPlane.Circuit

/-! The health score of a provider and the snapshot the router reads. -/

namespace RpcPlane

def Inner.drift (g : Inner) (c : Commitment) (tips : TipSource) : Option Nat :=
  (g.slots.get c).map (fun slot => tips c (g.rounds.get c) - slot)

def Inner.worstDrift (g : Inner) (tips : TipSource) : Option Nat :=
  (Commitment.all.filterMap (g.drift · tips)).max?

def Inner.latencyScore (g : Inner) : ℚ :=
  if g.latencyEmaMs = 0 then 1 / 2 else 200 / (200 + g.latencyEmaMs)

def Inner.slotScore (g : Inner) (tips : TipSource) (cfg : HealthConfig) : ℚ :=
  match g.worstDrift tips with
  | some drift => cfg.slotDriftThreshold / (cfg.slotDriftThreshold + drift)
  | none => 1 / 2

def Inner.score (g : Inner) (tips : TipSource) (cfg : HealthConfig) : ℚ :=
  if g.circuit = .opened then 0
  else
    let errorScore := 1 - g.errorRate
    let successScore := 1 - g.errorRate
    let totalW := cfg.wLatency + cfg.wError + cfg.wSlot + cfg.wSuccess
    if totalW ≤ 0 then 1 / 2
    else
      (cfg.wLatency * g.latencyScore + cfg.wError * errorScore +
        cfg.wSlot * g.slotScore tips cfg + cfg.wSuccess * successScore) / totalW

structure CommitmentHealth where
  slot : Option Nat := none
  drift : Nat := 0
  isDrifting : Bool := false
  deriving DecidableEq, Repr

structure HealthSnapshot where
  name : String
  score : ℚ
  slotHeight : Option Nat := none
  slotDrift : Nat := 0
  isDrifting : Bool := false
  latencyMs : ℚ := 0
  errorRate : ℚ := 0
  circuit : CircuitState := .closed
  processed : CommitmentHealth := {}
  confirmed : CommitmentHealth := {}
  finalized : CommitmentHealth := {}
  rateLimited : Bool := false
  deriving DecidableEq

def HealthSnapshot.isAvailable (s : HealthSnapshot) : Bool :=
  s.circuit != .opened && !s.rateLimited

structure ProviderHealth where
  name : String
  inner : Inner := {}

def Inner.commitmentHealth (g : Inner) (c : Commitment) (tips : TipSource) (cfg : HealthConfig) :
    CommitmentHealth :=
  match g.slots.get c, g.drift c tips with
  | some h, some drift =>
    { slot := some h, drift := drift, isDrifting := cfg.slotDriftThreshold < drift }
  | _, _ => {}

def ProviderHealth.snapshot (h : ProviderHealth) (tips : TipSource) (cfg : HealthConfig) :
    HealthSnapshot :=
  let processed := h.inner.commitmentHealth .processed tips cfg
  let confirmed := h.inner.commitmentHealth .confirmed tips cfg
  let finalized := h.inner.commitmentHealth .finalized tips cfg
  { name := h.name
    score := h.inner.score tips cfg
    slotHeight := processed.slot
    slotDrift := max (max processed.drift confirmed.drift) finalized.drift
    isDrifting := processed.isDrifting || confirmed.isDrifting || finalized.isDrifting
    latencyMs := h.inner.latencyEmaMs
    errorRate := h.inner.errorRate
    circuit := h.inner.circuit
    processed, confirmed, finalized
    -- the monitor overlays its peek at the bucket
    rateLimited := false }

def ProviderHealth.record (h : ProviderHealth) (now : Instant) (success : Bool) (latencyMs : ℚ)
    (isProbe : Bool) (cfg : HealthConfig) : ProviderHealth :=
  { h with inner := h.inner.record now success latencyMs isProbe cfg }

def ProviderHealth.recordThrottled (h : ProviderHealth) (now : Instant) (latencyMs : ℚ)
    (cfg : HealthConfig) : ProviderHealth :=
  { h with inner := h.inner.recordThrottled now latencyMs cfg }

def ProviderHealth.updateSlotsInRound (h : ProviderHealth) (slots : CommitmentSlots)
    (round : Option Nat) : ProviderHealth :=
  { h with inner := { h.inner with
      rounds := h.inner.rounds.stamp slots round
      slots := h.inner.slots.merge slots } }

end RpcPlane
