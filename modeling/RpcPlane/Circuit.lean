import RpcPlane.Tips
import Mathlib.Algebra.Order.Field.Rat
import Mathlib.Tactic.Linarith

/-! The sliding window and the circuit breaker of one provider. Instants are counted in
nanoseconds, and one call of `record` or `record_throttled` reads the clock once. -/

namespace RpcPlane

abbrev Instant := Nat

def fromSecs (secs : Nat) : Nat := secs * 1000000000

inductive CircuitState where
  | closed
  | halfOpen
  | opened
  deriving DecidableEq, Repr

inductive Sample where
  | success
  | failure
  | throttle
  deriving DecidableEq, Repr

abbrev Window := List (Instant × Sample)

structure Inner where
  slots : CommitmentSlots := {}
  rounds : CommitmentRounds := {}
  latencyEmaMs : ℚ := 0
  consecutiveFailures : UInt32 := 0
  circuit : CircuitState := .closed
  circuitOpenedAt : Option Instant := none
  window : Window := []

def Inner.pruneWindow (g : Inner) (now : Instant) (windowSecs : Nat) : Inner :=
  let cutoff := now - fromSecs windowSecs
  { g with window := g.window.dropWhile (·.1 < cutoff) }

def Inner.errorRate (g : Inner) : ℚ :=
  if g.window.isEmpty then 0
  else (g.window.countP (·.2 != .success) : ℚ) / g.window.length

def Inner.hardErrorRate (g : Inner) : ℚ :=
  if g.window.isEmpty then 0
  else (g.window.countP (·.2 == .failure) : ℚ) / g.window.length

def Inner.pushSample (g : Inner) (now : Instant) (sample : Sample) (latencyMs : ℚ)
    (updateLatency : Bool) (windowSecs : Nat) : Inner :=
  let g := g.pruneWindow now windowSecs
  let g := { g with window := g.window ++ [(now, sample)] }
  match sample with
  | .success =>
    let ema :=
      if updateLatency then
        if g.latencyEmaMs = 0 then latencyMs
        else 85 / 100 * g.latencyEmaMs + 15 / 100 * latencyMs
      else g.latencyEmaMs
    { g with latencyEmaMs := ema, consecutiveFailures := 0 }
  | .failure => { g with consecutiveFailures := g.consecutiveFailures + 1 }
  | .throttle => g

def Inner.pushResult (g : Inner) (now : Instant) (success : Bool) (latencyMs : ℚ)
    (updateLatency : Bool) (windowSecs : Nat) : Inner :=
  g.pushSample now (if success then .success else .failure) latencyMs updateLatency windowSecs

def applyCircuitTransitions (g : Inner) (now : Instant) (cfg : HealthConfig) : Inner :=
  match g.circuit with
  | .closed =>
    if cfg.circuitOpenFailures ≤ g.consecutiveFailures ∨
        cfg.circuitErrorThreshold < g.hardErrorRate then
      { g with circuit := .opened, circuitOpenedAt := some now }
    else g
  | .opened =>
    match g.circuitOpenedAt with
    | some opened =>
      if fromSecs cfg.circuitCooldownSecs ≤ now - opened then
        { g with circuit := .halfOpen, circuitOpenedAt := none }
      else g
    | none => g
  | .halfOpen =>
    match g.window.getLast?.map Prod.snd with
    | some .success => { g with circuit := .closed, circuitOpenedAt := none }
    | some .failure => { g with circuit := .opened, circuitOpenedAt := some now }
    | some .throttle => g
    | none => g

def Inner.record (g : Inner) (now : Instant) (success : Bool) (latencyMs : ℚ) (isProbe : Bool)
    (cfg : HealthConfig) : Inner :=
  applyCircuitTransitions (g.pushResult now success latencyMs isProbe cfg.windowSecs) now cfg

def Inner.recordThrottled (g : Inner) (now : Instant) (latencyMs : ℚ) (cfg : HealthConfig) :
    Inner :=
  applyCircuitTransitions (g.pushSample now .throttle latencyMs false cfg.windowSecs) now cfg

end RpcPlane
