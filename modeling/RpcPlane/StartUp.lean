import RpcPlane.HotReload
import RpcPlane.TransactionAnalytics

/-! The constructors of the async runtime that `main` and `run` reach with the values of a
configuration, and which of these values make one panic. -/

namespace RpcPlane

/-- A call of a constructor that asserts something of its argument. -/
inductive RuntimeCall where
  | workerThreads (n : Nat)
  | channel (capacity : Nat)
  | interval (periodMs : Nat)
  deriving DecidableEq

/-- None of them takes zero. -/
def RuntimeCall.Panics : RuntimeCall → Prop
  | .workerThreads n => n = 0
  | .channel capacity => capacity = 0
  | .interval periodMs => periodMs = 0

instance (call : RuntimeCall) : Decidable call.Panics :=
  match call with
  | .workerThreads n => inferInstanceAs (Decidable (n = 0))
  | .channel capacity => inferInstanceAs (Decidable (capacity = 0))
  | .interval periodMs => inferInstanceAs (Decidable (periodMs = 0))

def NonePanics (calls : List RuntimeCall) : Prop := ∀ call ∈ calls, ¬ call.Panics

structure ProbeClock where
  periodMs : Nat

def ProbeClock.new (intervalMs : Nat) : ProbeClock := ⟨max intervalMs 1⟩

def ProbeClock.ticker (clock : ProbeClock) : RuntimeCall := .interval clock.periodMs

/-- `RemoteReporter::new`, with the `flush_task` that it spawns. -/
def remoteReporterCalls (config : ReportingConfig) : List RuntimeCall :=
  [.channel config.bufferSize, .interval config.flushIntervalMs]

/-- `HistoricalAnalytics::new`, with its `worker_loop`. -/
def historicalAnalyticsCalls (config : HistoricalAnalyticsConfig) : List RuntimeCall :=
  [.channel config.queueCapacity, .interval config.flushIntervalMs]

/-- The monitor's loops tick on one clock: that of the reference, and those spawned at the start
and by reloads. -/
def healthMonitorCalls (config : HealthConfig) (loops : List ProbeLoop) : List RuntimeCall :=
  let clock := ProbeClock.new config.intervalMs
  loops.map (fun _ => clock.ticker) ++ config.referenceUrl.toList.map (fun _ => clock.ticker)

/-- `ProxyState::new_with_reporter` -/
def proxyStateCalls (config : Config) (loops : List ProbeLoop) : List RuntimeCall :=
  healthMonitorCalls config.health loops ++ .channel txDecodeQueueCapacity ::
    config.historicalAnalytics.toList.flatMap historicalAnalyticsCalls

/-- `run`: the reporter, the proxy, the ticker of `watch_config` and that of the health events. -/
def runCalls (config : Config) (loops : List ProbeLoop) : List RuntimeCall :=
  config.reporting.toList.flatMap remoteReporterCalls ++ proxyStateCalls config loops ++
    [.interval 2000, .interval 60000]

/-- The file is read for this key alone, before the runtime is built, the environment is expanded
and the file is validated. `raw` is its `[server]` table, `none` when the file does not parse so. -/
def peekWorkerThreads (raw : Option ServerConfig) : Option Nat := raw.bind ServerConfig.workerThreads

def mainCalls (raw : Option ServerConfig) (config : Config) (loops : List ProbeLoop) :
    List RuntimeCall :=
  (peekWorkerThreads raw).toList.map RuntimeCall.workerThreads ++ runCalls config loops

/-- The values that no check and no clamp keeps from zero. -/
def Config.Startable (raw : Option ServerConfig) (config : Config) : Prop :=
  (∀ r, config.reporting = some r → 1 ≤ r.bufferSize) ∧
    ∀ server, raw = some server → server.workerThreads ≠ some 0

section

variable {calls calls' : List RuntimeCall} {call : RuntimeCall}

theorem nonePanics_nil : NonePanics [] := fun _ h => absurd h List.not_mem_nil

theorem nonePanics_cons : NonePanics (call :: calls) ↔ ¬ call.Panics ∧ NonePanics calls :=
  List.forall_mem_cons

theorem nonePanics_append :
    NonePanics (calls ++ calls') ↔ NonePanics calls ∧ NonePanics calls' := List.forall_mem_append

theorem nonePanics_optional {α : Type} {o : Option α} {f : α → List RuntimeCall} :
    NonePanics (o.toList.flatMap f) ↔ ∀ a, o = some a → NonePanics (f a) := by
  cases o with
  | none => exact iff_of_true nonePanics_nil nofun
  | some a => simp

end

theorem ProbeClock.ticker_fits (intervalMs : Nat) : ¬ (ProbeClock.new intervalMs).ticker.Panics := by
  show ¬ max intervalMs 1 = 0
  omega

theorem healthMonitorCalls_fit (config : HealthConfig) (loops : List ProbeLoop) :
    NonePanics (healthMonitorCalls config loops) := by
  have htick := ProbeClock.ticker_fits config.intervalMs
  intro call hc
  rcases List.mem_append.mp hc with hc | hc
  · obtain ⟨_, -, rfl⟩ := List.mem_map.mp hc
    exact htick
  · obtain ⟨_, -, rfl⟩ := List.mem_map.mp hc
    exact htick

theorem historicalAnalyticsCalls_fit {config : HistoricalAnalyticsConfig} (hv : config.Valid) :
    NonePanics (historicalAnalyticsCalls config) :=
  nonePanics_cons.mpr ⟨hv.queueCapacity.ne',
    nonePanics_cons.mpr ⟨hv.flushIntervalMs.ne', nonePanics_nil⟩⟩

/-- The interval is checked, the capacity is not. -/
theorem remoteReporterCalls_fit {config : ReportingConfig} (hflush : 10000 ≤ config.flushIntervalMs) :
    NonePanics (remoteReporterCalls config) ↔ 1 ≤ config.bufferSize := by
  have hinterval : ¬ (RuntimeCall.interval config.flushIntervalMs).Panics := by
    show ¬ config.flushIntervalMs = 0
    omega
  rw [remoteReporterCalls, nonePanics_cons]
  constructor
  · intro h
    exact Nat.pos_of_ne_zero h.1
  · intro h
    exact ⟨Nat.pos_iff_ne_zero.mp h, nonePanics_cons.mpr ⟨hinterval, nonePanics_nil⟩⟩

theorem proxyStateCalls_fit {config : Config} (hv : config.validate = .ok ())
    (loops : List ProbeLoop) : NonePanics (proxyStateCalls config loops) := by
  have hchannel : ¬ (RuntimeCall.channel txDecodeQueueCapacity).Panics := by
    show ¬ txDecodeQueueCapacity = 0
    decide
  refine nonePanics_append.mpr ⟨healthMonitorCalls_fit config.health loops, ?_⟩
  refine nonePanics_cons.mpr ⟨hchannel, nonePanics_optional.mpr ?_⟩
  intro h hh
  exact historicalAnalyticsCalls_fit (Config.validate_historical hv hh)

theorem runCalls_fit {config : Config} (hv : config.validate = .ok ()) (loops : List ProbeLoop) :
    NonePanics (runCalls config loops) ↔ ∀ r, config.reporting = some r → 1 ≤ r.bufferSize := by
  have htickers : NonePanics [.interval 2000, .interval 60000] :=
    nonePanics_cons.mpr ⟨by decide, nonePanics_cons.mpr ⟨by decide, nonePanics_nil⟩⟩
  have hproxy := proxyStateCalls_fit hv loops
  have hreporter : ∀ r, config.reporting = some r →
      (NonePanics (remoteReporterCalls r) ↔ 1 ≤ r.bufferSize) :=
    fun r hr => remoteReporterCalls_fit (Config.validate_reporting hv hr)
  rw [runCalls, nonePanics_append, nonePanics_append, nonePanics_optional]
  constructor
  · rintro ⟨⟨h, -⟩, -⟩ r hr
    exact (hreporter r hr).mp (h r hr)
  · intro h
    exact ⟨⟨fun r hr => (hreporter r hr).mpr (h r hr), hproxy⟩, htickers⟩

/-- A valid configuration starts, and goes on to spawn probe loops, without a panic of a runtime
constructor exactly when its channel for telemetry has room and its file, as it reads before the
environment is expanded, does not ask for no threads. -/
theorem runtime_calls_iff (raw : Option ServerConfig) (config : Config)
    (hv : config.validate = .ok ()) (loops : List ProbeLoop) :
    NonePanics (mainCalls raw config loops) ↔ config.Startable raw := by
  have hrun := runCalls_fit hv loops
  have hpeek : NonePanics ((peekWorkerThreads raw).toList.map RuntimeCall.workerThreads) ↔
      ∀ server, raw = some server → server.workerThreads ≠ some 0 := by
    cases raw with
    | none => exact iff_of_true nonePanics_nil (by simp)
    | some server =>
      rw [peekWorkerThreads, Option.bind_some]
      cases hn : server.workerThreads with
      | none => exact iff_of_true nonePanics_nil (by simp [hn])
      | some n =>
        have hzero : NonePanics [.workerThreads n] ↔ ¬ n = 0 := by
          rw [nonePanics_cons]
          exact and_iff_left nonePanics_nil
        exact hzero.trans (by simp [hn])
  rw [mainCalls, nonePanics_append, hrun, hpeek, Config.Startable, and_comm]

/-- One provider and `[reporting]`, with this buffer and these threads. -/
def reported (bufferSize : Nat) (workerThreads : Option Nat) : Config where
  server := { workerThreads }
  providers := [{ name := "helius", url := "https://helius" }]
  reporting := some { endpoint := "https://telemetry", bufferSize }

/-- The smallest buffer, a probe interval of zero and a reference. -/
def tightConfig : Config :=
  { reported 1 (some 4) with
    health := { intervalMs := 0, referenceUrl := some "https://reference" }
    historicalAnalytics := some { queueCapacity := 1 } }

/-- With a file that parses as it is, and with one that does only when expanded. -/
theorem runtime_calls_fit_tight :
    tightConfig.validate = .ok () ∧
      NonePanics (mainCalls (some tightConfig.server) tightConfig
        (tightConfig.providers.map (⟨·, 0⟩))) ∧
      NonePanics (mainCalls none tightConfig (tightConfig.providers.map (⟨·, 0⟩))) := by
  have hbuffer : ∀ r, tightConfig.reporting = some r → 1 ≤ r.bufferSize := by
    intro r hr
    obtain rfl := Option.some.inj hr
    exact le_refl _
  refine ⟨rfl, (runtime_calls_iff _ tightConfig rfl _).mpr ⟨hbuffer, ?_⟩,
    (runtime_calls_iff none tightConfig rfl _).mpr ⟨hbuffer, by simp⟩⟩
  intro server hs
  obtain rfl := Option.some.inj hs
  decide

/-- `mpsc::channel(0)` in the one, `worker_threads(0)` in the other. -/
theorem accepted_zeros_panic :
    (reported 0 none).validate = .ok () ∧
      ¬ NonePanics (mainCalls (some (reported 0 none).server) (reported 0 none) []) ∧
      (reported 1 (some 0)).validate = .ok () ∧
      ¬ NonePanics (mainCalls (some (reported 1 (some 0)).server) (reported 1 (some 0)) []) := by
  have hchannel : RuntimeCall.channel 0 ∈
      mainCalls (some (reported 0 none).server) (reported 0 none) [] := by decide
  have hthreads : RuntimeCall.workerThreads 0 ∈
      mainCalls (some (reported 1 (some 0)).server) (reported 1 (some 0)) [] := by decide
  exact ⟨rfl, fun h => h _ hchannel rfl, rfl, fun h => h _ hthreads rfl⟩

end RpcPlane
