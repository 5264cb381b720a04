import Mathlib.Algebra.Group.Nat.Defs
import Mathlib.Data.Rat.Defs
import RpcPlane.Keyed

/-! The configuration, its defaults and `Config::validate`. Fractions that the source
keeps in `f64` are exact rationals throughout. -/

namespace RpcPlane

inductive Commitment where
  | processed
  | confirmed
  | finalized
  deriving DecidableEq, Repr

structure ServerConfig where
  listen : String := "127.0.0.1:9400"
  metricsListen : String := "127.0.0.1:9401"
  listenBacklog : Nat := 4096
  poolMaxIdlePerHost : Nat := 512
  workerThreads : Option Nat := none
  deriving DecidableEq, Repr

structure HealthConfig where
  intervalMs : Nat := 1000
  windowSecs : Nat := 60
  probeCommitments : List Commitment := [.processed, .finalized]
  slotDriftThreshold : Nat := 10
  referenceUrl : Option String := none
  circuitOpenFailures : UInt32 := 5
  circuitErrorThreshold : ℚ := 1 / 2
  circuitCooldownSecs : Nat := 30
  wLatency : ℚ := 2 / 5
  wError : ℚ := 3 / 10
  wSlot : ℚ := 1 / 5
  wSuccess : ℚ := 1 / 10
  deriving DecidableEq

inductive RoutingStrategy where
  | bestScore
  | weightedRandom
  | failoverOrdered
  | parallelRace
  deriving DecidableEq, Repr

theorem defaultMaxRetries_lt : 2 < 2 ^ 63 := by decide

/-- TOML integers are 64-bit signed, so `max_retries + 1` stays inside `usize`. -/
structure RoutingConfig where
  strategy : RoutingStrategy := .bestScore
  maxRetries : Nat := 2
  maxRetries_lt : maxRetries < 2 ^ 63 := by exact defaultMaxRetries_lt
  broadcastWrites : Bool := false
  writeMethods : List String := ["sendTransaction"]
  historyMethods : List String := ["getTransaction", "getBlock"]
  fullHistoryMethods : List String := ["getSignaturesForAddress"]
  deriving DecidableEq

inductive HistoryDepth where
  | full
  | recent
  deriving DecidableEq, Repr

structure ProviderConfig where
  name : String
  url : String
  weight : Nat := 1
  http3 : Bool := false
  methods : Option (List String) := none
  maxRps : Option Nat := none
  history : HistoryDepth := .full
  deriving DecidableEq, Repr

def ProviderConfig.supports (p : ProviderConfig) (method : String) : Bool :=
  match p.methods with
  | some list => if list.isEmpty then true else list.contains method
  | none => true

structure ReportingConfig where
  endpoint : String
  apiKey : Option String := none
  flushIntervalMs : Nat := 60000
  bufferSize : Nat := 1000
  batchSize : Nat := 100
  deriving DecidableEq, Repr

structure HistoricalAnalyticsConfig where
  queueCapacity : Nat := 512
  maxQueuedBytes : Nat := 67108864
  maxJobBytes : Nat := 2097152
  stateCapacity : Nat := 250000
  stateTtlSecs : Nat := 172800
  flushIntervalMs : Nat := 60000
  deriving DecidableEq, Repr

structure Config where
  server : ServerConfig := {}
  health : HealthConfig := {}
  routing : RoutingConfig := {}
  providers : List ProviderConfig := []
  reporting : Option ReportingConfig := none
  historicalAnalytics : Option HistoricalAnalyticsConfig := none
  deriving DecidableEq

def Config.provider (config : Config) (name : String) : Option ProviderConfig :=
  config.providers.find? (·.name == name)

/-- The Unicode `White_Space` property, which `str::trim` strips. -/
def isWhitespace (c : Char) : Bool :=
  let n := c.toNat
  (0x09 ≤ n && n ≤ 0x0D) || n == 0x20 || n == 0x85 || n == 0xA0 || n == 0x1680 ||
    (0x2000 ≤ n && n ≤ 0x200A) || n == 0x2028 || n == 0x2029 || n == 0x202F ||
    n == 0x205F || n == 0x3000

def trimIsEmpty (s : String) : Bool := s.toList.all isWhitespace

def ensure (cond : Bool) (message : String) : Except String Unit :=
  if cond then .ok () else .error message

def ProviderConfig.validate (p : ProviderConfig) (seen : List String) : Except String Unit := do
  ensure (p.url != "") ("provider '" ++ p.name ++ "' has an empty url")
  ensure (!seen.contains p.name)
    ("duplicate provider name '" ++ p.name ++ "'; provider names must be unique")
  if let some methods := p.methods then
    ensure (!methods.isEmpty)
      ("provider '" ++ p.name ++ "' has an empty methods list; omit the key to serve all methods")
    ensure (methods.all (!trimIsEmpty ·))
      ("provider '" ++ p.name ++ "' has an empty entry in methods")
  ensure (p.maxRps.all (1 ≤ ·))
    ("provider '" ++ p.name ++
      "' has max_rps = 0; use a positive value or omit the key for no limit")

def validateProviders : List ProviderConfig → List String → Except String Unit
  | [], _ => .ok ()
  | p :: ps, seen => do
    p.validate seen
    validateProviders ps (p.name :: seen)

def HistoricalAnalyticsConfig.validate (h : HistoricalAnalyticsConfig)
    (reporting : Option ReportingConfig) : Except String Unit := do
  ensure reporting.isSome
    ("historical_analytics requires [reporting]: analysis is delivered " ++
      "only as remote telemetry aggregates, so without a reporting " ++
      "endpoint the analyzer would consume resources and report nothing")
  ensure (0 < h.queueCapacity) "historical_analytics.queue_capacity must be positive"
  ensure (4096 ≤ h.maxQueuedBytes)
    "historical_analytics.max_queued_bytes must be at least 4096"
  ensure (0 < h.maxJobBytes) "historical_analytics.max_job_bytes must be positive"
  ensure (0 < h.stateCapacity) "historical_analytics.state_capacity must be positive"
  ensure (0 < h.stateTtlSecs) "historical_analytics.state_ttl_secs must be positive"
  ensure (0 < h.flushIntervalMs) "historical_analytics.flush_interval_ms must be positive"
  ensure (h.maxJobBytes ≤ h.maxQueuedBytes)
    ("historical_analytics.max_job_bytes (" ++ toString h.maxJobBytes ++
      ") must be <= max_queued_bytes (" ++ toString h.maxQueuedBytes ++ ")")

def probedOnce : List Commitment → List Commitment → Bool
  | _, [] => true
  | before, c :: cs => !before.contains c && probedOnce (before ++ [c]) cs

def HealthConfig.validate (health : HealthConfig) : Except String Unit := do
  ensure (health.probeCommitments.contains .processed)
    ("health.probe_commitments must include \"processed\": " ++
      "probe liveness and latency come from it")
  ensure (probedOnce [] health.probeCommitments)
    "health.probe_commitments lists a commitment twice"
  if let some url := health.referenceUrl then
    ensure (!trimIsEmpty url)
      ("health.reference_url must not be empty; " ++
        "omit the key to disable the external reference")

def RoutingConfig.validate (routing : RoutingConfig) (providers : List ProviderConfig) :
    Except String Unit := do
  ensure (routing.writeMethods.all (!trimIsEmpty ·))
    "routing.write_methods must not contain empty entries"
  ensure (routing.historyMethods.all (!trimIsEmpty ·))
    "routing.history_methods must not contain empty entries"
  ensure (routing.fullHistoryMethods.all (!trimIsEmpty ·))
    "routing.full_history_methods must not contain empty entries"
  ensure (routing.fullHistoryMethods.isEmpty || providers.any (·.history == .full))
    ("every provider has history = \"recent\", so routing.full_history_methods (" ++
      ", ".intercalate routing.fullHistoryMethods ++
      ") would have no provider; mark at least one provider history = \"full\", or set " ++
      "routing.full_history_methods = [] to send those calls to recent providers")

def ReportingConfig.validate (r : ReportingConfig) : Except String Unit := do
  ensure (r.endpoint != "") "reporting.endpoint must not be empty"
  ensure (10000 ≤ r.flushIntervalMs)
    ("reporting.flush_interval_ms must be >= 10000 (10 s); got " ++
      toString r.flushIntervalMs ++
      ". Values below 10 s produce excessive telemetry volume.")

def Config.validate (config : Config) : Except String Unit := do
  ensure (!config.providers.isEmpty) "config must have at least one [[providers]] entry"
  validateProviders config.providers []
  config.routing.validate config.providers
  config.health.validate
  if let some r := config.reporting then r.validate
  if let some h := config.historicalAnalytics then h.validate config.reporting

theorem ensure_bind_ok {cond : Bool} {message : String} {f : Unit → Except String Unit} :
    (ensure cond message >>= f) = .ok () ↔ cond = true ∧ f () = .ok () := by
  cases cond <;> simp [ensure, bind, Except.bind]

theorem bind_ok {x : Except String Unit} {f : Unit → Except String Unit} :
    (x >>= f) = .ok () ↔ x = .ok () ∧ f () = .ok () := by
  cases x <;> simp [bind, Except.bind]

theorem ProviderConfig.validate_ok {p : ProviderConfig} {seen : List String}
    (h : p.validate seen = .ok ()) : p.name ∉ seen := by
  simp only [ProviderConfig.validate, ensure_bind_ok] at h
  simpa using h.2.1

theorem validateProviders_ok {ps : List ProviderConfig} {seen : List String}
    (h : validateProviders ps seen = .ok ()) :
    (ps.map (·.name)).Nodup ∧ ∀ p ∈ ps, p.name ∉ seen := by
  induction ps generalizing seen with
  | nil => simp
  | cons p ps ih =>
    simp only [validateProviders, bind_ok] at h
    have hp := ProviderConfig.validate_ok h.1
    obtain ⟨hnd, hnew⟩ := ih h.2
    refine ⟨?_, ?_⟩
    · simp only [List.map_cons, List.nodup_cons]
      refine ⟨?_, hnd⟩
      intro hm
      obtain ⟨q, hq, he⟩ := List.mem_map.mp hm
      exact hnew q hq (by simp [he])
    · intro q hq
      rcases List.mem_cons.mp hq with rfl | hq
      · exact hp
      · exact fun hs => hnew q hq (List.mem_cons_of_mem _ hs)

theorem Config.validate_names {config : Config} (h : config.validate = .ok ()) :
    (config.providers.map (·.name)).Nodup := by
  simp only [Config.validate, bind_ok] at h
  exact (validateProviders_ok h.2.1).1

theorem Config.provider_of_mem {config : Config} (hnd : (config.providers.map (·.name)).Nodup)
    {p : ProviderConfig} (hp : p ∈ config.providers) : config.provider p.name = some p :=
  find?_key_of_mem hnd hp

theorem Config.provider_some {config : Config} {name : String} {p : ProviderConfig}
    (h : config.provider name = some p) : p ∈ config.providers ∧ p.name = name :=
  key_of_find? h

theorem ensure_ok {cond : Bool} {message : String} : ensure cond message = .ok () ↔ cond = true := by
  cases cond <;> simp [ensure]

/-- What `validate` promises of `[historical_analytics]`. -/
structure HistoricalAnalyticsConfig.Valid (h : HistoricalAnalyticsConfig) : Prop where
  queueCapacity : 0 < h.queueCapacity
  maxQueuedBytes : 4096 ≤ h.maxQueuedBytes
  maxJobBytes : 0 < h.maxJobBytes
  stateCapacity : 0 < h.stateCapacity
  stateTtlSecs : 0 < h.stateTtlSecs
  flushIntervalMs : 0 < h.flushIntervalMs
  fits : h.maxJobBytes ≤ h.maxQueuedBytes

theorem HistoricalAnalyticsConfig.validate_ok {h : HistoricalAnalyticsConfig}
    {reporting : Option ReportingConfig} (hv : h.validate reporting = .ok ()) : h.Valid := by
  simp only [HistoricalAnalyticsConfig.validate, ensure_bind_ok, ensure_ok, decide_eq_true_eq] at hv
  obtain ⟨-, hqueue, hbytes, hjob, hstate, httl, hflush, hle⟩ := hv
  exact ⟨hqueue, hbytes, hjob, hstate, httl, hflush, hle⟩

theorem ReportingConfig.validate_ok {r : ReportingConfig} (hv : r.validate = .ok ()) :
    10000 ≤ r.flushIntervalMs := by
  simp only [ReportingConfig.validate, ensure_bind_ok, ensure_ok, decide_eq_true_eq] at hv
  exact hv.2

theorem Config.validate_reporting {config : Config} {r : ReportingConfig}
    (hv : config.validate = .ok ()) (hr : config.reporting = some r) : 10000 ≤ r.flushIntervalMs := by
  simp only [Config.validate, bind_ok, hr] at hv
  obtain ⟨-, -, -, -, hrest⟩ := hv
  exact ReportingConfig.validate_ok hrest.1

theorem Config.validate_historical {config : Config} {h : HistoricalAnalyticsConfig}
    (hv : config.validate = .ok ()) (hh : config.historicalAnalytics = some h) : h.Valid := by
  simp only [Config.validate, bind_ok, hh] at hv
  obtain ⟨-, -, -, -, hrest⟩ := hv
  cases hr : config.reporting with
  | none =>
    rw [hr] at hrest
    exact HistoricalAnalyticsConfig.validate_ok hrest
  | some r =>
    rw [hr] at hrest
    exact HistoricalAnalyticsConfig.validate_ok (bind_ok.mp hrest).2

end RpcPlane
