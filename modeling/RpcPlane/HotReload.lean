import RpcPlane.Drift
import RpcPlane.KeyedWindows

/-! `ProxyState` as `watch_config` sees it: the clients, the monitor with its probe loops, and
what a reload of the configuration does to them. -/

namespace RpcPlane

/-- A client with what `build_client` read for it, and the URL of the provider it is for. -/
structure Client where
  url : String
  http3 : Bool
  poolMaxIdlePerHost : Nat
  deriving DecidableEq

def buildClient (provider : ProviderConfig) (poolMaxIdlePerHost : Nat) : Client :=
  ⟨provider.url, provider.http3, poolMaxIdlePerHost⟩

abbrev Clients := KeyMap String Client

def buildClients (providers : List ProviderConfig) (poolMaxIdlePerHost : Nat) : Clients :=
  providers.foldl (fun m p => m.insert p.name (buildClient p poolMaxIdlePerHost)) ∅

theorem maxRps_nonneg (maxRps : Nat) : 0 ≤ (maxRps : ℚ) := Nat.cast_nonneg maxRps

def TokenBucket.reconfigure (b : TokenBucket) (maxRps : Nat) (now : Instant) : TokenBucket :=
  let b := b.refill now
  { tokens := min b.tokens maxRps
    capacity := maxRps
    rate := maxRps
    last := b.last
    rate_nonneg := maxRps_nonneg maxRps
    tokens_nonneg := le_min b.tokens_nonneg (maxRps_nonneg maxRps)
    tokens_le := min_le_right _ _ }

/-- The body of `apply_rate_limit`. -/
def ProviderEntry.applyRateLimit (maxRps : Option Nat) (now : Instant) (e : ProviderEntry) :
    ProviderEntry :=
  match maxRps, e.limiter with
  | some rps, some limiter => { e with limiter := some (limiter.reconfigure rps now) }
  | some rps, none => { e with limiter := some (.new rps now) }
  | none, some _ => { e with limiter := none }
  | none, none => e

def Monitor.applyRateLimit (m : Monitor) (name : String) (maxRps : Option Nat) (now : Instant) :
    Monitor :=
  m.update name (.applyRateLimit maxRps now)

/-- A loop that probes, with the provider it captured and its stop flag. -/
structure ProbeLoop where
  provider : ProviderConfig
  stop : Nat

/-- The loops of the monitor and their stop flags. Flags are numbered as they are created. -/
structure ProbeLoops where
  /-- the stop flag of each entry of the monitor -/
  entries : KeyMap String Nat := ∅
  next : Nat := 0
  /-- the flags that are set -/
  stopped : List Nat := []
  loops : List ProbeLoop := []

/-- `health_loop` returns at once for a provider that cannot answer its probe. -/
def healthLoop (provider : ProviderConfig) (stop : Nat) : Option ProbeLoop :=
  if provider.supports "getSlot" then some ⟨provider, stop⟩ else none

def ProbeLoops.spawn (l : ProbeLoops) (provider : ProviderConfig) (stop : Nat) : ProbeLoops :=
  { l with loops := l.loops ++ (healthLoop provider stop).toList }

/-- `ProviderEntry` with a flag of its own. -/
def ProbeLoops.insert (l : ProbeLoops) (name : String) : ProbeLoops :=
  { l with entries := l.entries.insert name l.next, next := l.next + 1 }

def ProbeLoops.new (providers : List ProviderConfig) : ProbeLoops :=
  providers.foldl (fun l p => l.insert p.name) {}

/-- `start`, for one provider. -/
def ProbeLoops.startOne (clients : Clients) (l : ProbeLoops) (p : ProviderConfig) : ProbeLoops :=
  match clients.lookup p.name, l.entries.lookup p.name with
  | some _, some stop => l.spawn p stop
  | _, _ => l

def ProbeLoops.start (l : ProbeLoops) (clients : Clients) (providers : List ProviderConfig) :
    ProbeLoops :=
  providers.foldl (.startOne clients) l

def ProbeLoops.addProvider (l : ProbeLoops) (p : ProviderConfig) : ProbeLoops :=
  (l.spawn p l.next).insert p.name

def ProbeLoops.removeProvider (l : ProbeLoops) (name : String) : ProbeLoops :=
  match l.entries.lookup name with
  | some stop => { l with entries := l.entries.erase name, stopped := l.stopped ++ [stop] }
  | none => l

/-- The loops whose stop flag is not set. -/
def ProbeLoops.running (l : ProbeLoops) : List ProbeLoop :=
  l.loops.filter (fun x => !l.stopped.contains x.stop)

structure ProxyState where
  config : Config
  clients : Clients
  monitor : Monitor
  probes : ProbeLoops
  /-- `monitor.cfg`, which no reload replaces -/
  cfg : HealthConfig

def Config.pool (config : Config) : Nat := config.server.poolMaxIdlePerHost

def ProxyState.newWithReporter (config : Config) (now : Instant) : ProxyState :=
  let clients := buildClients config.providers config.pool
  { config := config
    clients := clients
    monitor := .new config.providers now
    probes := (ProbeLoops.new config.providers).start clients config.providers
    cfg := config.health }

def ProxyState.removeProvider (s : ProxyState) (name : String) : ProxyState :=
  { s with
    clients := s.clients.erase name
    monitor := s.monitor.removeProvider name
    probes := s.probes.removeProvider name }

def ProxyState.addProvider (s : ProxyState) (p : ProviderConfig) (pool : Nat) (now : Instant) :
    ProxyState :=
  { s with
    clients := s.clients.insert p.name (buildClient p pool)
    monitor := s.monitor.addProvider p now
    probes := s.probes.addProvider p }

def clientRebuildReason (old : Option ProviderConfig) (new : ProviderConfig)
    (poolSizeChanged : Bool) : Option String :=
  match old with
  | none => some "added"
  | some o =>
    if poolSizeChanged then some "pool size changed"
    else if o.url != new.url then some "URL updated"
    else if o.http3 != new.http3 then some "http3 toggled"
    else none

/-- The pass over the old providers. -/
def ProxyState.dropRemoved (new : Config) (s : ProxyState) (o : ProviderConfig) : ProxyState :=
  if (new.provider o.name).isSome then s else s.removeProvider o.name

/-- The pass that adds and rebuilds. -/
def ProxyState.rebuild (old new : Config) (now : String → Instant) (s : ProxyState)
    (p : ProviderConfig) : ProxyState :=
  match clientRebuildReason (old.provider p.name) p (old.pool != new.pool) with
  | none => s
  | some _ =>
    let s := if (old.provider p.name).isSome then s.removeProvider p.name else s
    s.addProvider p new.pool (now p.name)

/-- The pass over the rate caps. -/
def ProxyState.recap (old : Config) (now : String → Instant) (s : ProxyState)
    (p : ProviderConfig) : ProxyState :=
  if (old.provider p.name).bind (·.maxRps) != p.maxRps then
    { s with monitor := s.monitor.applyRateLimit p.name p.maxRps (now p.name) }
  else s

/-- A changed file as `watch_config` reads it, the orders in which it goes through its two maps
of providers, and the clock readings of the limiters it builds and updates. -/
structure Reload where
  config : Config
  oldOrder : MapOrder ProviderConfig
  newOrder : MapOrder ProviderConfig
  builtAt : String → Instant
  cappedAt : String → Instant

/-- One round of `watch_config`. The names of a valid configuration are distinct, so its two
maps hold the providers of the lists. -/
def ProxyState.reload (s : ProxyState) (r : Reload) : ProxyState :=
  match r.config.validate with
  | .error _ => s
  | .ok () =>
    let old := s.config
    let providers := r.newOrder.order r.config.providers
    let s := (r.oldOrder.order old.providers).foldl (.dropRemoved r.config) s
    let s := providers.foldl (.rebuild old r.config r.builtAt) s
    let s := providers.foldl (.recap old r.cappedAt) s
    { s with config := r.config }

inductive ProxyEvent where
  /-- what probes and requests report to the monitor -/
  | health (e : HealthEvent)
  | acquired (name : String) (now : Instant)
  | reload (r : Reload)

/-- Only `watch_config` adds and removes providers. -/
def HealthEvent.isTraffic : HealthEvent → Bool
  | .added _ _ => false
  | .removed _ => false
  | _ => true

def ProxyState.step (s : ProxyState) : ProxyEvent → Option ProxyState
  | .health e => if e.isTraffic then some { s with monitor := s.monitor.after s.cfg e } else none
  | .acquired name now => some { s with monitor := (s.monitor.tryAcquire name now).2 }
  | .reload r => some (s.reload r)

def watchConfig : System ProxyState ProxyEvent where
  init s := ∃ config now, config.validate = .ok () ∧ s = .newWithReporter config now
  step := ProxyState.step

end RpcPlane
