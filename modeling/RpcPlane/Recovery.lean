import RpcPlane.Interleaving

/-! Recovery from an open circuit: `opened` is only left when an outcome is recorded, and an
outcome needs a probe loop or a route to the provider. -/

namespace RpcPlane

variable {config : Config} {client : String → Bool} {s : Sys}

def Sys.snapshots (s : Sys) (config : Config) : List HealthSnapshot :=
  s.monitor.snapshots s.now config.health

def AlwaysListed (config : Config) (s : Sys) (p : ProviderConfig) : Prop :=
  ∀ method, p.supports method = true → ∀ random,
    p.name ∈ (route method (s.snapshots config) config.routing.strategy config.providers
      config.routing.broadcastWrites config.routing.writeMethods false random).providers

theorem isAvailable_snapshot {e : ProviderEntry} {tips : TipSource} {cfg : HealthConfig}
    {now : Instant} (h : (e.snapshot tips cfg now).isAvailable = true) :
    e.health.inner.circuit ≠ .opened := by
  intro hopen
  simp [HealthSnapshot.isAvailable, ProviderEntry.snapshot, ProviderHealth.snapshot, hopen] at h

theorem listed_open_iff (hnd : s.monitor.names.Nodup) {e : ProviderEntry}
    (he : e ∈ s.monitor.entries) (hopen : e.health.inner.circuit = .opened)
    {p : ProviderConfig} (hp : config.provider e.name = some p) {method : String}
    (hm : p.supports method = true) (random : ℚ) :
    e.name ∈ (route method (s.snapshots config) config.routing.strategy config.providers
        config.routing.broadcastWrites config.routing.writeMethods false random).providers ↔
      availableFor method (s.snapshots config) config.providers false = [] := by
  constructor
  · intro hlisted
    by_contra hne
    obtain ⟨snap, hsnap, hname⟩ := List.mem_map.mp
      ((mem_route_available _ _ _ _ _ _ _ _ hne).mp hlisted)
    simp only [availableFor, List.mem_filter, Bool.and_eq_true] at hsnap
    obtain ⟨e', he', rfl⟩ := List.mem_map.mp hsnap.1
    have hkey : e'.name = e.name := hname
    have hsame : e' = e := List.inj_on_of_nodup_map hnd he' he hkey
    exact isAvailable_snapshot hsnap.2.1 (hsame ▸ hopen)
  · intro hnil
    refine (mem_route_degraded _ _ _ _ _ _ _ _ hnil).mpr
      ⟨_, List.mem_map_of_mem he, rfl, ?_⟩
    have hf : config.providers.find? (·.name == e.name) = some p := hp
    simp [routeSupports, hf, hm]

/-- In every reachable state, a provider with an open circuit can still receive an outcome,
from its probe loop or from whatever it serves, exactly when it is probed or nobody else is
available for anything it serves. -/
theorem open_circuit_reachable_iff (config : Config) (client : String → Bool)
    (hv : config.validate = .ok ()) (s : Sys) (hs : (proxy config client).Reachable s)
    (e : ProviderEntry) (he : e ∈ s.monitor.entries) (hopen : e.health.inner.circuit = .opened)
    (p : ProviderConfig) (hp : config.provider e.name = some p) :
    (Probed config client p.name ∨ AlwaysListed config s p) ↔
      (Probed config client p.name ∨ ∀ method, p.supports method = true →
        availableFor method (s.snapshots config) config.providers false = []) := by
  have hnd : s.monitor.names.Nodup := (proxy_tracks hs).nodup_iff.mpr (Config.validate_names hv)
  have hname : p.name = e.name := (Config.provider_some hp).2
  apply or_congr_right
  rw [AlwaysListed, hname]
  constructor
  · exact fun h method hm => (listed_open_iff hnd he hopen hp hm 0).mp (h method hm 0)
  · exact fun h method hm random => (listed_open_iff hnd he hopen hp hm random).mpr (h method hm)

def refusedLanding : List Event :=
  [.arrive sendTransaction.body, .move 0 .snapshot, .move 0 (.route 0), .move 0 .dispatch,
    .move 0 (.answer ⟨.error "connection refused", 1⟩), .tick (fromSecs 30)]

def lander : ProviderConfig where
  name := "lander"
  url := "http://lander"
  methods := some ["sendTransaction"]

def onlyLander : Config where
  providers := [lander]

def landerRefused : Sys :=
  ((proxy onlyLander (fun _ => true)).run (Sys.start onlyLander) refusedLanding).get
    (by decide +kernel)

theorem open_circuit_reachable_alone : AlwaysListed onlyLander landerRefused lander := by
  have hreach : (proxy onlyLander (fun _ => true)).Reachable landerRefused :=
    ⟨_, refusedLanding, Sys.start_init _ _, (Option.some_get _).symm⟩
  have hopen : ∃ e ∈ landerRefused.monitor.entries,
      e.name = "lander" ∧ e.health.inner.circuit = .opened := by decide +kernel
  have hnone : ∀ snap ∈ landerRefused.snapshots onlyLander, snap.isAvailable = false := by
    decide +kernel
  obtain ⟨e, he, hn, ho⟩ := hopen
  have hp : onlyLander.provider e.name = some lander := by rw [hn]; rfl
  have hiff := open_circuit_reachable_iff onlyLander (fun _ => true) rfl landerRefused hreach e he
    ho lander hp
  refine (hiff.mpr (Or.inr fun method _ => ?_)).resolve_left (by decide)
  exact availableFor_eq_nil.mpr (fun snap hs _ => hnone snap hs)

def landerAndNode : Config where
  providers := [lander, { name := "node", url := "http://node" }]

def landerStranded : Sys :=
  ((proxy landerAndNode (fun _ => true)).run (Sys.start landerAndNode) refusedLanding).get
    (by decide +kernel)

/-- The circuit of the landing service has been open for the whole cooldown, and no request
is ever routed to it again while the node is available. -/
theorem open_lander_unreachable :
    landerAndNode.validate = .ok () ∧
      (proxy landerAndNode (fun _ => true)).Reachable landerStranded ∧
      (∃ e ∈ landerStranded.monitor.entries, e.name = lander.name ∧
        e.health.inner.circuit = .opened ∧ ∃ opened, e.health.inner.circuitOpenedAt = some opened ∧
          fromSecs landerAndNode.health.circuitCooldownSecs ≤ landerStranded.now - opened) ∧
      landerAndNode.provider lander.name = some lander ∧
      ¬ (Probed landerAndNode (fun _ => true) lander.name ∨
        AlwaysListed landerAndNode landerStranded lander) := by
  refine ⟨rfl, ⟨_, refusedLanding, Sys.start_init _ _, (Option.some_get _).symm⟩, ?_, rfl, ?_⟩
  · have hopen : ∃ e ∈ landerStranded.monitor.entries, e.name = lander.name ∧
        e.health.inner.circuit = .opened ∧ e.health.inner.circuitOpenedAt = some 0 := by
      decide +kernel
    obtain ⟨e, he, hn, ho, ht⟩ := hopen
    exact ⟨e, he, hn, ho, 0, ht, by decide +kernel⟩
  · rintro (hp | hl)
    · exact absurd hp (by decide)
    · have hlisted := hl "sendTransaction" rfl 0
      revert hlisted
      decide +kernel

end RpcPlane
