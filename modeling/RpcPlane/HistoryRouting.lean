import RpcPlane.Handle
import RpcPlane.SequentialMiss

/-! Full-history methods: which of their calls stay off recent providers, and when a
validated configuration has a provider for them. -/

namespace RpcPlane

variable {config : Config} {world : World} {body : Body}

def NeverReachesRecent (config : Config) (world : World) (body : Body) : Prop :=
  ∀ name ∈ (handleRpc config world body).forwards, ∀ p, config.provider name = some p →
    p.history ≠ .recent

def World.Monitors (world : World) (config : Config) : Prop :=
  (world.snapshots.map (·.name)).Perm (config.providers.map (·.name))

/-- No recent provider takes requests whose method could not be read. -/
def RecentRefuseUnknown (config : Config) : Prop :=
  ∀ p, config.provider p.name = some p → p.history = .recent → p.supports "unknown" = false

theorem routeSupports_of_provider {name method : String} {fullHistory : Bool}
    {p : ProviderConfig} (hp : config.provider name = some p) :
    routeSupports config.providers method fullHistory name =
      (p.supports method && !(fullHistory && p.history == .recent)) := by
  have hf : config.providers.find? (·.name == name) = some p := hp
  simp [routeSupports, hf]

theorem handleRpc_supported {name : String} {p : ProviderConfig}
    (h : name ∈ (handleRpc config world body).forwards) (hp : config.provider name = some p) :
    p.supports (requestClass config body).method = true ∧
      ((requestClass config body).fullHistory = true → p.history ≠ .recent) := by
  have hr := (supports_of_mem_route _ _ _ _ _ _ _ _ (handleRpc_forwards h)).2
  rw [routeSupports_of_provider hp, Bool.and_eq_true] at hr
  refine ⟨hr.1, fun hf hh => ?_⟩
  simp [hf, hh] at hr

theorem neverReachesRecent_of (hl : CallsListed body config.routing.fullHistoryMethods)
    (h : Readable body ∨ RecentRefuseUnknown config) : NeverReachesRecent config world body := by
  intro name hn p hp hrecent
  obtain ⟨hs, hfull⟩ := handleRpc_supported hn hp
  by_cases hr : Readable body
  · obtain ⟨cls, hc, hf⟩ := classifyRequest_listed hl hr
    exact hfull (by simp [requestClass, hc, hf]) hrecent
  · have hcls : requestClass config body = .unknown := by
      simp [requestClass, classifyRequest_unreadable hl hr]
    rw [hcls] at hs
    obtain ⟨hm, hname⟩ := Config.provider_some hp
    have hrefuse := h.resolve_left hr p (by rw [hname]; exact hp) hrecent
    exact absurd (hs.symm.trans hrefuse) (by decide)

def onlyClosed (config : Config) (name : String) : World where
  snapshots := config.providers.map (fun p =>
    { name := p.name, score := 1, circuit := if p.name = name then .closed else .opened })
  env := ⟨fun _ => true, fun _ => true, fun _ => ⟨.error "connection refused", 1⟩⟩

theorem onlyClosed_monitors (config : Config) (name : String) :
    (onlyClosed config name).Monitors config := by
  simp [World.Monitors, onlyClosed, Function.comp_def]

theorem onlyClosed_available {p : ProviderConfig} (hp : config.provider p.name = some p)
    (hs : p.supports "unknown" = true) {name : String} :
    name ∈ (availableFor "unknown" (onlyClosed config p.name).snapshots config.providers
      false).map (·.name) ↔ name = p.name := by
  simp only [availableFor, List.mem_map, List.mem_filter, onlyClosed, Bool.and_eq_true]
  constructor
  · rintro ⟨s, ⟨⟨q, -, rfl⟩, ha, -⟩, rfl⟩
    by_contra hne
    simp [HealthSnapshot.isAvailable, hne] at ha
  · rintro rfl
    refine ⟨_, ⟨⟨p, (Config.provider_some hp).1, rfl⟩, ?_, ?_⟩, rfl⟩
    · simp [HealthSnapshot.isAvailable]
    · simp [routeSupports_of_provider hp, hs]

theorem reachesRecent_of (hl : CallsListed body config.routing.fullHistoryMethods)
    (hr : ¬ Readable body) {p : ProviderConfig} (hp : config.provider p.name = some p)
    (hrecent : p.history = .recent) (hs : p.supports "unknown" = true) :
    ¬ NeverReachesRecent config (onlyClosed config p.name) body := by
  have hcls : requestClass config body = .unknown := by
    simp [requestClass, classifyRequest_unreadable hl hr]
  have hne : availableFor "unknown" (onlyClosed config p.name).snapshots config.providers
      false ≠ [] := by
    intro hnil
    have hm := (onlyClosed_available hp hs).mpr rfl
    rw [hnil] at hm
    exact List.not_mem_nil hm
  have hmem : ∀ name, name ∈ ((onlyClosed config p.name).decision config
      (requestClass config body)).providers ↔ name = p.name := by
    intro name
    rw [hcls]
    exact (mem_route_available _ _ _ _ _ _ _ _ hne).trans (onlyClosed_available hp hs)
  have hsent : p.name ∈ (handleRpc config (onlyClosed config p.name) body).forwards :=
    handleRpc_sole (List.ne_nil_of_mem ((hmem _).mpr rfl)) (fun n hn => (hmem n).mp hn) hp rfl rfl
  exact fun h => h p.name hsent p hp hrecent

/-- A body with a listed call stays off recent providers, whatever their health, exactly
when it is readable or they refuse what is not. -/
theorem recent_never_reached_iff (config : Config) (body : Body)
    (hl : CallsListed body config.routing.fullHistoryMethods) :
    ((∀ world, NeverReachesRecent config world body) ↔
      Readable body ∨ RecentRefuseUnknown config) ∧
    ((∀ world : World, world.Monitors config → NeverReachesRecent config world body) ↔
      Readable body ∨ RecentRefuseUnknown config) := by
  have hbad : (∀ world : World, world.Monitors config → NeverReachesRecent config world body) →
      Readable body ∨ RecentRefuseUnknown config := by
    intro h
    by_contra hn
    simp only [not_or, RecentRefuseUnknown, not_forall, Bool.not_eq_false] at hn
    obtain ⟨hr, p, hp, hrecent, hs⟩ := hn
    exact reachesRecent_of hl hr hp hrecent hs (h _ (onlyClosed_monitors config p.name))
  exact ⟨⟨fun h => hbad (fun world _ => h world), fun h world => neverReachesRecent_of hl h⟩,
    ⟨hbad, fun h world _ => neverReachesRecent_of hl h⟩⟩

def signaturesCall : Json :=
  .obj [(⟨"method", false⟩, .str ⟨"getSignaturesForAddress", false⟩)]

def signaturesBatch : Body :=
  .array (utf8Bytes "\x7b\"method\":\"getSignaturesForAddress\"\x7d]") [signaturesCall]

def allClosed : World where
  snapshots := [{ name := "shallow", score := 1 }, { name := "archive", score := 1 / 2 }]
  env := ⟨fun _ => true, fun _ => true, fun _ => ⟨.error "connection refused", 1⟩⟩

theorem recent_never_reached_signatures :
    NeverReachesRecent shallowAndArchive allClosed signaturesBatch :=
  (recent_never_reached_iff shallowAndArchive signaturesBatch
    ⟨_, rfl, signaturesCall, List.mem_singleton_self _, "getSignaturesForAddress",
      List.mem_singleton_self _, _, rfl, _, List.mem_singleton_self _, rfl, _, rfl, rfl⟩).1.mpr
    (Or.inl ⟨_, rfl, by rintro call hc; obtain rfl := List.mem_singleton.mp hc; rfl⟩) allClosed

/-- A sibling that is no object makes the proxy forget the listed call beside it. -/
def malformedBatch : Body :=
  .array (utf8Bytes "\x7b\"method\":\"getSignaturesForAddress\"\x7d,5]")
    [signaturesCall, .num (.integer 5)]

theorem malformed_batch_reaches_recent :
    shallowAndArchive.validate = .ok () ∧
      CallsListed malformedBatch shallowAndArchive.routing.fullHistoryMethods ∧
      allClosed.Monitors shallowAndArchive ∧
      ¬ NeverReachesRecent shallowAndArchive allClosed malformedBatch := by
  have hf : (handleRpc shallowAndArchive allClosed malformedBatch).forwards =
      ["shallow", "archive"] := by decide +kernel
  refine ⟨rfl, ?_, .refl _, ?_⟩
  · exact ⟨_, rfl, signaturesCall, by simp [Json.calls], "getSignaturesForAddress", by decide,
      _, rfl, _, List.mem_singleton_self _, rfl, _, rfl, rfl⟩
  · intro h
    exact h "shallow" (by rw [hf]; simp) _ rfl rfl

/-- When a full-history request has somewhere to go. -/
theorem full_history_routable_iff (config : Config) (hv : config.validate = .ok ())
    (method : String) (snapshots : List HealthSnapshot)
    (hs : (snapshots.map (·.name)).Perm (config.providers.map (·.name))) (random : ℚ) :
    (route method snapshots config.routing.strategy config.providers
        config.routing.broadcastWrites config.routing.writeMethods true random).providers ≠ [] ↔
      ∃ p ∈ config.providers, p.history = .full ∧ p.supports method = true := by
  have hnd := Config.validate_names hv
  have hone : ∀ p ∈ config.providers, routeSupports config.providers method true p.name = true ↔
      p.history = .full ∧ p.supports method = true := by
    intro p hp
    rw [routeSupports_of_provider (Config.provider_of_mem hnd hp)]
    cases hh : p.history <;> simp
  rw [ne_eq, route_providers_eq_nil]
  simp only [not_forall, Bool.not_eq_false]
  constructor
  · rintro ⟨s, hsm, hr⟩
    obtain ⟨p, hp, hn⟩ := List.mem_map.mp (hs.mem_iff.mp (List.mem_map_of_mem hsm))
    rw [← hn] at hr
    exact ⟨p, hp, (hone p hp).mp hr⟩
  · rintro ⟨p, hp, hfull⟩
    obtain ⟨s, hsm, hn⟩ := List.mem_map.mp (hs.mem_iff.mpr (List.mem_map_of_mem hp))
    exact ⟨s, hsm, by rw [hn]; exact (hone p hp).mpr hfull⟩

def writeOnlyArchive : Config where
  providers := [{ name := "shallow", url := "http://shallow", history := .recent },
    { name := "archive", url := "http://archive", methods := some ["sendTransaction"] }]

theorem validated_pool_without_route :
    writeOnlyArchive.validate = .ok () ∧
      "getSignaturesForAddress" ∈ writeOnlyArchive.routing.fullHistoryMethods ∧
      (allClosed.snapshots.map (·.name)).Perm (writeOnlyArchive.providers.map (·.name)) ∧
      (route "getSignaturesForAddress" allClosed.snapshots writeOnlyArchive.routing.strategy
        writeOnlyArchive.providers writeOnlyArchive.routing.broadcastWrites
        writeOnlyArchive.routing.writeMethods true 0).providers = [] :=
  ⟨rfl, by decide, .refl _, by decide +kernel⟩

theorem full_history_routable_archive :
    (route "getSignaturesForAddress" allClosed.snapshots shallowAndArchive.routing.strategy
      shallowAndArchive.providers shallowAndArchive.routing.broadcastWrites
      shallowAndArchive.routing.writeMethods true 0).providers ≠ [] :=
  (full_history_routable_iff shallowAndArchive rfl "getSignaturesForAddress" allClosed.snapshots
    (.refl _) 0).mpr ⟨_, List.mem_cons_of_mem _ (List.mem_singleton_self _), rfl, rfl⟩

end RpcPlane
