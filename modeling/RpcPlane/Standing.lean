import RpcPlane.ProbeLoops

/-! What the proxy holds under one name, and what a reload does to it. The passes of a reload
go through providers with distinct names, so at one name each pass is one operation. -/

namespace RpcPlane

section monitor

variable (m : Monitor) (name k : String)

theorem Monitor.entry_removeProvider :
    (m.removeProvider name).entry k = if name = k then none else m.entry k :=
  find?_key_filter_ne ProviderEntry.name m.entries name k

theorem Monitor.entry_addProvider (p : ProviderConfig) (now : Instant) :
    (m.addProvider p now).entry k =
      if p.name = k then some (ProviderEntry.new p now) else m.entry k := by
  have hrest := find?_key_filter_ne ProviderEntry.name m.entries p.name k
  have hname : (ProviderEntry.new p now).name = p.name := rfl
  simp only [Monitor.entry, Monitor.addProvider, List.find?_append, hrest, List.find?_cons, hname]
  by_cases hk : p.name = k
  · simp [hk]
  · simp [hk, beq_false_of_ne hk]

theorem Monitor.entry_update {f : ProviderEntry → ProviderEntry} (hf : ∀ e, (f e).name = e.name) :
    (m.update name f).entry k = if name = k then (m.entry k).map f else m.entry k :=
  find?_updateKey hf name k m.entries

end monitor

theorem ProviderEntry.applyRateLimit_health (maxRps : Option Nat) (now : Instant)
    (e : ProviderEntry) : (e.applyRateLimit maxRps now).health = e.health := by
  unfold ProviderEntry.applyRateLimit
  split <;> rfl

structure Standing where
  client : Option Client
  entry : Option ProviderEntry
  /-- whether the entry has a stop flag -/
  flagged : Bool
  probed : List ProviderConfig

def ProxyState.standing (s : ProxyState) (name : String) : Standing where
  client := s.clients.lookup name
  entry := s.monitor.entry name
  flagged := (s.probes.entries.lookup name).isSome
  probed := s.probes.probing name

def Standing.absent : Standing := ⟨none, none, false, []⟩

def Standing.built (p : ProviderConfig) (pool : Nat) (now : Instant) : Standing :=
  ⟨some (buildClient p pool), some (.new p now), true, probedOf p⟩

/-- What the pass over the rate caps does at the name of `p`. -/
def Standing.recapped (old : Option ProviderConfig) (p : ProviderConfig) (now : Instant)
    (v : Standing) : Standing :=
  if old.bind (·.maxRps) != p.maxRps then
    { v with entry := v.entry.map (.applyRateLimit p.maxRps now) }
  else v

variable {s : ProxyState} {p : ProviderConfig}

theorem ProxyState.standing_removeProvider (h : s.probes.Tracked) (name k : String) :
    (s.removeProvider name).standing k = if name = k then .absent else s.standing k := by
  rw [standing, removeProvider, lookup_erase_key, s.monitor.entry_removeProvider,
    s.probes.entries_removeProvider, h.probing_removeProvider]
  by_cases hk : name = k
  · simp [hk, Standing.absent]
  · simp [hk, standing]

theorem ProxyState.standing_addProvider (h : s.probes.Tracked)
    (hp : s.probes.entries.lookup p.name = none) (pool : Nat) (now : Instant) (k : String) :
    (s.addProvider p pool now).standing k =
      if p.name = k then .built p pool now else s.standing k := by
  rw [standing, addProvider, lookup_insert_key, s.monitor.entry_addProvider,
    s.probes.entries_addProvider, h.probing_addProvider hp]
  by_cases hk : p.name = k
  · simp [hk, Standing.built]
  · simp [hk, standing]

section passes

variable {old new : Config} {now : String → Instant} {k : String}

/-- What the pass over the old providers does at the name of `o`. -/
def Standing.dropped (new : Config) (o : ProviderConfig) (v : Standing) : Standing :=
  if (new.provider o.name).isSome then v else .absent

/-- What the pass that adds and rebuilds does at the name of `p`. -/
def Standing.rebuilt (old new : Config) (now : String → Instant) (p : ProviderConfig)
    (v : Standing) : Standing :=
  if (clientRebuildReason (old.provider p.name) p (old.pool != new.pool)).isSome then
    .built p new.pool (now p.name)
  else v

/-- What the pass that adds and rebuilds needs: no entry has the name of a provider that is
still to be added. -/
def ProxyState.Awaits (old : Config) (l : List ProviderConfig) (s : ProxyState) : Prop :=
  s.probes.Tracked ∧ (l.map (·.name)).Nodup ∧
    ∀ p ∈ l, old.provider p.name = none → s.probes.entries.lookup p.name = none

theorem ProxyState.standing_dropRemoved (h : s.probes.Tracked) (o : ProviderConfig) :
    (s.dropRemoved new o).standing k =
      if o.name = k then (s.standing k).dropped new o else s.standing k := by
  by_cases hn : (new.provider o.name).isSome = true
  · simp [dropRemoved, Standing.dropped, hn]
  · simp only [dropRemoved, Standing.dropped, if_neg hn, s.standing_removeProvider h]

theorem ProxyState.tracked_dropRemoved (h : s.probes.Tracked) (o : ProviderConfig) :
    (s.dropRemoved new o).probes.Tracked := by
  by_cases hn : (new.provider o.name).isSome = true
  · simpa only [dropRemoved, if_pos hn] using h
  · have hs : s.dropRemoved new o = s.removeProvider o.name := if_neg hn
    rw [hs]
    exact h.removeProvider o.name

theorem ProxyState.Awaits.cleared {l : List ProviderConfig} (h : s.Awaits old (p :: l)) :
    let t := if (old.provider p.name).isSome then s.removeProvider p.name else s
    t.probes.Tracked ∧ t.probes.entries.lookup p.name = none ∧
      ∀ n ≠ p.name, t.standing n = s.standing n := by
  intro t
  by_cases ho : (old.provider p.name).isSome = true
  · have hs : t = s.removeProvider p.name := if_pos ho
    rw [hs]
    refine ⟨h.1.removeProvider p.name, ?_, ?_⟩
    · exact (s.probes.entries_removeProvider p.name p.name).trans (if_pos rfl)
    · intro n hn
      rw [s.standing_removeProvider h.1, if_neg (Ne.symm hn)]
  · have hs : t = s := if_neg ho
    rw [hs]
    have hnone : old.provider p.name = none := by simpa using ho
    exact ⟨h.1, h.2.2 p List.mem_cons_self hnone, fun _ _ => rfl⟩

theorem ProxyState.standing_rebuild {l : List ProviderConfig} (h : s.Awaits old (p :: l)) :
    (s.rebuild old new now p).standing k =
      if p.name = k then (s.standing k).rebuilt old new now p else s.standing k := by
  cases hr : clientRebuildReason (old.provider p.name) p (old.pool != new.pool) with
  | none => simp [rebuild, Standing.rebuilt, hr]
  | some reason =>
    obtain ⟨ht, hp, hother⟩ := h.cleared
    simp only [rebuild, Standing.rebuilt, hr, Option.isSome_some, if_true]
    rw [standing_addProvider ht hp]
    by_cases hk : p.name = k
    · rw [if_pos hk, if_pos hk]
    · rw [if_neg hk, if_neg hk, hother k (Ne.symm hk)]

theorem ProxyState.awaits_rebuild {l : List ProviderConfig} (h : s.Awaits old (p :: l)) :
    (s.rebuild old new now p).Awaits old l := by
  have hnd : p.name ∉ l.map (·.name) ∧ (l.map (·.name)).Nodup := List.nodup_cons.mp h.2.1
  cases hr : clientRebuildReason (old.provider p.name) p (old.pool != new.pool) with
  | none =>
    simp only [rebuild, hr]
    exact ⟨h.1, hnd.2, fun q hq => h.2.2 q (List.mem_cons_of_mem _ hq)⟩
  | some reason =>
    obtain ⟨ht, hp, hother⟩ := h.cleared
    simp only [rebuild, hr]
    refine ⟨ht.addProvider hp, hnd.2, ?_⟩
    intro q hq hold
    have hne : p.name ≠ q.name := fun he => hnd.1 (List.mem_map.mpr ⟨q, hq, he.symm⟩)
    have hflag := congrArg Standing.flagged (hother q.name (Ne.symm hne))
    have hs : s.probes.entries.lookup q.name = none :=
      h.2.2 q (List.mem_cons_of_mem _ hq) hold
    refine (ProbeLoops.entries_addProvider _ p q.name).trans ((if_neg hne).trans ?_)
    simpa [standing, hs] using hflag

theorem ProxyState.standing_recap :
    (s.recap old now p).standing k =
      if p.name = k then (s.standing k).recapped (old.provider p.name) p (now p.name)
      else s.standing k := by
  have hentry := s.monitor.entry_update p.name k
    (f := .applyRateLimit p.maxRps (now p.name))
    (fun e => congrArg ProviderHealth.name (e.applyRateLimit_health p.maxRps (now p.name)))
  by_cases hc : ((old.provider p.name).bind (·.maxRps) != p.maxRps) = true
  · have hs : s.recap old now p =
        { s with monitor := s.monitor.applyRateLimit p.name p.maxRps (now p.name) } := if_pos hc
    rw [hs, Standing.recapped, if_pos hc]
    by_cases hk : p.name = k
    · rw [if_pos hk] at hentry ⊢
      simp only [standing, Monitor.applyRateLimit, hentry]
    · rw [if_neg hk] at hentry ⊢
      simp only [standing, Monitor.applyRateLimit, hentry]
  · have hs : s.recap old now p = s := if_neg hc
    rw [hs, Standing.recapped, if_neg hc, ite_self]

theorem ProxyState.tracked_recap (h : s.probes.Tracked) : (s.recap old now p).probes.Tracked := by
  unfold recap
  split <;> exact h

end passes

/-- What a reload does at one name, from what the two configurations say about it. -/
def Standing.reloaded (old new : Config) (builtAt cappedAt : String → Instant) (name : String)
    (v : Standing) : Standing :=
  match new.provider name with
  | none => if (old.provider name).isSome then .absent else v
  | some p => (v.rebuilt old new builtAt p).recapped (old.provider name) p (cappedAt name)

structure ProxyState.Ready (s : ProxyState) : Prop where
  names : (s.config.providers.map (·.name)).Nodup
  tracked : s.probes.Tracked
  known : ∀ n, s.config.provider n = none → s.probes.entries.lookup n = none

theorem Config.find?_order {config : Config} (h : (config.providers.map (·.name)).Nodup)
    (o : MapOrder ProviderConfig) (k : String) :
    (o.order config.providers).find? (·.name == k) = config.provider k :=
  find?_key_perm (o.perm config.providers) h k

theorem MapOrder.names_nodup {config : Config} (h : (config.providers.map (·.name)).Nodup)
    (o : MapOrder ProviderConfig) : ((o.order config.providers).map (·.name)).Nodup :=
  (((o.perm config.providers).map _).nodup_iff).mpr h

theorem ProxyState.reload_config {r : Reload} (hv : r.config.validate = .ok ()) :
    (s.reload r).config = r.config := by
  simp only [reload, hv]

section folds

variable {old new : Config} {now : String → Instant} {o : MapOrder ProviderConfig}

theorem ProxyState.standing_drops (h : s.probes.Tracked)
    (hnd : (old.providers.map (·.name)).Nodup) (k : String) :
    ((o.order old.providers).foldl (.dropRemoved new) s).standing k =
      ((old.provider k).map (Standing.dropped new)).getD id (s.standing k) := by
  rw [← Config.find?_order hnd o k]
  exact view_foldl (I := fun _ (t : ProxyState) => t.probes.Tracked)
    (fun a _ t ht => t.tracked_dropRemoved ht a) (fun a _ t _ ht => t.standing_dropRemoved ht a)
    (o.names_nodup hnd) h k

theorem ProxyState.tracked_drops (h : s.probes.Tracked) :
    ((o.order old.providers).foldl (.dropRemoved new) s).probes.Tracked :=
  keep_foldl (I := fun _ (t : ProxyState) => t.probes.Tracked)
    (fun a _ t ht => t.tracked_dropRemoved ht a) h

theorem ProxyState.standing_rebuilds (hnd : (new.providers.map (·.name)).Nodup)
    (h : s.Awaits old (o.order new.providers)) (k : String) :
    ((o.order new.providers).foldl (.rebuild old new now) s).standing k =
      ((new.provider k).map (Standing.rebuilt old new now)).getD id (s.standing k) := by
  rw [← Config.find?_order hnd o k]
  exact view_foldl (I := fun l (t : ProxyState) => t.Awaits old l)
    (fun _ _ t ht => t.awaits_rebuild ht) (fun _ _ t _ ht => t.standing_rebuild ht)
    (o.names_nodup hnd) h k

theorem ProxyState.tracked_rebuilds (h : s.Awaits old (o.order new.providers)) :
    ((o.order new.providers).foldl (.rebuild old new now) s).probes.Tracked :=
  (keep_foldl (I := fun l (t : ProxyState) => t.Awaits old l)
    (fun _ _ t ht => t.awaits_rebuild ht) h).1

theorem ProxyState.standing_recaps (hnd : (new.providers.map (·.name)).Nodup) (k : String) :
    ((o.order new.providers).foldl (.recap old now) s).standing k =
      ((new.provider k).map (fun p => Standing.recapped (old.provider p.name) p
        (now p.name))).getD id (s.standing k) := by
  rw [← Config.find?_order hnd o k]
  exact view_foldl (I := fun _ _ => True) (fun _ _ _ _ => trivial)
    (fun _ _ t _ _ => t.standing_recap) (o.names_nodup hnd) trivial k

theorem ProxyState.tracked_recaps (h : s.probes.Tracked) :
    ((o.order new.providers).foldl (.recap old now) s).probes.Tracked :=
  keep_foldl (I := fun _ (t : ProxyState) => t.probes.Tracked) (fun _ _ t ht => t.tracked_recap ht) h

end folds

theorem Standing.reloaded_eq (old new : Config) (builtAt cappedAt : String → Instant) (k : String)
    (v : Standing) : v.reloaded old new builtAt cappedAt k =
      ((new.provider k).map (fun p => Standing.recapped (old.provider p.name) p
        (cappedAt p.name))).getD id (((new.provider k).map
          (Standing.rebuilt old new builtAt)).getD id
            (((old.provider k).map (Standing.dropped new)).getD id v)) := by
  have hdrop : ((old.provider k).map (Standing.dropped new)).getD id v =
      if (old.provider k).isSome ∧ new.provider k = none then .absent else v := by
    cases ho : old.provider k with
    | none => simp
    | some o =>
      have hname : o.name = k := (Config.provider_some ho).2
      cases hn : new.provider k <;> simp [Standing.dropped, hname, hn]
  rw [hdrop]
  cases hn : new.provider k with
  | none => simp [Standing.reloaded, hn]
  | some p =>
    have hname : p.name = k := (Config.provider_some hn).2
    simp [Standing.reloaded, hn, hname]

/-- Each pass does at a name what it does for the provider of that name. -/
theorem ProxyState.Ready.reload (h : s.Ready) {r : Reload} (hv : r.config.validate = .ok ()) :
    (s.reload r).probes.Tracked ∧ ∀ k, (s.reload r).standing k =
      (s.standing k).reloaded s.config r.config r.builtAt r.cappedAt k := by
  have hnew : (r.config.providers.map (·.name)).Nodup := Config.validate_names hv
  let news := r.newOrder.order r.config.providers
  let s₁ := (r.oldOrder.order s.config.providers).foldl (.dropRemoved r.config) s
  let s₂ := news.foldl (.rebuild s.config r.config r.builtAt) s₁
  let s₃ := news.foldl (.recap s.config r.cappedAt) s₂
  have hs : s.reload r = { s₃ with config := r.config } := by
    simp only [ProxyState.reload, hv]
    rfl
  have hdrop : ∀ k, s₁.standing k =
      ((s.config.provider k).map (Standing.dropped r.config)).getD id (s.standing k) :=
    s.standing_drops h.tracked h.names
  have hawaits : s₁.Awaits s.config news := by
    refine ⟨s.tracked_drops h.tracked, r.newOrder.names_nodup hnew, ?_⟩
    intro p _ hp
    have hflag := congrArg Standing.flagged (hdrop p.name)
    rw [hp] at hflag
    simpa [standing, h.known p.name hp] using hflag
  rw [hs]
  refine ⟨s₂.tracked_recaps (s₁.tracked_rebuilds hawaits), ?_⟩
  intro k
  calc s₃.standing k
    _ = _ := s₂.standing_recaps hnew k
    _ = _ := by rw [s₁.standing_rebuilds hnew hawaits k, hdrop k]
    _ = _ := (Standing.reloaded_eq ..).symm

theorem buildClients_lookup {providers : List ProviderConfig}
    (hnd : (providers.map (·.name)).Nodup) (pool : Nat) (k : String) :
    (buildClients providers pool).lookup k =
      (providers.find? (·.name == k)).map (buildClient · pool) := by
  have hview := view_foldl (I := fun _ _ => True) (V := fun (m : Clients) k => m.lookup k)
    (g := fun (m : Clients) p => m.insert p.name (buildClient p pool))
    (f := fun p _ => some (buildClient p pool)) (fun _ _ _ _ => trivial) ?_ hnd
    (s := ∅) trivial k
  · refine hview.trans ?_
    cases providers.find? (·.name == k) <;> rfl
  · intro p _ m k _
    exact lookup_insert_key m p.name k (buildClient p pool)

theorem ProxyState.standing_new {config : Config} (hnd : (config.providers.map (·.name)).Nodup)
    (now : Instant) :
    (newWithReporter config now).probes.Tracked ∧ ∀ k, (newWithReporter config now).standing k =
      ((config.provider k).map (Standing.built · config.pool now)).getD .absent := by
  obtain ⟨htracked, hloops, hflags⟩ := ProbeLoops.new_tracked hnd
  have hclient := buildClients_lookup hnd config.pool
  have hmem : ∀ p ∈ config.providers, config.providers.find? (·.name == p.name) = some p :=
    fun p hp => find?_key_of_mem hnd hp
  obtain ⟨hstarted, hentries, hprobing⟩ := htracked.start
    (buildClients config.providers config.pool) hnd
    (fun p hp => by rw [hclient, hmem p hp]; rfl) (fun p hp => by rw [hflags, hmem p hp]; rfl)
  refine ⟨hstarted, ?_⟩
  intro k
  have hnone : (ProbeLoops.new config.providers).probing k = [] := by
    simp [ProbeLoops.probing, ProbeLoops.running, hloops]
  have hp := hprobing k
  have hc := hclient k
  have hf := hflags k
  have he : (Monitor.new config.providers now).entry k =
      (config.providers.find? (·.name == k)).map (ProviderEntry.new · now) := List.find?_map ..
  rw [hnone] at hp
  rw [← hentries] at hf
  rw [standing, newWithReporter, hp, hc, hf, he, Config.provider]
  cases config.providers.find? (·.name == k) <;> rfl

end RpcPlane
