import RpcPlane.Standing

/-! After every reload the proxy holds a client, an entry and a rate limiter for exactly what
the new configuration says, and a provider whose client is kept keeps its health. -/

namespace RpcPlane

/-- The limiter of a provider with this cap. -/
def Capped : Option Nat → Option TokenBucket → Prop
  | none, none => True
  | some r, some b => b.rate = r ∧ b.capacity = r ∧ 0 ≤ b.tokens ∧ b.tokens ≤ r
  | _, _ => False

structure ProxyState.Follows (s : ProxyState) : Prop where
  clients : s.clients.keys.Perm (s.config.providers.map (·.name))
  entries : s.monitor.names.Perm (s.config.providers.map (·.name))
  limiter : ∀ p ∈ s.config.providers,
    ∃ e, s.monitor.entry p.name = some e ∧ Capped p.maxRps e.limiter
  client : ∀ p ∈ s.config.providers, s.clients.lookup p.name = some (buildClient p s.config.pool)

/-- The rate and the capacity of an entry's bucket. -/
def ProviderEntry.caps (e : ProviderEntry) : Option (ℚ × ℚ) :=
  e.limiter.map (fun b => (b.rate, b.capacity))

def ProviderConfig.caps (p : ProviderConfig) : Option (ℚ × ℚ) :=
  p.maxRps.map (fun r => (↑r, ↑r))

section limiters

variable (now : Instant)

theorem TokenBucket.refill_caps (b : TokenBucket) :
    (b.refill now).rate = b.rate ∧ (b.refill now).capacity = b.capacity := by
  unfold TokenBucket.refill
  split <;> exact ⟨rfl, rfl⟩

theorem TokenBucket.tryAcquire_caps (b : TokenBucket) :
    (b.tryAcquire now).2.rate = b.rate ∧ (b.tryAcquire now).2.capacity = b.capacity := by
  unfold TokenBucket.tryAcquire
  by_cases h : 1 ≤ (b.refill now).tokens
  · simpa only [dif_pos h] using b.refill_caps now
  · simpa only [dif_neg h] using b.refill_caps now

theorem ProviderEntry.applyRateLimit_caps (p : ProviderConfig) (e : ProviderEntry) :
    (e.applyRateLimit p.maxRps now).caps = p.caps := by
  unfold ProviderEntry.applyRateLimit ProviderConfig.caps
  split
  · rename_i rps limiter hm hl
    rw [hm]
    rfl
  · rename_i rps hm hl
    rw [hm]
    rfl
  · rename_i limiter hm hl
    rw [hm]
    rfl
  · rename_i hm hl
    rw [hm, ProviderEntry.caps, hl]
    rfl

theorem ProviderEntry.new_caps (p : ProviderConfig) : (ProviderEntry.new p now).caps = p.caps := by
  cases h : p.maxRps <;> simp [ProviderEntry.new, ProviderEntry.caps, ProviderConfig.caps, h,
    TokenBucket.new]

theorem ProviderEntry.peeked_caps (e : ProviderEntry) : (e.peeked now).caps = e.caps := by
  cases h : e.limiter with
  | none => simp [ProviderEntry.peeked, ProviderEntry.caps, h]
  | some b =>
    obtain ⟨hrate, hcapacity⟩ := b.refill_caps now
    simp only [ProviderEntry.peeked, ProviderEntry.caps, h, Option.map_some,
      TokenBucket.hasCapacity, hrate, hcapacity]

/-- A bucket keeps its tokens between zero and its capacity, so its capacity is what counts. -/
theorem capped_of_caps {p : ProviderConfig} {e : ProviderEntry} (h : e.caps = p.caps) :
    Capped p.maxRps e.limiter := by
  unfold ProviderEntry.caps ProviderConfig.caps at h
  cases hm : p.maxRps with
  | none =>
    cases hl : e.limiter with
    | none => trivial
    | some b => rw [hm, hl] at h; cases h
  | some r =>
    cases hl : e.limiter with
    | none => rw [hm, hl] at h; cases h
    | some b =>
      rw [hm, hl] at h
      obtain ⟨hrate, hcap⟩ := Prod.mk.inj (Option.some.inj h)
      exact ⟨hrate, hcap, b.tokens_nonneg, hcap ▸ b.tokens_le⟩

end limiters

section traffic

variable (m : Monitor) (name k : String) (now : Instant) (cfg : HealthConfig)

def Monitor.caps (m : Monitor) (name : String) : Option (Option (ℚ × ℚ)) :=
  (m.entry name).map (·.caps)

theorem Monitor.update_caps {f : ProviderEntry → ProviderEntry} (hf : ∀ e, (f e).name = e.name)
    (hc : ∀ e, (f e).caps = e.caps) : (m.update name f).caps k = m.caps k := by
  rw [Monitor.caps, m.entry_update name k hf]
  by_cases hk : name = k
  · rw [if_pos hk, Option.map_map]
    exact congrArg (fun g => (m.entry k).map g) (funext hc)
  · rw [if_neg hk]
    rfl

theorem Monitor.mapInner_caps (f : Inner → Inner) :
    (m.update name (.mapInner f)).caps k = m.caps k :=
  m.update_caps name k (fun _ => rfl) (fun _ => rfl)

theorem Monitor.recordOutcome_caps (outcome : Outcome) (latencyMs : ℚ) :
    (m.recordOutcome name now outcome latencyMs cfg).caps k = m.caps k := by
  cases outcome with
  | ok => exact m.mapInner_caps name k _
  | providerError => exact m.mapInner_caps name k _
  | rateLimited => exact m.mapInner_caps name k _
  | clientError => rfl
  | miss => rfl
  | behind => rfl
  | unsupported => rfl

theorem Monitor.observeRound_caps (slots : CommitmentSlots) (round : Option Nat) :
    (m.observeRound slots round).caps k = m.caps k := by
  cases round <;> rfl

theorem Monitor.probed_caps (result : ProbeEnd) : (m.probed name now cfg result).caps k = m.caps k := by
  cases result with
  | ok res round =>
    have hslots := (m.observeRound res.slots round).update_caps name k
      (f := .updateSlotsInRound res.slots round) (fun _ => rfl) (fun _ => rfl)
    refine (Monitor.mapInner_caps _ name k _).trans ?_
    exact hslots.trans (m.observeRound_caps k res.slots round)
  | rateLimited latencyMs => exact m.mapInner_caps name k _
  | failed latencyMs => exact m.mapInner_caps name k _

theorem Monitor.snapshotsWithTips_caps : (m.snapshotsWithTips now cfg).2.2.caps k = m.caps k := by
  show ((m.entries.map (·.peeked now)).find? (·.name == k)).map (·.caps) = m.caps k
  rw [List.find?_map, Option.map_map]
  exact congrArg (fun g => (m.entry k).map g) (funext (fun e => e.peeked_caps now))

theorem Monitor.tryAcquire_caps : (m.tryAcquire name now).2.caps k = m.caps k := by
  cases hb : (m.entry name).bind (·.limiter) with
  | none => simp only [Monitor.tryAcquire, hb]
  | some bucket =>
    obtain ⟨e, he, hl⟩ := Option.bind_eq_some_iff.mp hb
    simp only [Monitor.tryAcquire, hb]
    rw [Monitor.caps, m.entry_update name k
      (f := fun e => { e with limiter := some (bucket.tryAcquire now).2 }) (fun _ => rfl)]
    by_cases hk : name = k
    · rw [if_pos hk, Monitor.caps, ← hk, he]
      have hc := bucket.tryAcquire_caps now
      simp [ProviderEntry.caps, hl, hc]
    · rw [if_neg hk]
      rfl

theorem Monitor.after_caps {e : HealthEvent} (h : e.isTraffic) : (m.after cfg e).caps k = m.caps k := by
  cases e with
  | probed name now result => exact m.probed_caps name k now cfg result
  | orphaned slots round => exact m.observeRound_caps k slots round
  | referenceProbed slots round => exact m.observeRound_caps k slots round
  | added provider now => cases h
  | removed name => cases h
  | recorded name now outcome latencyMs => exact m.recordOutcome_caps name k now cfg outcome latencyMs
  | snapshotted now => exact m.snapshotsWithTips_caps k now cfg

theorem Monitor.after_names {e : HealthEvent} (h : e.isTraffic) : (m.after cfg e).names = m.names := by
  cases e with
  | probed name now result => exact m.probed_names name now cfg result
  | orphaned slots round => exact m.observeRound_names slots round
  | referenceProbed slots round => exact m.referenceProbed_names slots round
  | added provider now => cases h
  | removed name => cases h
  | recorded name now outcome latencyMs => exact m.recordOutcome_names name now cfg outcome latencyMs
  | snapshotted now => exact m.snapshotsWithTips_names now cfg

end traffic

variable {s t : ProxyState}

/-- What a name holds, given its provider in the configuration. -/
def Standing.Fits (pool : Nat) : Option ProviderConfig → Standing → Prop
  | some p, v => v.client = some (buildClient p pool) ∧ v.entry.map (·.caps) = some p.caps ∧
    v.flagged = true
  | none, v => v.client = none ∧ v.entry = none ∧ v.flagged = false

structure ProxyState.Consistent (s : ProxyState) : Prop where
  names : (s.config.providers.map (·.name)).Nodup
  tracked : s.probes.Tracked
  entries : s.monitor.names.Nodup
  fits : ∀ k, (s.standing k).Fits s.config.pool (s.config.provider k)

theorem ProxyState.Consistent.ready (h : s.Consistent) : s.Ready where
  names := h.names
  tracked := h.tracked
  known := by
    intro n hn
    have hf := h.fits n
    rw [hn] at hf
    simpa [standing] using hf.2.2

section reload

variable {old new : Config} {builtAt cappedAt : String → Instant} {k : String} {p : ProviderConfig}
  {v : Standing}

theorem clientRebuildReason_none {old : Option ProviderConfig} {poolSizeChanged : Bool}
    (h : clientRebuildReason old p poolSizeChanged = none) :
    poolSizeChanged = false ∧ ∃ o, old = some o ∧ o.url = p.url ∧ o.http3 = p.http3 := by
  cases old with
  | none => cases h
  | some o =>
    simp only [clientRebuildReason] at h
    split at h
    · cases h
    split at h
    · cases h
    split at h
    · cases h
    · rename_i hpool hurl hhttp
      exact ⟨by simpa using hpool, o, rfl, by simpa using hurl, by simpa using hhttp⟩

/-- Capping leaves the right limiter, whatever the entry had; not capping is right only for an
entry that has it. -/
theorem Standing.Fits.recapped {pool : Nat} {old : Option ProviderConfig} {now : Instant}
    (hclient : v.client = some (buildClient p pool)) (hflag : v.flagged = true)
    (hentry : ∃ e, v.entry = some e ∧ (old.bind (·.maxRps) = p.maxRps → e.caps = p.caps)) :
    (v.recapped old p now).Fits pool (some p) := by
  obtain ⟨e, he, hsame⟩ := hentry
  by_cases hc : old.bind (·.maxRps) = p.maxRps
  · have hv : v.recapped old p now = v := if_neg (by simpa using hc)
    rw [hv]
    exact ⟨hclient, by rw [he, Option.map_some, hsame hc], hflag⟩
  · have hv : v.recapped old p now =
        { v with entry := v.entry.map (.applyRateLimit p.maxRps now) } := if_pos (by simpa using hc)
    rw [hv]
    refine ⟨hclient, ?_, hflag⟩
    rw [he]
    exact congrArg some (e.applyRateLimit_caps now p)

theorem Standing.Fits.reloaded (h : v.Fits old.pool (old.provider k)) :
    (v.reloaded old new builtAt cappedAt k).Fits new.pool (new.provider k) := by
  unfold Standing.reloaded
  cases hn : new.provider k with
  | none =>
    cases ho : old.provider k with
    | none =>
      rw [ho] at h
      exact h
    | some o => exact ⟨rfl, rfl, rfl⟩
  | some p =>
    have hname : p.name = k := (Config.provider_some hn).2
    cases hr : clientRebuildReason (old.provider p.name) p (old.pool != new.pool) with
    | some reason =>
      have hv : v.rebuilt old new builtAt p = .built p new.pool (builtAt p.name) :=
        if_pos (by rw [hr]; rfl)
      show ((v.rebuilt old new builtAt p).recapped (old.provider k) p (cappedAt k)).Fits
        new.pool (some p)
      rw [hv]
      refine Standing.Fits.recapped rfl rfl ⟨_, rfl, ?_⟩
      intro _
      exact ProviderEntry.new_caps (builtAt p.name) p
    | none =>
      obtain ⟨hpool, o, ho, hurl, hhttp⟩ := clientRebuildReason_none hr
      have hv : v.rebuilt old new builtAt p = v := if_neg (by rw [hr]; simp)
      show ((v.rebuilt old new builtAt p).recapped (old.provider k) p (cappedAt k)).Fits
        new.pool (some p)
      rw [hv]
      rw [hname] at ho
      rw [ho] at h ⊢
      obtain ⟨hclient, hentry, hflag⟩ := h
      obtain ⟨e, he, hcaps⟩ := Option.map_eq_some_iff.mp hentry
      refine Standing.Fits.recapped ?_ hflag ⟨e, he, ?_⟩
      · have hp : old.pool = new.pool := by simpa using hpool
        rw [hclient, buildClient, buildClient, hurl, hhttp, hp]
      · intro hrps
        rw [hcaps, ProviderConfig.caps, ProviderConfig.caps]
        rw [Option.bind_some] at hrps
        rw [hrps]

/-- A reload replaces the health only of an entry that it builds. -/
theorem Standing.reloaded_health (hr : clientRebuildReason (old.provider p.name) p
    (old.pool != new.pool) = none) (hp : new.provider p.name = some p) :
    (v.reloaded old new builtAt cappedAt p.name).entry.map (·.health) = v.entry.map (·.health) := by
  have hv : v.rebuilt old new builtAt p = v := if_neg (by rw [hr]; simp)
  simp only [Standing.reloaded, hp, hv, Standing.recapped]
  split
  · rw [Option.map_map]
    exact congrArg (fun g => v.entry.map g) (funext (fun e => e.applyRateLimit_health _ _))
  · rfl

end reload

theorem Monitor.nodup_removeProvider {m : Monitor} (h : m.names.Nodup) (name : String) :
    (m.removeProvider name).names.Nodup :=
  h.sublist (List.filter_sublist.map _)

theorem Monitor.nodup_addProvider {m : Monitor} (h : m.names.Nodup) (p : ProviderConfig)
    (now : Instant) : (m.addProvider p now).names.Nodup := by
  have hrest : (m.removeProvider p.name).names.Nodup := m.nodup_removeProvider h p.name
  have hnot : p.name ∉ (m.removeProvider p.name).names := by
    intro hm
    obtain ⟨e, he, hname⟩ := List.mem_map.mp hm
    have hne := (List.mem_filter.mp he).2
    simp [hname] at hne
  show ((m.removeProvider p.name).entries ++ [ProviderEntry.new p now]).map ProviderEntry.name
    |>.Nodup
  rw [List.map_append]
  refine List.nodup_append.mpr ⟨hrest, List.nodup_singleton _, ?_⟩
  intro a ha b hb he
  obtain rfl : b = p.name := by simpa [ProviderEntry.new, ProviderEntry.name] using hb
  exact hnot (he ▸ ha)

theorem ProxyState.nodup_reload (h : s.monitor.names.Nodup) (r : Reload) :
    (s.reload r).monitor.names.Nodup := by
  have hdrop : ∀ (t : ProxyState) o, t.monitor.names.Nodup →
      (t.dropRemoved r.config o).monitor.names.Nodup := by
    intro t o ht
    unfold dropRemoved
    split
    · exact ht
    · exact Monitor.nodup_removeProvider ht o.name
  have hbuild : ∀ (t : ProxyState) p, t.monitor.names.Nodup →
      (t.rebuild s.config r.config r.builtAt p).monitor.names.Nodup := by
    intro t p ht
    unfold rebuild
    split
    · exact ht
    · apply Monitor.nodup_addProvider
      split
      · exact Monitor.nodup_removeProvider ht p.name
      · exact ht
  have hcap : ∀ (t : ProxyState) p, t.monitor.names.Nodup →
      (t.recap s.config r.cappedAt p).monitor.names.Nodup := by
    intro t p ht
    unfold recap
    split
    · have hnames := t.monitor.update_names p.name
        (f := .applyRateLimit p.maxRps (r.cappedAt p.name))
        (fun e => congrArg ProviderHealth.name (e.applyRateLimit_health _ _))
      exact (congrArg List.Nodup hnames).mpr ht
    · exact ht
  unfold reload
  split
  · exact h
  · apply keep_foldl (I := fun _ (t : ProxyState) => t.monitor.names.Nodup) (fun p _ t => hcap t p)
    apply keep_foldl (I := fun _ (t : ProxyState) => t.monitor.names.Nodup) (fun p _ t => hbuild t p)
    exact keep_foldl (I := fun _ (t : ProxyState) => t.monitor.names.Nodup)
      (fun o _ t => hdrop t o) h

theorem ProxyState.Consistent.new {config : Config} (hv : config.validate = .ok ())
    (now : Instant) : (newWithReporter config now).Consistent := by
  have hnd : (config.providers.map (·.name)).Nodup := Config.validate_names hv
  obtain ⟨htracked, hstanding⟩ := ProxyState.standing_new hnd now
  have hnames : (Monitor.new config.providers now).names = config.providers.map (·.name) := by
    simp only [Monitor.names, Monitor.new, List.map_map]
    rfl
  refine ⟨hnd, htracked, ?_, ?_⟩
  · exact (congrArg List.Nodup hnames).mpr hnd
  · intro k
    rw [hstanding k]
    show (((config.provider k).map (Standing.built · config.pool now)).getD .absent).Fits
      config.pool (config.provider k)
    cases config.provider k with
    | none => exact ⟨rfl, rfl, rfl⟩
    | some p => exact ⟨rfl, congrArg some (ProviderEntry.new_caps now p), rfl⟩

theorem ProxyState.Consistent.reload (h : s.Consistent) (r : Reload) : (s.reload r).Consistent := by
  cases hv : r.config.validate with
  | error message =>
    have hs : s.reload r = s := by simp only [ProxyState.reload, hv]
    rw [hs]
    exact h
  | ok u =>
    obtain ⟨htracked, hstanding⟩ := h.ready.reload hv
    have hconfig : (s.reload r).config = r.config := s.reload_config hv
    refine ⟨?_, htracked, s.nodup_reload h.entries r, ?_⟩
    · rw [hconfig]
      exact Config.validate_names hv
    · intro k
      rw [hconfig, hstanding k]
      exact (h.fits k).reloaded

theorem ProxyState.Consistent.traffic (h : s.Consistent) {m : Monitor}
    (hnames : m.names = s.monitor.names) (hcaps : ∀ k, m.caps k = s.monitor.caps k) :
    { s with monitor := m }.Consistent where
  names := h.names
  tracked := h.tracked
  entries := (congrArg List.Nodup hnames).mpr h.entries
  fits := by
    intro k
    have hf := h.fits k
    have hc : (m.entry k).map (·.caps) = (s.monitor.entry k).map (·.caps) := hcaps k
    show Standing.Fits s.config.pool (s.config.provider k) _
    cases hp : s.config.provider k with
    | none =>
      rw [hp] at hf
      refine ⟨hf.1, ?_, hf.2.2⟩
      have hnone : s.monitor.entry k = none := hf.2.1
      rw [hnone] at hc
      exact Option.map_eq_none_iff.mp hc
    | some p =>
      rw [hp] at hf
      exact ⟨hf.1, hc.trans hf.2.1, hf.2.2⟩

theorem ProxyState.Consistent.step (h : s.Consistent) {e : ProxyEvent} (hs : s.step e = some t) :
    t.Consistent := by
  cases e with
  | health e =>
    obtain ⟨he, hu⟩ := eq_of_guard hs
    obtain rfl := Option.some.inj hu
    exact h.traffic (s.monitor.after_names s.cfg he) (fun k => s.monitor.after_caps k s.cfg he)
  | acquired name now =>
    obtain rfl := Option.some.inj hs
    exact h.traffic (s.monitor.tryAcquire_names name now)
      (fun k => s.monitor.tryAcquire_caps name k now)
  | reload r =>
    obtain rfl := Option.some.inj hs
    exact h.reload r

theorem watchConfig_consistent (h : watchConfig.Reachable s) : s.Consistent := by
  apply System.invariant_reachable (I := ProxyState.Consistent) _ _ h
  · intro s₀ hi
    obtain ⟨config, now, hv, rfl⟩ := hi
    exact .new hv now
  · intro s e t hs ht
    exact hs.step ht

theorem Config.mem_names {config : Config} {k : String} :
    k ∈ config.providers.map (·.name) ↔ (config.provider k).isSome := by
  simp [Config.provider, List.find?_isSome]

theorem Monitor.mem_names {m : Monitor} {k : String} : k ∈ m.names ↔ (m.entry k).isSome := by
  simp [Monitor.names, Monitor.entry, List.find?_isSome]

theorem ProxyState.Consistent.follows (h : s.Consistent) : s.Follows := by
  have hsame : ∀ k, (s.clients.lookup k).isSome = (s.config.provider k).isSome ∧
      (s.monitor.entry k).isSome = (s.config.provider k).isSome := by
    intro k
    have hf := h.fits k
    cases hp : s.config.provider k with
    | none =>
      rw [hp] at hf
      exact ⟨congrArg Option.isSome hf.1, congrArg Option.isSome hf.2.1⟩
    | some p =>
      rw [hp] at hf
      have hentry := congrArg Option.isSome hf.2.1
      rw [Option.isSome_map] at hentry
      exact ⟨congrArg Option.isSome hf.1, hentry⟩
  have hprovider : ∀ p ∈ s.config.providers,
      (s.standing p.name).Fits s.config.pool (some p) := by
    intro p hp
    have hf := h.fits p.name
    rwa [Config.provider_of_mem h.names hp] at hf
  refine ⟨?_, ?_, ?_, ?_⟩
  · apply (List.perm_ext_iff_of_nodup s.clients.keys_nodup h.names).mpr
    intro k
    rw [← AList.mem_keys, ← AList.lookup_isSome, Config.mem_names, (hsame k).1]
  · apply (List.perm_ext_iff_of_nodup h.entries h.names).mpr
    intro k
    rw [Monitor.mem_names, Config.mem_names, (hsame k).2]
  · intro p hp
    obtain ⟨e, he, hcaps⟩ := Option.map_eq_some_iff.mp (hprovider p hp).2.1
    exact ⟨e, he, capped_of_caps hcaps⟩
  · intro p hp
    exact (hprovider p hp).1

/-- Every reachable state, and in particular the one after each reload, holds what its
configuration says; a reload keeps the health of a provider whose client it keeps. -/
theorem hot_reload_consistent (s₀ s t : ProxyState) (events : List ProxyEvent) (r : Reload)
    (hinit : watchConfig.init s₀) (hrun : watchConfig.run s₀ events = some s)
    (hvalid : r.config.validate = .ok ()) (hstep : watchConfig.step s (.reload r) = some t) :
    s.Follows ∧ t.config = r.config ∧ t.Follows ∧
    ∀ o ∈ s.config.providers, ∀ p ∈ t.config.providers, o.name = p.name → o.url = p.url →
      o.http3 = p.http3 → s.config.pool = t.config.pool →
      (t.monitor.entry p.name).map (·.health) = (s.monitor.entry p.name).map (·.health) := by
  have h : s.Consistent := watchConfig_consistent ⟨s₀, events, hinit, hrun⟩
  obtain rfl : s.reload r = t := Option.some.inj hstep
  have hconfig : (s.reload r).config = r.config := s.reload_config hvalid
  refine ⟨h.follows, hconfig, (h.reload r).follows, ?_⟩
  intro o ho p hp hname hurl hhttp hpool
  rw [hconfig] at hp hpool
  have hold : s.config.provider p.name = some o := hname ▸ Config.provider_of_mem h.names ho
  have hnew : r.config.provider p.name = some p :=
    Config.provider_of_mem (Config.validate_names hvalid) hp
  have hreason : clientRebuildReason (s.config.provider p.name) p
      (s.config.pool != r.config.pool) = none := by
    simp [clientRebuildReason, hold, hurl, hhttp, hpool]
  have hstanding := congrArg Standing.entry ((h.ready.reload hvalid).2 p.name)
  calc ((s.reload r).monitor.entry p.name).map (·.health)
    _ = _ := congrArg (Option.map (·.health)) hstanding
    _ = (s.monitor.entry p.name).map (·.health) := Standing.reloaded_health hreason hnew

def oldFleet : Config where
  providers := [{ name := "helius", url := "https://helius", maxRps := some 50 },
    { name := "triton", url := "https://triton" }]

/-- The URL and the cap of one provider change together, one provider goes and one comes. -/
def newFleet : Config where
  providers := [{ name := "quicknode", url := "https://quicknode", maxRps := some 5 },
    { name := "helius", url := "https://eu.helius", maxRps := some 20 }]

theorem hot_reload_consistent_fleet :
    ((ProxyState.newWithReporter oldFleet 0).reload
      ⟨newFleet, .same _, .same _, fun _ => 7, fun _ => 9⟩).Follows := by
  have hlaw := hot_reload_consistent (.newWithReporter oldFleet 0) (.newWithReporter oldFleet 0) _
    [] ⟨newFleet, .same _, .same _, fun _ => 7, fun _ => 9⟩ ⟨oldFleet, 0, by decide, rfl⟩ rfl
    (by decide) rfl
  exact hlaw.2.2.1

end RpcPlane
