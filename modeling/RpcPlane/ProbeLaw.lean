import RpcPlane.HotReloadLaw

/-! Which providers are probed after a reload. A loop is spawned again only when its client is
built again, and that does not look at the methods of the provider. -/

namespace RpcPlane

variable {s t : ProxyState}

/-- What a loop probes for. -/
def ProviderConfig.target (p : ProviderConfig) : String × String := (p.name, p.url)

/-- The running loops are one for each provider that can answer the probe, at its URL. -/
def ProxyState.Probed (s : ProxyState) : Prop :=
  (s.probes.running.map (·.provider.target)).Perm
    ((s.config.providers.filter (·.supports "getSlot")).map (·.target))

/-- Where a reload keeps the client of a provider, it keeps whether it can be probed. -/
def ProxyState.KeepsProbed (s : ProxyState) : ProxyEvent → Prop
  | .reload r => r.config.validate = .ok () → ∀ p ∈ r.config.providers,
    clientRebuildReason (s.config.provider p.name) p (s.config.pool != r.config.pool) = none →
      (s.config.provider p.name).map (·.supports "getSlot") = some (p.supports "getSlot")
  | _ => True

instance ProxyState.decidableKeepsProbed (s : ProxyState) : ∀ e, Decidable (s.KeepsProbed e)
  | .reload r => inferInstanceAs (Decidable (r.config.validate = .ok () → ∀ p ∈ r.config.providers,
      clientRebuildReason _ p _ = none → _ = some (p.supports "getSlot")))
  | .health _ | .acquired .. => isTrue trivial

theorem perm_of_filter_key {α κ : Type} [DecidableEq α] [DecidableEq κ] (key : α → κ)
    {l m : List α} (h : ∀ k, l.filter (key · == k) = m.filter (key · == k)) : l.Perm m := by
  apply List.perm_iff_count.mpr
  intro a
  have hcount : ∀ n : List α, n.count a = (n.filter (key · == key a)).count a := by
    intro n
    exact (List.count_filter (by simp)).symm
  rw [hcount l, hcount m, h (key a)]

/-- What a name is probed at, given its provider in the configuration. -/
def Standing.ProbedAs (provider : Option ProviderConfig) (v : Standing) : Prop :=
  v.probed.map (·.target) = (provider.elim [] probedOf).map (·.target)

theorem ProxyState.filter_running (k : String) :
    (s.probes.running.map (·.provider.target)).filter (·.1 == k) =
      (s.standing k).probed.map (·.target) := by
  rw [List.filter_map, ProxyState.standing, ProbeLoops.probing, List.map_map]
  rfl

theorem Config.filter_targets {config : Config} (h : (config.providers.map (·.name)).Nodup)
    (k : String) :
    ((config.providers.filter (·.supports "getSlot")).map (·.target)).filter (·.1 == k) =
      ((config.provider k).elim [] probedOf).map (·.target) := by
  have hname : ((fun x : String × String => x.1 == k) ∘ ProviderConfig.target) = (·.name == k) := rfl
  rw [List.filter_map, hname, List.filter_comm, filter_key_of_nodup ProviderConfig.name h k]
  show ((config.provider k).toList.filter (·.supports "getSlot")).map (·.target) = _
  cases config.provider k <;> rfl

theorem ProxyState.probed_iff (h : (s.config.providers.map (·.name)).Nodup) :
    s.Probed ↔ ∀ k, (s.standing k).ProbedAs (s.config.provider k) := by
  constructor
  · intro hp k
    have hperm := hp.filter (·.1 == k)
    rw [s.filter_running, Config.filter_targets h] at hperm
    cases hc : s.config.provider k with
    | none =>
      rw [hc] at hperm
      exact hperm.eq_nil
    | some p =>
      rw [hc] at hperm
      by_cases hs : p.supports "getSlot" = true
      · have hone : probedOf p = [p] := by simp [probedOf, hs]
        rw [Option.elim_some, hone] at hperm
        rw [Standing.ProbedAs, Option.elim_some, hone]
        exact List.perm_singleton.mp hperm
      · have hnil : probedOf p = [] := by simp [probedOf, hs]
        rw [Option.elim_some, hnil] at hperm
        rw [Standing.ProbedAs, Option.elim_some, hnil]
        exact hperm.eq_nil
  · intro hp
    apply perm_of_filter_key (fun x : String × String => x.1)
    intro k
    rw [s.filter_running, Config.filter_targets h]
    exact hp k

section reload

variable {old new : Config} {builtAt cappedAt : String → Instant} {k : String} {p : ProviderConfig}
  {v : Standing}

theorem Standing.recapped_probed {old : Option ProviderConfig} {now : Instant} :
    (v.recapped old p now).probed = v.probed := by
  unfold Standing.recapped
  split <;> rfl

/-- A loop kept from `o` is right for `p` when both are probed or both are not. -/
theorem Standing.ProbedAs.kept {o : ProviderConfig} (h : v.ProbedAs (some o))
    (hname : o.name = p.name) (hurl : o.url = p.url) :
    v.ProbedAs (some p) ↔ o.supports "getSlot" = p.supports "getSlot" := by
  have htarget : o.target = p.target := by
    rw [ProviderConfig.target, ProviderConfig.target, hname, hurl]
  rw [Standing.ProbedAs] at h ⊢
  rw [h]
  cases ho : o.supports "getSlot" <;> cases hp : p.supports "getSlot" <;>
    simp [probedOf, ho, hp, htarget]

/-- A kept client keeps its loop, so what is probed at a name stays right exactly when the old
and the new provider are both probed or both not. -/
theorem Standing.reloaded_probed (h : v.ProbedAs (old.provider k)) :
    (v.reloaded old new builtAt cappedAt k).ProbedAs (new.provider k) ↔
      ∀ p, new.provider k = some p →
        clientRebuildReason (old.provider k) p (old.pool != new.pool) = none →
        (old.provider k).map (·.supports "getSlot") = some (p.supports "getSlot") := by
  cases hn : new.provider k with
  | none =>
    have hgone : (v.reloaded old new builtAt cappedAt k).ProbedAs none := by
      cases ho : old.provider k with
      | none =>
        rw [ho] at h
        simpa [Standing.reloaded, hn, ho] using h
      | some o =>
        simp [Standing.reloaded, hn, ho, Standing.absent, Standing.ProbedAs]
    exact iff_of_true hgone (by simp)
  | some p =>
    have hname : p.name = k := (Config.provider_some hn).2
    have hreloaded : (v.reloaded old new builtAt cappedAt k).probed =
        (v.rebuilt old new builtAt p).probed := by
      simp only [Standing.reloaded, hn]
      exact Standing.recapped_probed
    have hgoal : (v.reloaded old new builtAt cappedAt k).ProbedAs (some p) ↔
        (v.rebuilt old new builtAt p).ProbedAs (some p) := by
      rw [Standing.ProbedAs, Standing.ProbedAs, hreloaded]
    rw [hgoal]
    cases hr : clientRebuildReason (old.provider k) p (old.pool != new.pool) with
    | some reason =>
      have hv : v.rebuilt old new builtAt p = .built p new.pool (builtAt p.name) :=
        if_pos (by rw [hname, hr]; rfl)
      rw [hv]
      refine iff_of_true rfl ?_
      intro q hq hnone
      obtain rfl := Option.some.inj hq
      rw [hr] at hnone
      cases hnone
    | none =>
      have hv : v.rebuilt old new builtAt p = v := if_neg (by rw [hname, hr]; simp)
      obtain ⟨-, o, ho, hurl, -⟩ := clientRebuildReason_none hr
      have honame : o.name = p.name := (Config.provider_some ho).2.trans hname.symm
      rw [ho] at h
      rw [hv, ho, h.kept honame hurl]
      constructor
      · intro hs q hq _
        obtain rfl := Option.some.inj hq
        exact congrArg some hs
      · intro hs
        exact Option.some.inj (hs p rfl (ho ▸ hr))

end reload

theorem ProxyState.Consistent.reload_probed (h : s.Consistent) (hp : s.Probed) (r : Reload) :
    (s.reload r).Probed ↔ s.KeepsProbed (.reload r) := by
  cases hv : r.config.validate with
  | error message =>
    have hs : s.reload r = s := by simp only [ProxyState.reload, hv]
    rw [hs]
    refine iff_of_true hp ?_
    intro hok
    rw [hv] at hok
    cases hok
  | ok u =>
    have hconfig : (s.reload r).config = r.config := s.reload_config hv
    have hnew : (r.config.providers.map (·.name)).Nodup := Config.validate_names hv
    have hold := (ProxyState.probed_iff h.names).mp hp
    have hreloaded : ∀ k, ((s.reload r).standing k).ProbedAs (r.config.provider k) ↔
        ∀ p, r.config.provider k = some p →
          clientRebuildReason (s.config.provider k) p (s.config.pool != r.config.pool) = none →
          (s.config.provider k).map (·.supports "getSlot") = some (p.supports "getSlot") := by
      intro k
      rw [(h.ready.reload hv).2 k]
      exact Standing.reloaded_probed (hold k)
    rw [ProxyState.probed_iff (hconfig ▸ hnew), hconfig]
    constructor
    · intro hk _ p hmem
      exact (hreloaded p.name).mp (hk p.name) p (Config.provider_of_mem hnew hmem)
    · intro hk k
      refine (hreloaded k).mpr ?_
      intro p hfind
      obtain ⟨hmem, rfl⟩ := Config.provider_some hfind
      exact hk hv p hmem

theorem ProxyState.Consistent.step_probed (h : s.Consistent) (hp : s.Probed) {e : ProxyEvent}
    (hs : s.step e = some t) : t.Probed ↔ s.KeepsProbed e := by
  cases e with
  | health e =>
    obtain ⟨-, hu⟩ := eq_of_guard hs
    obtain rfl := Option.some.inj hu
    exact iff_of_true hp trivial
  | acquired name now =>
    obtain rfl := Option.some.inj hs
    exact iff_of_true hp trivial
  | reload r =>
    obtain rfl := Option.some.inj hs
    exact h.reload_probed hp r

theorem ProxyState.probed_new {config : Config} (hv : config.validate = .ok ()) (now : Instant) :
    (newWithReporter config now).Probed := by
  have hnd : (config.providers.map (·.name)).Nodup := Config.validate_names hv
  obtain ⟨-, hstanding⟩ := ProxyState.standing_new hnd now
  apply (ProxyState.probed_iff hnd).mpr
  intro k
  rw [hstanding k]
  show (((config.provider k).map (Standing.built · config.pool now)).getD .absent).ProbedAs
    (config.provider k)
  cases config.provider k <;> rfl

/-- The loops follow the configuration all along a run exactly when no reload changes whether a
provider whose client it keeps can be probed. -/
theorem probing_follows_config (s₀ : ProxyState) (events : List ProxyEvent)
    (hinit : watchConfig.init s₀) :
    (∀ before after s, events = before ++ after → watchConfig.run s₀ before = some s → s.Probed) ↔
      watchConfig.Meets ProxyState.KeepsProbed s₀ events := by
  obtain ⟨config, now, hv, rfl⟩ := hinit
  apply System.states_iff_meets (I := ProxyState.Consistent) (Q := ProxyState.Probed)
  · intro s e t hs ht
    exact hs.step ht
  · intro s e t hs hp ht
    exact hs.step_probed hp ht
  · exact .new hv now
  · exact ProxyState.probed_new hv now

/-- `triton` goes, `quicknode` comes for transactions only, and `helius` moves. -/
def landingFleet : Config where
  providers := [{ name := "helius", url := "https://eu.helius" },
    { name := "quicknode", url := "https://quicknode", methods := some ["sendTransaction"] }]

theorem probing_follows_config_landing :
    ((ProxyState.newWithReporter oldFleet 0).reload
      ⟨landingFleet, .same _, .same _, fun _ => 7, fun _ => 9⟩).Probed := by
  have hlaw := probing_follows_config (.newWithReporter oldFleet 0)
    [.reload ⟨landingFleet, .same _, .same _, fun _ => 7, fun _ => 9⟩] ⟨oldFleet, 0, by decide, rfl⟩
  exact hlaw.mpr (by decide) _ [] _ (List.append_nil _).symm rfl

/-- `helius` is scoped to transactions at the same URL. -/
def scopedFleet : Config where
  providers := [
    { name := "helius", url := "https://helius", methods := some ["sendTransaction"],
      maxRps := some 50 },
    { name := "triton", url := "https://triton" }]

/-- Its loop runs on, although it no longer permits the probe. -/
theorem scoped_provider_still_probed :
    oldFleet.validate = .ok () ∧ scopedFleet.validate = .ok () ∧
    ¬ ((ProxyState.newWithReporter oldFleet 0).reload
      ⟨scopedFleet, .same _, .same _, fun _ => 7, fun _ => 9⟩).Probed := by
  refine ⟨by decide, by decide, ?_⟩
  intro h
  exact absurd h.length_eq (by decide)

end RpcPlane
