import RpcPlane.HotReload
import RpcPlane.KeyedPass

/-! The loops of the monitor under its stop flags: which of them run for a name, and how adding
and removing a provider changes that. -/

namespace RpcPlane

variable {l : ProbeLoops} {p : ProviderConfig} {name k : String}

def ProbeLoops.probing (l : ProbeLoops) (name : String) : List ProviderConfig :=
  (l.running.filter (·.provider.name == name)).map (·.provider)

/-- An entry's flag is its own and not set, and every running loop listens to the flag of the
entry of its name. -/
structure ProbeLoops.Tracked (l : ProbeLoops) : Prop where
  fresh : ∀ n f, l.entries.lookup n = some f → f < l.next ∧ f ∉ l.stopped
  distinct : ∀ n m f, l.entries.lookup n = some f → l.entries.lookup m = some f → n = m
  created : ∀ f ∈ l.stopped, f < l.next
  listens : ∀ x ∈ l.running, l.entries.lookup x.provider.name = some x.stop

theorem ProbeLoops.Tracked.probing_absent (h : l.Tracked) (hk : l.entries.lookup k = none) :
    l.probing k = [] := by
  apply List.map_eq_nil_iff.mpr
  apply List.filter_eq_nil_iff.mpr
  intro x hx he
  have hname : x.provider.name = k := by simpa using he
  have hstop := h.listens x hx
  rw [hname, hk] at hstop
  cases hstop

theorem ProbeLoops.Tracked.stop_iff (h : l.Tracked) {f : Nat}
    (hf : l.entries.lookup name = some f) {x : ProbeLoop} (hx : x ∈ l.running) :
    x.stop = f ↔ x.provider.name = name := by
  have hstop := h.listens x hx
  constructor
  · intro he
    exact h.distinct _ _ f (he ▸ hstop) hf
  · intro he
    rw [he, hf] at hstop
    exact (Option.some.inj hstop).symm

theorem ProbeLoops.removeProvider_none (h : l.entries.lookup name = none) :
    l.removeProvider name = l := by
  simp only [ProbeLoops.removeProvider, h]

theorem ProbeLoops.removeProvider_some {f : Nat} (h : l.entries.lookup name = some f) :
    l.removeProvider name =
      { l with entries := l.entries.erase name, stopped := l.stopped ++ [f] } := by
  simp only [ProbeLoops.removeProvider, h]

theorem ProbeLoops.running_removeProvider {f : Nat} (hf : l.entries.lookup name = some f) :
    (l.removeProvider name).running = l.running.filter (·.stop != f) := by
  rw [ProbeLoops.removeProvider_some hf]
  simp only [ProbeLoops.running, List.filter_filter]
  apply List.filter_congr
  intro x _
  by_cases hx : x.stop = f <;> simp [hx]

theorem ProbeLoops.entries_removeProvider (l : ProbeLoops) (name k : String) :
    (l.removeProvider name).entries.lookup k =
      if name = k then none else l.entries.lookup k := by
  cases hf : l.entries.lookup name with
  | none =>
    rw [ProbeLoops.removeProvider_none hf]
    by_cases hk : name = k
    · rw [if_pos hk, ← hk, hf]
    · rw [if_neg hk]
  | some f =>
    rw [ProbeLoops.removeProvider_some hf]
    exact lookup_erase_key l.entries name k

theorem ProbeLoops.entries_addProvider (l : ProbeLoops) (p : ProviderConfig) (k : String) :
    (l.addProvider p).entries.lookup k =
      if p.name = k then some l.next else l.entries.lookup k :=
  lookup_insert_key l.entries p.name k l.next

theorem ProbeLoops.Tracked.removeProvider (h : l.Tracked) (name : String) :
    (l.removeProvider name).Tracked := by
  cases hf : l.entries.lookup name with
  | none =>
    rw [ProbeLoops.removeProvider_none hf]
    exact h
  | some f =>
    have hkept : ∀ n g, (l.removeProvider name).entries.lookup n = some g →
        name ≠ n ∧ l.entries.lookup n = some g := by
      intro n g hg
      rw [l.entries_removeProvider] at hg
      by_cases hn : name = n
      · rw [if_pos hn] at hg
        cases hg
      · rw [if_neg hn] at hg
        exact ⟨hn, hg⟩
    have hsame := ProbeLoops.removeProvider_some hf
    refine ⟨?_, ?_, ?_, ?_⟩
    · intro n g hg
      obtain ⟨hn, hg⟩ := hkept n g hg
      obtain ⟨hlt, hns⟩ := h.fresh n g hg
      rw [hsame]
      refine ⟨hlt, ?_⟩
      intro hm
      obtain hm | hm := List.mem_append.mp hm
      · exact hns hm
      · rw [List.mem_singleton.mp hm] at hg
        exact hn (h.distinct name n f hf hg)
    · intro n m g hn hm
      exact h.distinct n m g (hkept n g hn).2 (hkept m g hm).2
    · intro g hg
      rw [hsame] at hg ⊢
      obtain hg | hg := List.mem_append.mp hg
      · exact h.created g hg
      · exact List.mem_singleton.mp hg ▸ (h.fresh name f hf).1
    · intro x hx
      rw [ProbeLoops.running_removeProvider hf] at hx
      obtain ⟨hx, hne⟩ := List.mem_filter.mp hx
      have hn : name ≠ x.provider.name := by
        intro he
        simp [(h.stop_iff hf hx).mpr he.symm] at hne
      rw [l.entries_removeProvider, if_neg hn]
      exact h.listens x hx

theorem ProbeLoops.Tracked.probing_removeProvider (h : l.Tracked) (name k : String) :
    (l.removeProvider name).probing k = if name = k then [] else l.probing k := by
  cases hf : l.entries.lookup name with
  | none =>
    rw [ProbeLoops.removeProvider_none hf]
    by_cases hk : name = k
    · rw [if_pos hk, h.probing_absent (hk ▸ hf)]
    · rw [if_neg hk]
  | some f =>
    rw [ProbeLoops.probing, ProbeLoops.running_removeProvider hf, List.filter_filter]
    by_cases hk : name = k
    · rw [if_pos hk]
      apply List.map_eq_nil_iff.mpr
      apply List.filter_eq_nil_iff.mpr
      intro x hx
      have hstop := h.stop_iff hf hx
      simp [hstop, hk]
    · rw [if_neg hk]
      congr 1
      apply List.filter_congr
      intro x hx
      have hstop := h.stop_iff hf hx
      by_cases hn : x.provider.name = k
      · have hne : x.stop ≠ f := fun he => hk ((hstop.mp he).symm.trans hn)
        simp [hn, hne]
      · simp [beq_false_of_ne hn]

theorem ProbeLoops.Tracked.insert (h : l.Tracked) (hp : l.entries.lookup name = none) :
    (l.insert name).Tracked := by
  have hinsert : ∀ n, (l.insert name).entries.lookup n =
      if name = n then some l.next else l.entries.lookup n :=
    fun n => lookup_insert_key l.entries name n l.next
  have hnext : ∀ n, l.entries.lookup n ≠ some l.next :=
    fun n hn => absurd (h.fresh n _ hn).1 (lt_irrefl _)
  refine ⟨?_, ?_, ?_, ?_⟩
  · intro n g hg
    rw [hinsert] at hg
    by_cases hn : name = n
    · rw [if_pos hn] at hg
      obtain rfl := Option.some.inj hg
      exact ⟨Nat.lt_succ_self _, fun hm => absurd (h.created _ hm) (lt_irrefl _)⟩
    · rw [if_neg hn] at hg
      exact ⟨(h.fresh n g hg).1.trans (Nat.lt_succ_self _), (h.fresh n g hg).2⟩
  · intro n m g hgn hgm
    rw [hinsert] at hgn hgm
    by_cases hn : name = n
    · rw [if_pos hn] at hgn
      obtain rfl := Option.some.inj hgn
      by_cases hm : name = m
      · exact hn.symm.trans hm
      · rw [if_neg hm] at hgm
        exact absurd hgm (hnext m)
    · rw [if_neg hn] at hgn
      by_cases hm : name = m
      · rw [if_pos hm] at hgm
        obtain rfl := Option.some.inj hgm
        exact absurd hgn (hnext n)
      · rw [if_neg hm] at hgm
        exact h.distinct n m g hgn hgm
  · intro g hg
    exact (h.created g hg).trans (Nat.lt_succ_self _)
  · intro x hx
    have hstop := h.listens x hx
    have hn : name ≠ x.provider.name := by
      intro he
      rw [← he, hp] at hstop
      cases hstop
    rw [hinsert, if_neg hn]
    exact hstop

theorem ProbeLoops.Tracked.running_spawn (h : l.Tracked) {stop : Nat}
    (hp : l.entries.lookup p.name = some stop) :
    (l.spawn p stop).running = l.running ++ (healthLoop p stop).toList := by
  have hnew : stop ∉ l.stopped := (h.fresh p.name stop hp).2
  simp only [ProbeLoops.running, ProbeLoops.spawn, List.filter_append]
  congr 1
  by_cases hs : p.supports "getSlot" = true <;> simp [healthLoop, hs, hnew]

theorem ProbeLoops.Tracked.spawn (h : l.Tracked) {stop : Nat}
    (hp : l.entries.lookup p.name = some stop) : (l.spawn p stop).Tracked where
  fresh := h.fresh
  distinct := h.distinct
  created := h.created
  listens := by
    intro x hx
    rw [h.running_spawn hp] at hx
    obtain hx | hx := List.mem_append.mp hx
    · exact h.listens x hx
    · by_cases hs : p.supports "getSlot" = true
      · obtain rfl : x = ⟨p, stop⟩ := by simpa [healthLoop, hs] using hx
        exact hp
      · simp [healthLoop, hs] at hx

/-- The providers that a loop spawned for `p` probes. -/
def probedOf (p : ProviderConfig) : List ProviderConfig :=
  [p].filter (·.supports "getSlot")

theorem ProbeLoops.Tracked.probing_spawn (h : l.Tracked) {stop : Nat}
    (hp : l.entries.lookup p.name = some stop) (k : String) :
    (l.spawn p stop).probing k = if p.name = k then l.probing k ++ probedOf p else l.probing k := by
  rw [ProbeLoops.probing, h.running_spawn hp, List.filter_append, List.map_append]
  by_cases hk : p.name = k
  · rw [if_pos hk]
    by_cases hs : p.supports "getSlot" = true <;>
      simp [healthLoop, ProbeLoops.probing, probedOf, hs, hk]
  · rw [if_neg hk]
    by_cases hs : p.supports "getSlot" = true <;>
      simp [healthLoop, ProbeLoops.probing, hs, beq_false_of_ne hk]

theorem ProbeLoops.Tracked.addProvider (h : l.Tracked) (hp : l.entries.lookup p.name = none) :
    (l.addProvider p).Tracked :=
  (h.insert hp).spawn (AList.lookup_insert l.entries)

theorem ProbeLoops.Tracked.probing_addProvider (h : l.Tracked)
    (hp : l.entries.lookup p.name = none) (k : String) :
    (l.addProvider p).probing k = if p.name = k then probedOf p else l.probing k := by
  have hspawn := (h.insert hp).probing_spawn (p := p) (AList.lookup_insert l.entries) k
  refine hspawn.trans ?_
  by_cases hk : p.name = k
  · have habsent : (l.insert p.name).probing k = [] := h.probing_absent (hk ▸ hp)
    rw [if_pos hk, if_pos hk, habsent, List.nil_append]
  · rw [if_neg hk, if_neg hk]
    rfl

section start

variable {providers : List ProviderConfig}

theorem ProbeLoops.tracked_empty : ({} : ProbeLoops).Tracked where
  fresh := by simp
  distinct := by simp
  created := by simp
  listens := by simp [ProbeLoops.running]

/-- `HealthMonitor::new` gives every provider an entry with a flag, and spawns nothing. -/
theorem ProbeLoops.new_tracked (hnd : (providers.map (·.name)).Nodup) :
    (ProbeLoops.new providers).Tracked ∧ (ProbeLoops.new providers).loops = [] ∧
    ∀ k, ((ProbeLoops.new providers).entries.lookup k).isSome =
      (providers.find? (·.name == k)).isSome := by
  let I : List ProviderConfig → ProbeLoops → Prop := fun ps l => l.Tracked ∧ l.loops = [] ∧
    (ps.map (·.name)).Nodup ∧ ∀ p ∈ ps, l.entries.lookup p.name = none
  have hkeep : ∀ p ps l, I (p :: ps) l → I ps (l.insert p.name) := by
    intro p ps l h
    have hnd : p.name ∉ ps.map (·.name) ∧ (ps.map (·.name)).Nodup := List.nodup_cons.mp h.2.2.1
    refine ⟨h.1.insert (h.2.2.2 p List.mem_cons_self), h.2.1, hnd.2, ?_⟩
    intro q hq
    have hne : q.name ≠ p.name := fun he => hnd.1 (List.mem_map.mpr ⟨q, hq, he⟩)
    exact (AList.lookup_insert_ne hne).trans (h.2.2.2 q (List.mem_cons_of_mem _ hq))
  have hstart : I providers {} := ⟨ProbeLoops.tracked_empty, rfl, hnd, fun _ _ => rfl⟩
  have hend := keep_foldl hkeep hstart
  refine ⟨hend.1, hend.2.1, ?_⟩
  intro k
  have hview := view_foldl (V := fun (l : ProbeLoops) k => (l.entries.lookup k).isSome)
    (f := fun (_ : ProviderConfig) _ => true) hkeep ?_ hnd hstart k
  · refine hview.trans ?_
    cases providers.find? (·.name == k) <;> rfl
  · intro p ps l k _
    rw [ProbeLoops.insert, lookup_insert_key]
    by_cases hk : p.name = k <;> simp [hk]

theorem ProbeLoops.startOne_spawn {clients : Clients} (hclient : (clients.lookup p.name).isSome = true)
    (hentry : (l.entries.lookup p.name).isSome = true) :
    ∃ stop, l.entries.lookup p.name = some stop ∧ l.startOne clients p = l.spawn p stop := by
  obtain ⟨client, hc⟩ := Option.isSome_iff_exists.mp hclient
  obtain ⟨stop, hs⟩ := Option.isSome_iff_exists.mp hentry
  exact ⟨stop, hs, by simp only [ProbeLoops.startOne, hc, hs]⟩

theorem ProbeLoops.Tracked.start (h : l.Tracked) (clients : Clients) (hnd : (providers.map (·.name)).Nodup)
    (hclients : ∀ p ∈ providers, (clients.lookup p.name).isSome = true)
    (hentries : ∀ p ∈ providers, (l.entries.lookup p.name).isSome = true) :
    (l.start clients providers).Tracked ∧ (l.start clients providers).entries = l.entries ∧
    ∀ k, (l.start clients providers).probing k = ((providers.find? (·.name == k)).map
      (fun p v => v ++ probedOf p)).getD id (l.probing k) := by
  let I : List ProviderConfig → ProbeLoops → Prop := fun ps m => m.Tracked ∧
    m.entries = l.entries ∧ ∀ p ∈ ps, p ∈ providers
  have hone : ∀ p ps m, I (p :: ps) m → ∃ stop, m.entries.lookup p.name = some stop ∧
      m.startOne clients p = m.spawn p stop := by
    intro p ps m hm
    have hp := hm.2.2 p List.mem_cons_self
    exact ProbeLoops.startOne_spawn (hclients p hp) (hm.2.1 ▸ hentries p hp)
  have hkeep : ∀ p ps m, I (p :: ps) m → I ps (m.startOne clients p) := by
    intro p ps m hm
    obtain ⟨stop, hs, he⟩ := hone p ps m hm
    rw [he]
    exact ⟨hm.1.spawn hs, hm.2.1, fun q hq => hm.2.2 q (List.mem_cons_of_mem _ hq)⟩
  have hstart : I providers l := ⟨h, rfl, fun _ hp => hp⟩
  have hend := keep_foldl hkeep hstart
  refine ⟨hend.1, hend.2.1, ?_⟩
  intro k
  refine view_foldl (V := ProbeLoops.probing) hkeep ?_ hnd hstart k
  intro p ps m k hm
  obtain ⟨stop, hs, he⟩ := hone p ps m hm
  rw [he]
  exact hm.1.probing_spawn hs k

end start

end RpcPlane
