import RpcPlane.Potential
import RpcPlane.SamplingOrder

/-! The slots of a provider are those of its own probes: at each commitment the slot and the round
of the last update that had one, whose report came before it. -/

namespace RpcPlane

variable {interval : SkippingInterval} {cfg : HealthConfig} {s t : Sampling} {e : SamplingEvent}
  {reports reports' : List Report} {c : Commitment}

/-- The slots that a loop writes to the health of its provider, with the launch of its probe. -/
structure SlotUpdate where
  loop : Nat
  launch : Launch
  slots : CommitmentSlots

/-- The entry in the round tips that the same probe made. -/
def SlotUpdate.report (u : SlotUpdate) (i : Nat) : Option Report :=
  u.launch.report u.loop (some i) u.slots

def SlotUpdate.sampleAt (u : SlotUpdate) (c : Commitment) : Option (Nat × Option Nat) :=
  (u.slots.get c).map (fun slot => (slot, u.launch.round))

/-- The last of the updates that has a slot at `c`. -/
def lastUpdate (c : Commitment) (updates : List SlotUpdate) : Option SlotUpdate :=
  (updates.filter (fun u => (u.slots.get c).isSome)).getLast?

def updatedSample (c : Commitment) (updates : List SlotUpdate) : Option (Nat × Option Nat) :=
  (lastUpdate c updates).bind (·.sampleAt c)

/-- What the next step of the loop writes to the health record `i`. -/
def Sampler.updates (k i : Nat) (m : Sampler) : List SlotUpdate :=
  match m.phase with
  | .updating launch res => if m.health = some i then [⟨k, launch, res.slots⟩] else []
  | _ => []

/-- A loop that is at its update can take no other step. -/
def Sampling.updates (i : Nat) (s : Sampling) : SamplingEvent → List SlotUpdate
  | .loop k _ => (s.samplers[k]?).toList.flatMap (Sampler.updates k i)
  | _ => []

/-- The updates of the health record `i` in a run, in order. -/
def slotUpdates (interval : SkippingInterval) (cfg : HealthConfig) (i : Nat) (s : Sampling)
    (es : List SamplingEvent) : List SlotUpdate :=
  (sampling interval cfg).trace (Sampling.updates i) s es

section updates

variable (c : Commitment) (us : List SlotUpdate) (u : SlotUpdate)

theorem lastUpdate_snoc : lastUpdate c (us ++ [u]) =
    if (u.slots.get c).isSome then some u else lastUpdate c us := by
  unfold lastUpdate
  rw [List.filter_append]
  cases hu : u.slots.get c <;> simp [hu]

theorem updatedSample_snoc :
    updatedSample c (us ++ [u]) = (u.sampleAt c).or (updatedSample c us) := by
  unfold updatedSample
  rw [lastUpdate_snoc]
  cases hu : u.slots.get c <;> simp [SlotUpdate.sampleAt, hu]

variable {c us}

theorem updatedSample_eq_some {slot : Nat} {round : Option Nat}
    (h : updatedSample c us = some (slot, round)) :
    ∃ u ∈ us, lastUpdate c us = some u ∧ u.slots.get c = some slot ∧ u.launch.round = round := by
  obtain ⟨u, hu, hsample⟩ := Option.bind_eq_some_iff.mp h
  obtain ⟨slot', hslot, heq⟩ := Option.map_eq_some_iff.mp hsample
  obtain ⟨rfl, rfl⟩ := Prod.mk.inj heq
  exact ⟨u, (List.mem_filter.mp (List.mem_of_getLast? hu)).1, hu, hslot, rfl⟩

end updates

section health

variable (h : ProviderHealth) (now : Nat) (cfg : HealthConfig) (c : Commitment)

theorem ProviderHealth.updateSlotsInRound_sampleAt (slots : CommitmentSlots) (round : Option Nat) :
    (h.updateSlotsInRound slots round).inner.sampleAt c =
      ((slots.get c).map (fun slot => (slot, round))).or (h.inner.sampleAt c) :=
  (ProviderEntry.mk h none).updateSlotsInRound_sampleAt slots round c

theorem ProviderHealth.recordProbe_sampleAt (result : ProbeEnd) :
    (h.recordProbe now cfg result).inner.sampleAt c = h.inner.sampleAt c := by
  cases result with
  | ok res round => exact h.inner.record_sampleAt now res.processedLatencyMs cfg c true true
  | rateLimited latencyMs => exact h.inner.recordThrottled_sampleAt now latencyMs cfg c
  | failed latencyMs => exact h.inner.record_sampleAt now latencyMs cfg c false true

theorem ProviderHealth.recordOutcome_sampleAt (outcome : Outcome) (latencyMs : ℚ) :
    (h.recordOutcome now cfg outcome latencyMs).inner.sampleAt c = h.inner.sampleAt c := by
  cases outcome with
  | ok => exact h.inner.record_sampleAt now latencyMs cfg c true false
  | providerError => exact h.inner.record_sampleAt now latencyMs cfg c false false
  | rateLimited => exact h.inner.recordThrottled_sampleAt now latencyMs cfg c
  | clientError | miss | behind | unsupported => rfl

end health

/-- A loop about to update the slots has reported them. -/
def Sampler.Announced (k : Nat) (reports : List Report) (m : Sampler) : Prop :=
  ∀ launch res, m.phase = .updating launch res → ∀ ρ,
    launch.report k m.health res.slots = some ρ → ρ ∈ reports

/-- The health records hold what these updates, each reported before, have written. -/
structure Sampling.Tracks (s : Sampling) (updates : Nat → List SlotUpdate) : Prop where
  samples : ∀ i (h : ProviderHealth), s.healths[i]? = some h →
    ∀ c, h.inner.sampleAt c = updatedSample c (updates i)
  fresh : ∀ i, s.healths.length ≤ i → updates i = []
  known : ∀ m ∈ s.samplers, ∀ i, m.health = some i → i < s.healths.length
  announced : ∀ k (m : Sampler), s.samplers[k]? = some m → m.Announced k s.reports
  reported : ∀ i, ∀ u ∈ updates i, ∀ ρ, u.report i = some ρ → ρ ∈ s.reports

section loop

variable {k : Nat} {m m' : Sampler} {s s' : Shared} {updates : Nat → List SlotUpdate}

theorem Sampler.Announced.mono (h : m.Announced k reports) (hr : reports <+: reports') :
    m.Announced k reports' :=
  fun launch res hp ρ hρ => hr.subset (h launch res hp ρ hρ)

theorem Sampler.Step.announced (h : m.Step interval cfg k s m' s') :
    m'.Announced k s'.reports := by
  cases h with
  | observe launch res hp =>
    intro launch' res' hp' ρ hρ
    obtain ⟨rfl, rfl⟩ := SamplerPhase.updating.inj hp'
    have hmine : launch.report k m.health res.slots = some ρ := hρ
    rw [Shared.observe_reports, hmine]
    exact List.mem_append_right _ List.mem_cons_self
  | tick | stop | launch | answered | missed | update | merge | record | skip =>
    intro launch' res' hp'
    cases hp'

theorem Sampler.Step.healths_length (h : m.Step interval cfg k s m' s') :
    s'.healths.length = s.healths.length := by
  cases h with
  | observe launch res hp => rw [Shared.observe_healths]
  | update | record => exact List.length_modify _ _ _
  | tick | stop | launch | answered | missed | merge | skip => rfl

/-- A step of a loop leaves in the health records what it has written over what was there. -/
theorem Sampler.Step.samples (h : m.Step interval cfg k s m' s')
    (hs : ∀ i (g : ProviderHealth), s.healths[i]? = some g →
      ∀ c, g.inner.sampleAt c = updatedSample c (updates i)) (i : Nat) (g : ProviderHealth)
    (hg : s'.healths[i]? = some g) (c : Commitment) :
    g.inner.sampleAt c = updatedSample c (updates i ++ m.updates k i) := by
  have hnone : ∀ {p : SamplerPhase}, m.phase = p → (∀ launch res, p ≠ .updating launch res) →
      m.updates k i = [] := by
    intro p hp hne
    rw [Sampler.updates, hp]
    split
    · exact absurd rfl (hne _ _)
    · rfl
  cases h with
  | update launch res j hp hi =>
    obtain ⟨g₀, hg₀, rfl⟩ := of_getElem?_modify hg
    by_cases hj : j = i
    · subst hj
      have hone : m.updates k j = [⟨k, launch, res.slots⟩] := by simp [Sampler.updates, hp, hi]
      rw [if_pos rfl, hone, updatedSample_snoc, ← hs j g₀ hg₀ c]
      exact g₀.updateSlotsInRound_sampleAt c res.slots launch.round
    · have hother : m.updates k i = [] := by simp [Sampler.updates, hp, hi, hj]
      rw [if_neg hj, hother, List.append_nil]
      exact hs i g₀ hg₀ c
  | merge launch res hp hi =>
    have hother : m.updates k i = [] := by simp [Sampler.updates, hp, hi]
    rw [hother, List.append_nil]
    exact hs i g hg c
  | record result j hp hi =>
    obtain ⟨g₀, hg₀, rfl⟩ := of_getElem?_modify hg
    rw [hnone hp (by simp), List.append_nil, ← hs i g₀ hg₀ c]
    split_ifs
    · exact g₀.recordProbe_sampleAt s.now cfg c result
    · rfl
  | observe launch res hp =>
    rw [Shared.observe_healths] at hg
    rw [hnone hp (by simp), List.append_nil]
    exact hs i g hg c
  | tick hp =>
    rw [hnone hp (by simp), List.append_nil]
    exact hs i g hg c
  | stop _ hp | launch _ hp | answered _ _ hp | missed _ _ hp | skip _ hp =>
    rw [hnone hp (by simp), List.append_nil]
    exact hs i g hg c

theorem Sampler.mem_updates {i : Nat} {u : SlotUpdate} (h : u ∈ m.updates k i) :
    ∃ launch res, m.phase = .updating launch res ∧ m.health = some i ∧
      u = ⟨k, launch, res.slots⟩ := by
  unfold updates at h
  split at h
  · rename_i launch res hp
    split_ifs at h with hi
    · exact ⟨launch, res, hp, hi, List.mem_singleton.mp h⟩
    · cases h
  · cases h

end loop

section keeps

variable {updates : Nat → List SlotUpdate}

theorem Sampling.Tracks.unchanged (h : s.Tracks updates) (hhealths : t.healths = s.healths)
    (hsamplers : t.samplers = s.samplers) (hreports : t.reports = s.reports) :
    t.Tracks (fun i => updates i ++ []) := by
  simp only [List.append_nil]
  exact ⟨hhealths ▸ h.samples, hhealths ▸ h.fresh, hsamplers ▸ hhealths ▸ h.known,
    hsamplers ▸ hreports ▸ h.announced, hreports ▸ h.reported⟩

theorem Sampling.Tracks.loop {k : Nat} {m m' : Sampler} {s' : Shared} (h : s.Tracks updates)
    (hm : s.samplers[k]? = some m) (hstep : m.Step interval cfg k s.toShared m' s') :
    Sampling.Tracks { s with toShared := s', samplers := s.samplers.set k m' }
      (fun i => updates i ++ m.updates k i) := by
  obtain ⟨-, -, hhealth, -, hgrown⟩ := hstep.frame
  have hlen := hstep.healths_length
  have hmem := List.mem_of_getElem? hm
  refine ⟨hstep.samples h.samples, ?_, ?_, ?_, ?_⟩
  · intro i hi
    have hle : s.healths.length ≤ i := hlen ▸ hi
    have hnew : m.updates k i = [] := by
      apply List.eq_nil_iff_forall_not_mem.mpr
      intro u hu
      obtain ⟨launch, res, -, hmine, -⟩ := Sampler.mem_updates hu
      have hlt := h.known m hmem i hmine
      omega
    rw [hnew, List.append_nil]
    exact h.fresh i hle
  · intro n hn i hi
    rw [hlen]
    rcases List.mem_or_eq_of_mem_set hn with hn | rfl
    · exact h.known n hn i hi
    · exact h.known m hmem i (hhealth.symm.trans hi)
  · intro l n hn
    rcases of_getElem?_set hn with ⟨rfl, rfl⟩ | ⟨-, hn⟩
    · exact hstep.announced
    · exact (h.announced l n hn).mono hgrown
  · intro i u hu ρ hρ
    rcases List.mem_append.mp hu with hold | hnew
    · exact hgrown.subset (h.reported i u hold ρ hρ)
    · obtain ⟨launch, res, hp, hmine, rfl⟩ := Sampler.mem_updates hnew
      exact hgrown.subset (h.announced k m hm launch res hp ρ (hmine ▸ hρ))

end keeps

theorem Sampling.Tracks.step {updates : Nat → List SlotUpdate} (h : s.Tracks updates)
    (ht : s.step interval cfg e = some t) : t.Tracks (fun i => updates i ++ s.updates i e) := by
  cases e with
  | loop k act =>
    obtain ⟨m, m', s', hm, hstep, rfl⟩ := step_loop ht
    have hupdates : ∀ i, s.updates i (.loop k act) = m.updates k i := by
      intro i
      simp [Sampling.updates, hm]
    simp only [hupdates]
    exact h.loop hm hstep
  | create provider =>
    obtain rfl := Option.some.inj ht
    have hlen : (s.healths ++ [ProviderHealth.mk provider.name {}]).length = s.healths.length + 1 :=
      List.length_append
    refine ⟨?_, ?_, ?_, h.announced, ?_⟩
    · intro i g hg c
      show _ = updatedSample c (updates i ++ [])
      rw [List.append_nil]
      rcases of_getElem?_concat hg with hg | ⟨rfl, rfl⟩
      · exact h.samples i g hg c
      · rw [h.fresh _ le_rfl]
        cases c <;> rfl
    · intro i hi
      exact List.append_eq_nil_iff.mpr ⟨h.fresh i (Nat.le_of_succ_le (hlen.ge.trans hi)), rfl⟩
    · intro m hm i hi
      exact (h.known m hm i hi).trans_le (Nat.le_of_succ_le hlen.ge)
    · intro i u hu
      exact h.reported i u (by simpa [Sampling.updates] using hu)
  | recorded j outcome latencyMs =>
    obtain rfl := Option.some.inj ht
    have hlen : (s.modify j (·.recordOutcome s.now cfg outcome latencyMs)).healths.length =
        s.healths.length := List.length_modify _ _ _
    refine ⟨?_, ?_, ?_, h.announced, ?_⟩
    · intro i g hg c
      show _ = updatedSample c (updates i ++ [])
      obtain ⟨g₀, hg₀, rfl⟩ := of_getElem?_modify hg
      rw [List.append_nil, ← h.samples i g₀ hg₀ c]
      split_ifs
      · exact g₀.recordOutcome_sampleAt s.now cfg c outcome latencyMs
      · rfl
    · intro i hi
      exact List.append_eq_nil_iff.mpr ⟨h.fresh i (hlen ▸ hi), rfl⟩
    · intro m hm i hi
      exact hlen ▸ h.known m hm i hi
    · intro i u hu
      exact h.reported i u (by simpa [Sampling.updates] using hu)
  | start health =>
    obtain ⟨hknown, ht⟩ := eq_of_guard ht
    obtain rfl := Option.some.inj ht
    have hold := h.unchanged (t := s) rfl rfl rfl
    refine ⟨hold.samples, hold.fresh, ?_, ?_, hold.reported⟩
    · intro m hm i hi
      rcases List.mem_append.mp hm with hm | hm
      · exact h.known m hm i hi
      · obtain rfl := List.mem_singleton.mp hm
        exact hknown i hi
    · intro k m hm
      rcases of_getElem?_concat hm with hm | ⟨-, rfl⟩
      · exact h.announced k m hm
      · intro launch res hp
        cases hp
  | stop k =>
    obtain rfl := Option.some.inj ht
    have hold := h.unchanged (t := s) rfl rfl rfl
    refine ⟨hold.samples, hold.fresh, ?_, ?_, hold.reported⟩
    · intro m hm i hi
      obtain ⟨l, hl⟩ := List.mem_iff_getElem?.mp hm
      obtain ⟨n, hn, rfl⟩ := of_getElem?_modify hl
      have hmine : n.health = some i := by
        split_ifs at hi <;> exact hi
      exact h.known n (List.mem_of_getElem? hn) i hmine
    · intro l m hm
      obtain ⟨n, hn, rfl⟩ := of_getElem?_modify hm
      have hann := h.announced l n hn
      split_ifs
      · exact hann
      · exact hann
  | insert i =>
    obtain ⟨-, ht⟩ := eq_of_guard ht
    obtain rfl := Option.some.inj ht
    exact h.unchanged rfl rfl rfl
  | advance j =>
    obtain ⟨call, call', -, -, rfl⟩ := step_advance ht
    exact h.unchanged rfl rfl rfl
  | wait | remove | collect =>
    obtain rfl := Option.some.inj ht
    exact h.unchanged rfl rfl rfl

theorem Sampling.Tracks.start (hs : (sampling interval cfg).init s) : s.Tracks (fun _ => []) := by
  obtain ⟨providers, now, rfl⟩ := hs
  refine ⟨?_, fun _ _ => rfl, ?_, ?_, ?_⟩
  · intro i g hg c
    obtain ⟨p, -, rfl⟩ := List.mem_map.mp (List.mem_of_getElem? hg)
    cases c <;> rfl
  · intro m hm
    cases hm
  · intro k m hm
    cases hm
  · intro i u hu
    cases hu

theorem sampling_tracks {s₀ : Sampling} {es : List SamplingEvent}
    (hinit : (sampling interval cfg).init s₀)
    (hrun : (sampling interval cfg).run s₀ es = some s) :
    s.Tracks (fun i => slotUpdates interval cfg i s₀ es) := by
  refine System.invariant_history
    (I := fun es s => Sampling.Tracks s (fun i => slotUpdates interval cfg i s₀ es))
    (Sampling.Tracks.start hinit) ?_ hrun
  intro es s e t hrun h ht
  have hsnoc : ∀ i, slotUpdates interval cfg i s₀ (es ++ [e]) =
      slotUpdates interval cfg i s₀ es ++ s.updates i e :=
    fun i => System.trace_snoc (Sampling.updates i) hrun ht
  simp only [hsnoc]
  exact h.step ht

end RpcPlane
