import RpcPlane.Monitor
import RpcPlane.RunningMax
import RpcPlane.Transition

/-! Drift compares like with like: over every run of probes, what the drift of a provider at
a commitment is measured against. -/

namespace RpcPlane

inductive HealthEvent where
  | probed (name : String) (now : Instant) (result : ProbeEnd)
  /-- a probe in flight when its provider was removed or replaced -/
  | orphaned (slots : CommitmentSlots) (round : Option Nat)
  | referenceProbed (slots : CommitmentSlots) (round : Option Nat)
  | added (provider : ProviderConfig) (now : Instant)
  | removed (name : String)
  | recorded (name : String) (now : Instant) (outcome : Outcome) (latencyMs : ℚ)
  | snapshotted (now : Instant)

def Monitor.after (m : Monitor) (cfg : HealthConfig) : HealthEvent → Monitor
  | .probed name now result => m.probed name now cfg result
  | .orphaned slots round => m.observeRound slots round
  | .referenceProbed slots round => m.referenceProbed slots round
  | .added provider now => m.addProvider provider now
  | .removed name => m.removeProvider name
  | .recorded name now outcome latencyMs => m.recordOutcome name now outcome latencyMs cfg
  | .snapshotted now => (m.snapshotsWithTips now cfg).2.2

def monitoring (cfg : HealthConfig) : System Monitor HealthEvent where
  init m := ∃ providers now, m = Monitor.new providers now
  step m e := some (m.after cfg e)

section history

variable (name : String) (c : Commitment)

/-- The slots that an event reports, and the round it sampled them in. -/
def HealthEvent.report : HealthEvent → Option (CommitmentSlots × Option Nat)
  | .probed _ _ (.ok res round) => some (res.slots, round)
  | .orphaned slots round => some (slots, round)
  | .referenceProbed slots round => some (slots, round)
  | _ => none

/-- The slot and round of a probe of `name` whose leg for `c` succeeded. -/
def HealthEvent.sample : HealthEvent → Option (Nat × Option Nat)
  | .probed n _ (.ok res round) =>
    if n = name then (res.slots.get c).map (fun slot => (slot, round)) else none
  | _ => none

def HealthEvent.referenceSlot : HealthEvent → Option Nat
  | .referenceProbed slots _ => slots.get c
  | _ => none

def HealthEvent.adds : HealthEvent → Bool
  | .added provider _ => provider.name == name
  | _ => false

/-- The last such sample since the provider was added. -/
def lastSample (events : List HealthEvent) : Option (Nat × Option Nat) :=
  (events.reverse.takeWhile (!·.adds name)).findSome? (·.sample name c)

def lastReference (events : List HealthEvent) : Option Nat :=
  events.reverse.findSome? (·.referenceSlot c)

/-- The slots at `c` that anyone reported in round `r`. -/
def reportedIn (events : List HealthEvent) (r : Nat) : Set Nat :=
  {x | ∃ e ∈ events, ∃ slots, e.report = some (slots, some r) ∧ slots.get c = some x}

/-- The last slots at `c` of the current providers and the reference. -/
def latestSlots (events : List HealthEvent) (names : List String) : Set Nat :=
  {x | (∃ n ∈ names, ∃ r, lastSample n c events = some (x, r)) ∨ lastReference c events = some x}

end history

def observed (events : List HealthEvent) (r : Nat) : Prop :=
  ∃ e ∈ events, ∃ slots, e.report = some (slots, some r)

/-- A larger round that shares the ring slot of `r` has been observed. -/
def superseded (events : List HealthEvent) (r : Nat) : Prop :=
  ∃ r', observed events r' ∧ r < r' ∧ r' % tipRounds = r % tipRounds

@[simp] theorem lastSample_snoc (name : String) (c : Commitment) (events : List HealthEvent)
    (e : HealthEvent) : lastSample name c (events ++ [e]) =
      if e.adds name then none else (e.sample name c).or (lastSample name c events) := by
  unfold lastSample
  rw [List.reverse_append, List.reverse_singleton, List.singleton_append]
  by_cases h : e.adds name
  · simp [h]
  · cases hs : e.sample name c <;> simp [h, hs]

@[simp] theorem lastReference_snoc (c : Commitment) (events : List HealthEvent) (e : HealthEvent) :
    lastReference c (events ++ [e]) = (e.referenceSlot c).or (lastReference c events) := by
  unfold lastReference
  rw [List.reverse_append, List.reverse_singleton, List.singleton_append]
  cases hs : e.referenceSlot c <;> simp [hs]

theorem mem_reportedIn_snoc {c : Commitment} {events : List HealthEvent} {e : HealthEvent}
    {r x : Nat} : x ∈ reportedIn c (events ++ [e]) r ↔ x ∈ reportedIn c events r ∨
      ∃ slots, e.report = some (slots, some r) ∧ slots.get c = some x := by
  constructor
  · rintro ⟨d, hd, h⟩
    rcases List.mem_append.mp hd with hd | hd
    · exact Or.inl ⟨d, hd, h⟩
    · obtain rfl := List.mem_singleton.mp hd
      exact Or.inr h
  · rintro (⟨d, hd, h⟩ | h)
    · exact ⟨d, List.mem_append_left _ hd, h⟩
    · exact ⟨e, by simp, h⟩

theorem observed_snoc {events : List HealthEvent} {e : HealthEvent} {r : Nat} :
    observed (events ++ [e]) r ↔ observed events r ∨ ∃ slots, e.report = some (slots, some r) := by
  constructor
  · rintro ⟨d, hd, h⟩
    rcases List.mem_append.mp hd with hd | hd
    · exact Or.inl ⟨d, hd, h⟩
    · obtain rfl := List.mem_singleton.mp hd
      exact Or.inr h
  · rintro (⟨d, hd, h⟩ | h)
    · exact ⟨d, List.mem_append_left _ hd, h⟩
    · exact ⟨e, by simp, h⟩

section slots

variable (c : Commitment)

@[simp] theorem CommitmentSlots.get_merge (s new : CommitmentSlots) :
    (s.merge new).get c = (new.get c).or (s.get c) := by
  cases c with
  | processed => cases h : new.processed <;> simp [merge, get, h]
  | confirmed => cases h : new.confirmed <;> simp [merge, get, h]
  | finalized => cases h : new.finalized <;> simp [merge, get, h]

@[simp] theorem CommitmentRounds.get_stamp (r : CommitmentRounds) (slots : CommitmentSlots)
    (round : Option Nat) :
    (r.stamp slots round).get c = if (slots.get c).isSome then round else r.get c := by
  cases c <;> rfl

@[simp] theorem SlotTips.get_observe (t : SlotTips) (slots : CommitmentSlots) :
    (t.observe slots).get c = max (t.get c) ((slots.get c).getD 0) := by
  cases c <;> rfl

@[simp] theorem SlotTips.get_zero : ({} : SlotTips).get c = 0 := by
  cases c <;> rfl

@[simp] theorem CommitmentSlots.get_none : ({} : CommitmentSlots).get c = none := by
  cases c <;> rfl

end slots

/-- What one cell of the ring says about the rounds observed so far. -/
def CellHolds (events : List HealthEvent) (i : Fin tipRounds) : Option (Nat × SlotTips) → Prop
  | none => ∀ r, observed events r → RoundTips.index r ≠ i
  | some (r, t) => RoundTips.index r = i ∧ observed events r ∧
      (∀ r', observed events r' → RoundTips.index r' = i → r' ≤ r) ∧
      ∀ c, Tops (reportedIn c events r) (t.get c)

def RingHolds (events : List HealthEvent) (tips : RoundTips) : Prop :=
  ∀ i, CellHolds events i (tips i)

theorem RingHolds.unreported {events : List HealthEvent} {e : HealthEvent} {tips : RoundTips}
    (h : RingHolds events tips) (he : ∀ slots r, e.report ≠ some (slots, some r)) :
    RingHolds (events ++ [e]) tips := by
  have hobs : ∀ r, observed (events ++ [e]) r ↔ observed events r := by
    intro r
    simp [observed_snoc, he]
  have hrep : ∀ c r x, x ∈ reportedIn c (events ++ [e]) r ↔ x ∈ reportedIn c events r := by
    intro c r x
    simp [mem_reportedIn_snoc, he]
  intro i
  have hi := h i
  cases hc : tips i with
  | none =>
    rw [hc] at hi
    exact fun r hr => hi r ((hobs r).mp hr)
  | some cell =>
    rw [hc] at hi
    obtain ⟨hidx, ho, hmax, htop⟩ := hi
    exact ⟨hidx, (hobs _).mpr ho, fun r' hr' => hmax r' ((hobs r').mp hr'),
      fun c => (htop c).congr (hrep c _)⟩

section observe

variable {events : List HealthEvent} {e : HealthEvent} {slots : CommitmentSlots} {round : Nat}

theorem observed_reported (he : e.report = some (slots, some round)) {r : Nat} :
    observed (events ++ [e]) r ↔ observed events r ∨ r = round := by
  simp [observed_snoc, he, eq_comm]

theorem mem_reportedIn_same (he : e.report = some (slots, some round)) {c : Commitment} {x : Nat} :
    x ∈ reportedIn c (events ++ [e]) round ↔ x ∈ reportedIn c events round ∨
      slots.get c = some x := by
  simp [mem_reportedIn_snoc, he]

theorem mem_reportedIn_other (he : e.report = some (slots, some round)) {c : Commitment}
    {r x : Nat} (hr : r ≠ round) :
    x ∈ reportedIn c (events ++ [e]) r ↔ x ∈ reportedIn c events r := by
  simp [mem_reportedIn_snoc, he, hr.symm]

/-- The first report of a round larger than every round its cell has seen. -/
theorem CellHolds.fresh (he : e.report = some (slots, some round))
    (hnew : ∀ r, observed events r → RoundTips.index r = RoundTips.index round → r < round) :
    CellHolds (events ++ [e]) (RoundTips.index round)
      (some (round, ({} : SlotTips).observe slots)) := by
  refine ⟨rfl, (observed_reported he).mpr (Or.inr rfl), ?_, ?_⟩
  · intro r hr hi
    rcases (observed_reported he).mp hr with hr | rfl
    · exact (hnew r hr hi).le
    · exact le_rfl
  · intro c
    have hempty : ∀ x, x ∉ reportedIn c events round := by
      rintro x ⟨d, hd, slots', hd', -⟩
      exact lt_irrefl round (hnew round ⟨d, hd, slots', hd'⟩ rfl)
    have htop := (Tops.zero hempty).observe (slots.get c) (fun x => mem_reportedIn_same he)
    simpa using htop

theorem CellHolds.other (he : e.report = some (slots, some round)) {i : Fin tipRounds}
    {cell : Option (Nat × SlotTips)} (h : CellHolds events i cell)
    (hi : RoundTips.index round = i → ∃ r t, cell = some (r, t) ∧ round < r) :
    CellHolds (events ++ [e]) i cell := by
  cases cell with
  | none =>
    intro r hr hidx
    rcases (observed_reported he).mp hr with hr | rfl
    · exact h r hr hidx
    · obtain ⟨_, _, hc, -⟩ := hi hidx
      cases hc
  | some cell =>
    obtain ⟨hidx, ho, hmax, htop⟩ := h
    have hlt : RoundTips.index round = i → round < cell.1 := by
      intro hr
      obtain ⟨r, t, hc, hlt⟩ := hi hr
      obtain rfl := Option.some.inj hc
      exact hlt
    have hne : cell.1 ≠ round := by
      intro hr
      have hself := hlt (hr ▸ hidx)
      omega
    refine ⟨hidx, (observed_reported he).mpr (Or.inl ho), ?_, ?_⟩
    · intro r hr hri
      rcases (observed_reported he).mp hr with hr | rfl
      · exact hmax r hr hri
      · exact (hlt hri).le
    · exact fun c => (htop c).congr (fun x => mem_reportedIn_other he hne)

theorem CellHolds.again (he : e.report = some (slots, some round)) {t : SlotTips}
    (h : CellHolds events (RoundTips.index round) (some (round, t))) :
    CellHolds (events ++ [e]) (RoundTips.index round) (some (round, t.observe slots)) := by
  obtain ⟨-, -, hmax, htop⟩ := h
  refine ⟨rfl, (observed_reported he).mpr (Or.inr rfl), ?_, ?_⟩
  · intro r hr hri
    rcases (observed_reported he).mp hr with hr | rfl
    · exact hmax r hr hri
    · exact le_rfl
  · intro c
    rw [SlotTips.get_observe]
    exact (htop c).observe (slots.get c) (fun x => mem_reportedIn_same he)

theorem RingHolds.observe (he : e.report = some (slots, some round)) {tips : RoundTips}
    (h : RingHolds events tips) : RingHolds (events ++ [e]) (tips.observe round slots) := by
  intro i
  have hi := h (RoundTips.index round)
  unfold RoundTips.observe
  by_cases hr : i = RoundTips.index round
  · subst hr
    cases hc : tips (RoundTips.index round) with
    | none =>
      rw [hc] at hi
      dsimp only
      rw [Function.update_self]
      exact CellHolds.fresh he (fun r ho hidx => absurd hidx (hi r ho))
    | some cell =>
      obtain ⟨r, t⟩ := cell
      rw [hc] at hi
      by_cases heq : r = round
      · subst heq
        simpa using hi.again he
      · by_cases hlt : round < r
        · simpa [heq, hlt, hc] using hi.other he (fun _ => ⟨r, t, rfl, hlt⟩)
        · have hgt : r < round := by omega
          simpa [heq, hlt] using CellHolds.fresh he
            (fun r' ho hidx => (hi.2.2.1 r' ho hidx).trans_lt hgt)
  · have hsame := (h i).other he (fun hidx => absurd hidx.symm hr)
    cases hc : tips (RoundTips.index round) with
    | none => simpa [hr] using hsame
    | some cell =>
      dsimp only
      split_ifs
      · simpa [hr] using hsame
      · exact hsame
      · simpa [hr] using hsame

end observe

/-- What the ring answers for a round: the top of that round, until a larger one takes its
cell. -/
theorem RingHolds.get {events : List HealthEvent} {tips : RoundTips} (h : RingHolds events tips)
    {r : Nat} (ho : observed events r) :
    (superseded events r → tips.get r = none) ∧
      (¬ superseded events r → ∃ t, tips.get r = some t ∧
        ∀ c, Tops (reportedIn c events r) (t.get c)) := by
  have hi := h (RoundTips.index r)
  have hindex : ∀ r', RoundTips.index r' = RoundTips.index r ↔ r' % tipRounds = r % tipRounds :=
    fun r' => by simp [RoundTips.index]
  unfold RoundTips.get
  cases hc : tips (RoundTips.index r) with
  | none =>
    rw [hc] at hi
    exact absurd rfl (hi r ho)
  | some cell =>
    obtain ⟨r', t⟩ := cell
    rw [hc] at hi
    obtain ⟨hidx, ho', hmax, htop⟩ := hi
    have hle := hmax r ho rfl
    by_cases he : r' = r
    · subst he
      refine ⟨?_, fun _ => ⟨t, by simp, htop⟩⟩
      rintro ⟨r'', ho'', hlt, hmod⟩
      have hle' := hmax r'' ho'' ((hindex r'').mpr hmod)
      omega
    · refine ⟨fun _ => by simp [he], fun hs => ?_⟩
      exact absurd ⟨r', ho', by omega, (hindex r').mp hidx⟩ hs

theorem lastSample_reported {name : String} {c : Commitment} {events : List HealthEvent}
    {slot r : Nat} (h : lastSample name c events = some (slot, some r)) :
    slot ∈ reportedIn c events r := by
  obtain ⟨e, he, hs⟩ := List.exists_of_findSome?_eq_some h
  have hmem : e ∈ events := List.mem_reverse.mp ((List.takeWhile_sublist _).subset he)
  unfold HealthEvent.sample at hs
  split at hs
  · split at hs
    · obtain ⟨x, hx, heq⟩ := Option.map_eq_some_iff.mp hs
      obtain ⟨rfl, rfl⟩ := Prod.mk.inj heq
      exact ⟨_, hmem, _, rfl, hx⟩
    · cases hs
  · cases hs

/-- The slot a provider holds at `c` and the round it is stamped with. -/
def Inner.sampleAt (g : Inner) (c : Commitment) : Option (Nat × Option Nat) :=
  (g.slots.get c).map (fun slot => (slot, g.rounds.get c))

section inner

variable (g : Inner) (now : Instant) (latencyMs : ℚ) (cfg : HealthConfig) (c : Commitment)

theorem applyCircuitTransitions_sampleAt :
    (applyCircuitTransitions g now cfg).sampleAt c = g.sampleAt c := by
  unfold applyCircuitTransitions
  split
  · split_ifs <;> rfl
  · split
    · split_ifs <;> rfl
    · rfl
  · split <;> rfl

theorem Inner.pushSample_sampleAt (sample : Sample) (update : Bool) :
    (g.pushSample now sample latencyMs update cfg.windowSecs).sampleAt c = g.sampleAt c := by
  cases sample <;> rfl

@[simp] theorem Inner.record_sampleAt (success isProbe : Bool) :
    (g.record now success latencyMs isProbe cfg).sampleAt c = g.sampleAt c := by
  rw [record, applyCircuitTransitions_sampleAt, pushResult, pushSample_sampleAt]

@[simp] theorem Inner.recordThrottled_sampleAt :
    (g.recordThrottled now latencyMs cfg).sampleAt c = g.sampleAt c := by
  rw [recordThrottled, applyCircuitTransitions_sampleAt, pushSample_sampleAt]

end inner

def ProviderEntry.sampleAt (e : ProviderEntry) (c : Commitment) : Option (Nat × Option Nat) :=
  e.health.inner.sampleAt c

theorem ProviderEntry.updateSlotsInRound_sampleAt (e : ProviderEntry) (slots : CommitmentSlots)
    (round : Option Nat) (c : Commitment) :
    (e.updateSlotsInRound slots round).sampleAt c =
      ((slots.get c).map (fun slot => (slot, round))).or (e.sampleAt c) := by
  simp only [sampleAt, Inner.sampleAt, updateSlotsInRound, ProviderHealth.updateSlotsInRound,
    CommitmentSlots.get_merge, CommitmentRounds.get_stamp]
  cases slots.get c <;> simp

theorem Monitor.mem_update {m : Monitor} {name : String} {f : ProviderEntry → ProviderEntry}
    {e' : ProviderEntry} (h : e' ∈ (m.update name f).entries) :
    ∃ e ∈ m.entries, e' = if e.name = name then f e else e := by
  obtain ⟨e, he, rfl⟩ := List.mem_map.mp h
  exact ⟨e, he, rfl⟩

/-- Every entry after an event is an old one, with the sample of the event over its own, or
the provider just added. -/
inductive EntryStep (m : Monitor) (e : HealthEvent) (b : ProviderEntry) : Prop
  | kept (a : ProviderEntry) (hm : a ∈ m.entries) (hname : b.name = a.name)
    (hadds : e.adds a.name = false)
    (hs : ∀ c, b.sampleAt c = (e.sample a.name c).or (a.sampleAt c))
  | fresh (p : ProviderConfig) (now : Instant) (he : e = .added p now)
    (hb : b = ProviderEntry.new p now)

section quiet

variable {m : Monitor} {e : HealthEvent} (hadds : ∀ n, e.adds n = false)
  (hsample : ∀ n c, e.sample n c = none)

include hadds hsample

theorem Monitor.update_kept {name : String} {f : Inner → Inner}
    (hf : ∀ g c, (f g).sampleAt c = g.sampleAt c) {b : ProviderEntry}
    (h : b ∈ (m.update name (.mapInner f)).entries) : EntryStep m e b := by
  obtain ⟨a, ha, rfl⟩ := mem_update h
  by_cases hn : a.name = name
  · refine .kept a ha (by simp only [if_pos hn]; rfl) (hadds _) (fun c => ?_)
    simp only [if_pos hn, hsample, Option.none_or]
    exact hf a.health.inner c
  · exact .kept a ha (by simp [hn]) (hadds _) (by simp [hn, hsample])

theorem Monitor.record_kept {name : String} {now : Instant} {success isProbe : Bool}
    {latencyMs : ℚ} {cfg : HealthConfig} {b : ProviderEntry}
    (h : b ∈ (m.record name now success latencyMs isProbe cfg).entries) : EntryStep m e b :=
  update_kept hadds hsample
    (fun g c => g.record_sampleAt now latencyMs cfg c success isProbe) h

theorem Monitor.recordThrottled_kept {name : String} {now : Instant} {latencyMs : ℚ}
    {cfg : HealthConfig} {b : ProviderEntry}
    (h : b ∈ (m.recordThrottled name now latencyMs cfg).entries) : EntryStep m e b :=
  update_kept hadds hsample (fun g c => g.recordThrottled_sampleAt now latencyMs cfg c) h

end quiet

theorem Monitor.probed_kept {m : Monitor} {name : String} {now : Instant} {cfg : HealthConfig}
    {res : ProbeResult} {round : Option Nat} {b : ProviderEntry}
    (h : b ∈ (m.probed name now cfg (.ok res round)).entries) :
    EntryStep m (.probed name now (.ok res round)) b := by
  obtain ⟨a', ha', rfl⟩ := mem_update (m := (m.observeRound res.slots round).update name
    (.updateSlotsInRound res.slots round)) h
  obtain ⟨a, ha, rfl⟩ := mem_update ha'
  have hm : a ∈ m.entries := by cases round <;> exact ha
  by_cases hn : a.name = name
  · have hname : (a.updateSlotsInRound res.slots round).name = name := hn
    refine .kept a hm (by simp only [if_pos hn, hname, if_true]; exact hname.trans hn.symm)
      rfl (fun c => ?_)
    simp only [if_pos hn, hname, if_true]
    have hsample := a.updateSlotsInRound_sampleAt res.slots round c
    simpa [HealthEvent.sample, hn, ProviderEntry.mapInner, ProviderEntry.sampleAt] using hsample
  · have hn' : ¬ name = a.name := fun he => hn he.symm
    exact .kept a hm (by simp [hn]) rfl (by simp [hn, hn', HealthEvent.sample])

theorem Monitor.after_entries (m : Monitor) (cfg : HealthConfig) (e : HealthEvent)
    {b : ProviderEntry} (h : b ∈ (m.after cfg e).entries) : EntryStep m e b := by
  cases e with
  | probed name now result =>
    cases result with
    | ok res round => exact probed_kept h
    | rateLimited latencyMs => exact recordThrottled_kept (fun _ => rfl) (fun _ _ => rfl) h
    | failed latencyMs => exact record_kept (fun _ => rfl) (fun _ _ => rfl) h
  | orphaned slots round =>
    have hm : b ∈ m.entries := by cases round <;> exact h
    exact .kept b hm rfl rfl (fun _ => rfl)
  | referenceProbed slots round =>
    have hm : b ∈ m.entries := by cases round <;> exact h
    exact .kept b hm rfl rfl (fun _ => rfl)
  | added provider now =>
    rcases List.mem_append.mp h with h | h
    · obtain ⟨hm, hne⟩ := List.mem_filter.mp h
      have hn : b.name ≠ provider.name := by simpa using hne
      exact .kept b hm rfl (by simpa [HealthEvent.adds] using hn.symm) (fun _ => rfl)
    · exact .fresh provider now rfl (List.mem_singleton.mp h)
  | removed name => exact .kept b (List.mem_of_mem_filter h) rfl rfl (fun _ => rfl)
  | recorded name now outcome latencyMs =>
    cases outcome with
    | ok => exact record_kept (fun _ => rfl) (fun _ _ => rfl) h
    | providerError => exact record_kept (fun _ => rfl) (fun _ _ => rfl) h
    | rateLimited => exact recordThrottled_kept (fun _ => rfl) (fun _ _ => rfl) h
    | clientError => exact .kept b h rfl rfl (fun _ => rfl)
    | miss => exact .kept b h rfl rfl (fun _ => rfl)
    | behind => exact .kept b h rfl rfl (fun _ => rfl)
    | unsupported => exact .kept b h rfl rfl (fun _ => rfl)
  | snapshotted now =>
    obtain ⟨a, ha, rfl⟩ := List.mem_map.mp h
    exact .kept a ha rfl rfl (fun _ => rfl)

theorem Monitor.after_roundTips (m : Monitor) (cfg : HealthConfig) (e : HealthEvent) :
    (m.after cfg e).roundTips =
      match e.report with
      | some (slots, some r) => m.roundTips.observe r slots
      | _ => m.roundTips := by
  cases e with
  | probed name now result =>
    cases result with
    | ok res round => cases round <;> rfl
    | rateLimited latencyMs => rfl
    | failed latencyMs => rfl
  | orphaned slots round => cases round <;> rfl
  | referenceProbed slots round => cases round <;> rfl
  | recorded name now outcome latencyMs => cases outcome <;> rfl
  | added provider now => rfl
  | removed name => rfl
  | snapshotted now => rfl

theorem Monitor.after_reference (m : Monitor) (cfg : HealthConfig) (e : HealthEvent)
    (c : Commitment) : (m.after cfg e).referenceSlots.get c =
      (e.referenceSlot c).or (m.referenceSlots.get c) := by
  cases e with
  | probed name now result =>
    cases result with
    | ok res round => cases round <;> rfl
    | rateLimited latencyMs => rfl
    | failed latencyMs => rfl
  | orphaned slots round => cases round <;> rfl
  | referenceProbed slots round => exact CommitmentSlots.get_merge c _ _
  | recorded name now outcome latencyMs => cases outcome <;> rfl
  | added provider now => rfl
  | removed name => rfl
  | snapshotted now => rfl

/-- The monitor holds what the run reported. -/
structure DriftHistory (events : List HealthEvent) (m : Monitor) : Prop where
  ring : RingHolds events m.roundTips
  samples : ∀ e ∈ m.entries, ∀ c, e.sampleAt c = lastSample e.name c events
  reference : ∀ c, m.referenceSlots.get c = lastReference c events

theorem DriftHistory.start (providers : List ProviderConfig) (now : Instant) :
    DriftHistory [] (Monitor.new providers now) where
  ring := by
    rintro i r ⟨e, he, -⟩
    simp at he
  samples := by
    intro e he c
    obtain ⟨p, -, rfl⟩ := List.mem_map.mp he
    simp [ProviderEntry.sampleAt, Inner.sampleAt, ProviderEntry.new, lastSample]
  reference := fun c => CommitmentSlots.get_none c

theorem DriftHistory.step {events : List HealthEvent} {m : Monitor} (h : DriftHistory events m)
    (cfg : HealthConfig) (e : HealthEvent) :
    DriftHistory (events ++ [e]) (m.after cfg e) where
  ring := by
    rw [Monitor.after_roundTips]
    split
    · exact h.ring.observe ‹_›
    · rename_i hne
      exact h.ring.unreported (fun slots r he => hne slots r he)
  samples := by
    intro b hb c
    rw [lastSample_snoc]
    cases m.after_entries cfg e hb with
    | kept a ha hname hadds hs => rw [hs, h.samples a ha, hname, if_neg (by simp [hadds])]
    | fresh p now he hfresh =>
      subst he hfresh
      rw [if_pos (by simp [HealthEvent.adds, ProviderEntry.new, ProviderEntry.name])]
      simp [ProviderEntry.sampleAt, Inner.sampleAt, ProviderEntry.new]
  reference := by
    intro c
    rw [Monitor.after_reference, lastReference_snoc, h.reference]

theorem foldl_observe_tops (c : Commitment) (entries : List ProviderEntry) {t : SlotTips}
    {s : Set Nat} (h : Tops s (t.get c)) :
    Tops {x | x ∈ s ∨ ∃ e ∈ entries, e.health.inner.slots.get c = some x}
      ((entries.foldl (fun t e => t.observe e.health.inner.slots) t).get c) := by
  induction entries generalizing t s with
  | nil => exact h.congr (fun x => by simp)
  | cons e rest ih =>
    have hstep : Tops {x | x ∈ s ∨ e.health.inner.slots.get c = some x}
        ((t.observe e.health.inner.slots).get c) := by
      rw [SlotTips.get_observe]
      exact h.observe _ (fun x => Iff.rfl)
    refine (ih hstep).congr (fun x => ?_)
    simp only [Set.mem_ofPred_eq, List.mem_cons, exists_eq_or_imp, or_assoc]

theorem Monitor.tips_tops (m : Monitor) (c : Commitment) :
    Tops {x | (∃ e ∈ m.entries, e.health.inner.slots.get c = some x) ∨
      m.referenceSlots.get c = some x} (m.tips.get c) := by
  have hzero : Tops (∅ : Set Nat) (({} : SlotTips).get c) := by
    rw [SlotTips.get_zero]
    exact Tops.zero (fun x => Set.notMem_empty x)
  have hfold := foldl_observe_tops c m.entries hzero
  rw [Monitor.tips, SlotTips.get_observe]
  exact hfold.observe _ (fun x => by simp)

theorem ProviderEntry.sampleAt_slot {e : ProviderEntry} {c : Commitment} {x : Nat} :
    e.health.inner.slots.get c = some x ↔ ∃ r, e.sampleAt c = some (x, r) := by
  simp [sampleAt, Inner.sampleAt]

theorem DriftHistory.latest {events : List HealthEvent} {m : Monitor} (h : DriftHistory events m)
    (c : Commitment) : Tops (latestSlots c events m.names) (m.tips.get c) := by
  refine (m.tips_tops c).congr (fun x => ?_)
  simp only [latestSlots, Set.mem_ofPred_eq, h.reference, Monitor.names, List.mem_map,
    exists_exists_and_eq_and]
  apply or_congr_left
  constructor
  · rintro ⟨e, he, r, hr⟩
    exact ⟨e, he, ProviderEntry.sampleAt_slot.mpr ⟨r, (h.samples e he c).trans hr⟩⟩
  · rintro ⟨e, he, hx⟩
    obtain ⟨r, hr⟩ := ProviderEntry.sampleAt_slot.mp hx
    exact ⟨e, he, r, (h.samples e he c).symm.trans hr⟩

def HealthSnapshot.commitment (s : HealthSnapshot) : Commitment → CommitmentHealth
  | .processed => s.processed
  | .confirmed => s.confirmed
  | .finalized => s.finalized

theorem ProviderEntry.snapshot_commitment {e : ProviderEntry} {c : Commitment} {slot : Nat}
    {round : Option Nat} (h : e.sampleAt c = some (slot, round)) (tips : TipSource)
    (cfg : HealthConfig) (now : Instant) :
    ((e.snapshot tips cfg now).commitment c).slot = some slot ∧
      ((e.snapshot tips cfg now).commitment c).drift = tips c round - slot := by
  obtain ⟨x, hx, he⟩ := Option.map_eq_some_iff.mp h
  obtain ⟨rfl, rfl⟩ := Prod.mk.inj he
  have hdrift : e.health.inner.drift c tips = some (tips c (e.health.inner.rounds.get c) - x) := by
    rw [Inner.drift, hx, Option.map_some]
  have hc : (e.snapshot tips cfg now).commitment c =
      e.health.inner.commitmentHealth c tips cfg := by
    cases c <;> rfl
  rw [hc, Inner.commitmentHealth, hx, hdrift]
  exact ⟨rfl, rfl⟩

theorem DriftHistory.tip {events : List HealthEvent} {m : Monitor} (h : DriftHistory events m)
    {name : String} (hn : name ∈ m.names) {c : Commitment} {slot : Nat} {round : Option Nat}
    (hs : lastSample name c events = some (slot, round)) :
    let tip := TipBook.tip ⟨m.tips, m.roundTips⟩ c round
    (∀ r, round = some r → ¬ superseded events r → IsGreatest (reportedIn c events r) tip) ∧
      ((∀ r, round = some r → superseded events r) →
        IsGreatest (latestSlots c events m.names) tip) := by
  have hlatest : IsGreatest (latestSlots c events m.names) (m.tips.get c) :=
    (h.latest c).isGreatest (Or.inl ⟨name, hn, round, hs⟩)
  cases round with
  | none => exact ⟨by simp, fun _ => hlatest⟩
  | some r =>
    have hmem := lastSample_reported hs
    have ho : observed events r := by
      obtain ⟨e, he, slots, hr, -⟩ := hmem
      exact ⟨e, he, slots, hr⟩
    obtain ⟨hgone, hkept⟩ := h.ring.get ho
    refine ⟨?_, ?_⟩
    · rintro _ ⟨⟩ hns
      obtain ⟨t, ht, htop⟩ := hkept hns
      simpa [TipBook.tip, ht] using (htop c).isGreatest hmem
    · intro hsup
      simpa [TipBook.tip, hgone (hsup r rfl)] using hlatest

/-- After every run, the drift of a provider at a commitment is measured against the greatest
slot reported in the round of its last sample, or against the greatest latest slot when
there is no such round any more; the sample itself is among those slots. -/
theorem drift_like_with_like (cfg : HealthConfig) (start m : Monitor) (events : List HealthEvent)
    (hstart : (monitoring cfg).init start) (hrun : (monitoring cfg).run start events = some m)
    (now : Instant) (snap : HealthSnapshot) (hsnap : snap ∈ m.snapshots now cfg) (c : Commitment)
    (slot : Nat) (round : Option Nat) (hs : lastSample snap.name c events = some (slot, round)) :
    ∃ tip, (snap.commitment c).slot = some slot ∧ (snap.commitment c).drift = tip - slot ∧
      slot ≤ tip ∧
      (∀ r, round = some r → ¬ superseded events r → IsGreatest (reportedIn c events r) tip) ∧
      ((∀ r, round = some r → superseded events r) →
        IsGreatest (latestSlots c events m.names) tip) := by
  have hi : DriftHistory events m := by
    obtain ⟨providers, t, rfl⟩ := hstart
    refine System.invariant_history (DriftHistory.start providers t) ?_ hrun
    intro events m e m' _ hi he
    obtain rfl := Option.some.inj he
    exact hi.step cfg e
  obtain ⟨e, he, rfl⟩ := List.mem_map.mp hsnap
  have hn : e.name ∈ m.names := List.mem_map.mpr ⟨e, he, rfl⟩
  obtain ⟨hround, hlatest⟩ := hi.tip hn hs
  obtain ⟨hslot, hdrift⟩ := ProviderEntry.snapshot_commitment ((hi.samples e he c).trans hs)
    (TipBook.tip ⟨m.tips, m.roundTips⟩) cfg now
  refine ⟨_, hslot, hdrift, ?_, hround, hlatest⟩
  have hown : slot ∈ latestSlots c events m.names := Or.inl ⟨e.name, hn, round, hs⟩
  cases round with
  | none => exact (hlatest (by simp)).2 hown
  | some r =>
    by_cases hsup : superseded events r
    · exact (hlatest (by rintro _ ⟨⟩; exact hsup)).2 hown
    · exact (hround r rfl hsup).2 (lastSample_reported hs)

theorem drift_like_with_like_pair :
    let slots : Nat → CommitmentSlots := fun n => { processed := some n }
    let events : List HealthEvent := [.probed "a" 0 (.ok ⟨slots 100, 1⟩ (some 1)),
      .probed "b" 0 (.ok ⟨slots 103, 1⟩ (some 1))]
    ∃ m, (monitoring {}).run
        (Monitor.new [{ name := "a", url := "http://a" }, { name := "b", url := "http://b" }] 0)
        events = some m ∧
      ∃ snap ∈ m.snapshots 0 {}, snap.name = "a" ∧ ∃ tip, snap.processed.drift = tip - 100 ∧
        IsGreatest (reportedIn .processed events 1) tip := by
  intro slots events
  refine ⟨_, rfl, _, List.mem_cons_self, rfl, ?_⟩
  obtain ⟨tip, -, hdrift, -, hround, -⟩ := drift_like_with_like {}
    (Monitor.new [{ name := "a", url := "http://a" }, { name := "b", url := "http://b" }] 0) _
    events ⟨_, _, rfl⟩ rfl 0 _ List.mem_cons_self .processed 100 (some 1) (by decide)
  refine ⟨tip, hdrift, hround 1 rfl ?_⟩
  rintro ⟨r, ⟨e, he, reported, hr⟩, hlt, -⟩
  have hone : r = 1 := by
    rcases List.mem_cons.mp he with rfl | he
    · simpa [HealthEvent.report, eq_comm] using congrArg (Option.map Prod.snd) hr
    · obtain rfl := List.mem_singleton.mp he
      simpa [HealthEvent.report, eq_comm] using congrArg (Option.map Prod.snd) hr
  omega

end RpcPlane
