import RpcPlane.SlotHistory

/-! Drift under races: what a snapshot that is taken while probes complete measures a slot
against, and how far apart the probes were launched that it compares. -/

namespace RpcPlane

variable {interval : SkippingInterval} {cfg : HealthConfig} {s t : Sampling} {e : SamplingEvent}
  {reports reports' : List Report}

/-- What the round tips make of a report. -/
def Report.event (ρ : Report) : HealthEvent := .orphaned ρ.slots (some ρ.round)

/-- The slots at `c` that were reported in round `r`. -/
def reportedSlots (reports : List Report) (c : Commitment) (r : Nat) : Set Nat :=
  {x | ∃ ρ ∈ reports, ρ.round = r ∧ ρ.slots.get c = some x}

/-- A larger round that shares the ring slot of `r` has been reported. -/
def overtaken (reports : List Report) (r : Nat) : Prop :=
  ∃ ρ ∈ reports, r < ρ.round ∧ ρ.round % tipRounds = r % tipRounds

/-- The slots at `c` that a snapshot call has read. -/
def SnapshotCall.seenSlots (call : SnapshotCall) (c : Commitment) : Set Nat :=
  {x | ∃ slots ∈ call.seen, slots.get c = some x}

theorem mem_reportedIn_events {c : Commitment} {r x : Nat} :
    x ∈ reportedIn c (reports.map Report.event) r ↔ x ∈ reportedSlots reports c r := by
  constructor
  · rintro ⟨d, hd, slots, hr, hx⟩
    obtain ⟨ρ, hρ, rfl⟩ := List.mem_map.mp hd
    obtain ⟨rfl, hround⟩ := Prod.mk.inj (Option.some.inj hr)
    exact ⟨ρ, hρ, Option.some.inj hround, hx⟩
  · rintro ⟨ρ, hρ, rfl, hx⟩
    exact ⟨ρ.event, List.mem_map_of_mem hρ, ρ.slots, rfl, hx⟩

theorem observed_events {r : Nat} :
    observed (reports.map Report.event) r ↔ ∃ ρ ∈ reports, ρ.round = r := by
  constructor
  · rintro ⟨d, hd, slots, hr⟩
    obtain ⟨ρ, hρ, rfl⟩ := List.mem_map.mp hd
    obtain ⟨-, hround⟩ := Prod.mk.inj (Option.some.inj hr)
    exact ⟨ρ, hρ, Option.some.inj hround⟩
  · rintro ⟨ρ, hρ, rfl⟩
    exact ⟨ρ.event, List.mem_map_of_mem hρ, ρ.slots, rfl⟩

theorem superseded_events {r : Nat} :
    superseded (reports.map Report.event) r ↔ overtaken reports r := by
  constructor
  · rintro ⟨r', ho, hlt, hmod⟩
    obtain ⟨ρ, hρ, rfl⟩ := observed_events.mp ho
    exact ⟨ρ, hρ, hlt, hmod⟩
  · rintro ⟨ρ, hρ, hlt, hmod⟩
    exact ⟨ρ.round, observed_events.mpr ⟨ρ, hρ, rfl⟩, hlt, hmod⟩

/-- What a ring that holds the reports answers for a round, reported or not. -/
theorem RingHolds.answer {tips : RoundTips} (h : RingHolds (reports.map Report.event) tips)
    (r : Nat) :
    (∃ t, tips.get r = some t ∧ ∀ c, Tops (reportedSlots reports c r) (t.get c)) ∨
      tips.get r = none ∧ ((∀ ρ ∈ reports, ρ.round ≠ r) ∨ overtaken reports r) := by
  by_cases ho : observed (reports.map Report.event) r
  · obtain ⟨hgone, hkept⟩ := h.get ho
    by_cases hsup : superseded (reports.map Report.event) r
    · exact Or.inr ⟨hgone hsup, Or.inr (superseded_events.mp hsup)⟩
    · obtain ⟨t, ht, htops⟩ := hkept hsup
      exact Or.inl ⟨t, ht, fun c => (htops c).congr (fun x => mem_reportedIn_events.symm)⟩
  · refine Or.inr ⟨?_, Or.inl (fun ρ hρ hr => ho (observed_events.mpr ⟨ρ, hρ, hr⟩))⟩
    have hcell := h (RoundTips.index r)
    unfold RoundTips.get
    cases hc : tips (RoundTips.index r) with
    | none => rfl
    | some cell =>
      obtain ⟨r', t⟩ := cell
      rw [hc] at hcell
      have hne : r' ≠ r := fun hr => ho (hr ▸ hcell.2.1)
      simp [hne]

/-! What the state holds was reported. -/

structure SnapshotCall.Holds (reports : List Report) (call : SnapshotCall) : Prop where
  tips : ∀ c, Tops (call.seenSlots c) (call.tips.get c)
  book : ∀ rest book, call.phase = .snapping rest book → book.latest = call.tips ∧
    call.before ≤ reports.length ∧
    RingHolds ((reports.take call.before).map Report.event) book.rounds

structure Sampling.Sourced (s : Sampling) : Prop where
  ring : RingHolds (s.reports.map Report.event) s.roundTips
  calls : ∀ call ∈ s.calls, call.Holds s.reports

theorem SnapshotCall.Holds.mono {call : SnapshotCall} (h : call.Holds reports)
    (hr : reports <+: reports') : call.Holds reports' where
  tips := h.tips
  book := by
    intro rest book hp
    obtain ⟨hlatest, hle, hring⟩ := h.book rest book hp
    obtain ⟨more, rfl⟩ := hr
    refine ⟨hlatest, hle.trans (by simp), ?_⟩
    rw [List.take_append_of_le_length hle]
    exact hring

theorem Shared.observe_ring {s : Shared} (h : RingHolds (s.reports.map Report.event) s.roundTips)
    (k : Nat) (health : Option Nat) (launch : Launch) (slots : CommitmentSlots) :
    RingHolds ((s.observe k health launch slots).reports.map Report.event)
      (s.observe k health launch slots).roundTips := by
  unfold observe
  cases launch.round with
  | none => exact h
  | some round =>
    show RingHolds ((s.reports ++ [_]).map Report.event) _
    rw [List.map_append, List.map_singleton]
    exact h.observe rfl

theorem Sampler.Step.ring {k : Nat} {m m' : Sampler} {s s' : Shared}
    (h : m.Step interval cfg k s m' s') (hr : RingHolds (s.reports.map Report.event) s.roundTips) :
    RingHolds (s'.reports.map Report.event) s'.roundTips := by
  cases h with
  | observe launch res hp => exact Shared.observe_ring hr k m.health launch res.slots
  | tick | stop | launch | answered | missed | update | merge | record | skip => exact hr

theorem SnapshotCall.Holds.read {call : SnapshotCall} (h : call.Holds reports)
    (slots : CommitmentSlots) (c : Commitment) :
    Tops ((call.read slots).seenSlots c) ((call.read slots).tips.get c) := by
  show Tops _ ((call.tips.observe slots).get c)
  rw [SlotTips.get_observe]
  apply (h.tips c).observe
  intro x
  simp [seenSlots, SnapshotCall.read, or_and_right, exists_or]

theorem SnapshotCall.fillConfirmed_frame (call : SnapshotCall) :
    call.fillConfirmed.seen = call.seen ∧ call.fillConfirmed.tips = call.tips := by
  unfold fillConfirmed
  split <;> exact ⟨rfl, rfl⟩

theorem SnapshotCall.Holds.step {s : Shared} {call call' : SnapshotCall}
    (h : call.Holds s.reports) (hr : RingHolds (s.reports.map Report.event) s.roundTips)
    (ht : call.step cfg s = some call') : call'.Holds s.reports := by
  unfold SnapshotCall.step at ht
  split at ht
  · obtain ⟨g, -, rfl⟩ := Option.map_eq_some_iff.mp ht
    exact ⟨h.read g.inner.slots, fun rest book hp => by cases hp⟩
  · obtain rfl := Option.some.inj ht
    refine ⟨?_, fun rest book hp => by cases hp⟩
    intro c
    obtain ⟨hseen, htips⟩ := (call.read s.referenceSlots).fillConfirmed_frame
    have hread := h.read s.referenceSlots c
    unfold seenSlots at hread ⊢
    simp only [hseen, htips]
    exact hread
  · obtain rfl := Option.some.inj ht
    refine ⟨h.tips, ?_⟩
    intro rest book hp
    obtain ⟨-, rfl⟩ := SnapshotPhase.snapping.inj hp
    refine ⟨rfl, le_rfl, ?_⟩
    show RingHolds ((s.reports.take s.reports.length).map Report.event) s.roundTips
    rw [List.take_length]
    exact hr
  · rename_i hphase
    obtain ⟨g, -, rfl⟩ := Option.map_eq_some_iff.mp ht
    refine ⟨h.tips, ?_⟩
    intro rest book hp
    obtain ⟨-, rfl⟩ := SnapshotPhase.snapping.inj hp
    exact h.book _ _ hphase
  · cases ht

theorem SnapshotCall.Holds.new (reports : List Report) (handles : List Nat) :
    (SnapshotCall.new handles).Holds reports where
  tips := by
    intro c
    show Tops _ (({} : SlotTips).get c)
    rw [SlotTips.get_zero]
    apply Tops.zero
    rintro x ⟨slots, hslots, -⟩
    cases hslots
  book := by
    intro rest book hp
    cases hp

theorem Sampling.Sourced.step (h : s.Sourced) (ht : s.step interval cfg e = some t) :
    t.Sourced := by
  cases e with
  | loop k act =>
    obtain ⟨m, m', s', -, hstep, rfl⟩ := step_loop ht
    exact ⟨hstep.ring h.ring, fun call hcall => (h.calls call hcall).mono hstep.frame.2.2.2.2⟩
  | advance j =>
    obtain ⟨call, call', hcall, hstep, rfl⟩ := step_advance ht
    refine ⟨h.ring, ?_⟩
    intro other hother
    rcases List.mem_or_eq_of_mem_set hother with hother | rfl
    · exact h.calls other hother
    · exact (h.calls call (List.mem_of_getElem? hcall)).step h.ring hstep
  | collect =>
    obtain rfl := Option.some.inj ht
    refine ⟨h.ring, ?_⟩
    intro call hcall
    rcases List.mem_append.mp hcall with hcall | hcall
    · exact h.calls call hcall
    · obtain rfl := List.mem_singleton.mp hcall
      exact .new s.reports s.entries
  | start health =>
    obtain ⟨-, ht⟩ := eq_of_guard ht
    obtain rfl := Option.some.inj ht
    exact ⟨h.ring, h.calls⟩
  | insert i =>
    obtain ⟨-, ht⟩ := eq_of_guard ht
    obtain rfl := Option.some.inj ht
    exact ⟨h.ring, h.calls⟩
  | create | recorded | stop | wait | remove =>
    obtain rfl := Option.some.inj ht
    exact ⟨h.ring, h.calls⟩

theorem Sampling.Sourced.start (hs : (sampling interval cfg).init s) : s.Sourced := by
  obtain ⟨providers, now, rfl⟩ := hs
  refine ⟨?_, ?_⟩
  · rintro i r ⟨d, hd, -⟩
    cases hd
  · intro call hcall
    cases hcall

theorem sampling_sourced (hs : (sampling interval cfg).Reachable s) : s.Sourced :=
  System.invariant_reachable (fun _ => Sampling.Sourced.start) (fun _ _ _ h ht => h.step ht) hs

theorem sampling_timed (hs : (sampling interval cfg).Reachable s)
    (hup : s.now < s.grid.start + 2 ^ 64) : s.Timed := by
  apply System.invariant_reachable (T := sampling interval cfg)
    (I := fun s : Sampling => s.now < s.grid.start + 2 ^ 64 → s.Timed) _ _ hs hup
  · rintro s ⟨providers, now, rfl⟩ -
    refine ⟨?_, ?_, ?_, List.Pairwise.nil⟩
    · intro k m hm
      cases hm
    · intro ρ hρ
      cases hρ
    · intro ρ hρ
      cases hρ
  · intro s e t h ht hup
    obtain ⟨hle, hgrid, -⟩ := Sampling.step_mono ht
    have hnow : s.now < s.grid.start + 2 ^ 64 := by
      rw [hgrid] at hup
      exact hle.trans_lt hup
    exact (h hnow).step hup ht

/-- Whatever the loops are slowed down by, each samples a round of the grid at most once, and in
the order of the grid; every sample that counts for a round was launched within the slack of the
round's point. -/
theorem rounds_sampled_in_order (interval : SkippingInterval) (cfg : HealthConfig) (s : Sampling)
    (hs : (sampling interval cfg).Reachable s) (hup : s.now < s.grid.start + 2 ^ 64) :
    (∀ k, ((s.reports.filter (·.loop == k)).map (·.round)).Pairwise (· < ·)) ∧
      ∀ ρ ∈ s.reports, s.grid.point ρ.round ≤ ρ.launched ∧
        ρ.launched ≤ s.grid.point ρ.round + s.grid.slack := by
  have h := sampling_timed hs hup
  refine ⟨?_, h.launched⟩
  intro k
  rw [List.pairwise_map, List.pairwise_filter]
  apply h.ordered.imp
  intro a b hab ha hb
  exact hab ((beq_iff_eq.mp ha).trans (beq_iff_eq.mp hb).symm)

/-- The runtime's rule: what was missed by more than 5 ms is left out. -/
def SkippingInterval.tokio : SkippingInterval where
  next period deadline now :=
    if deadline + 5000000 < now then now + period - (now - deadline) % period
    else deadline + period
  next_eq := by
    intro period deadline now hp hd
    split_ifs with hmissed
    · have hmod := Nat.mod_lt (now - deadline) hp
      have hdiv := Nat.div_add_mod (now - deadline) period
      refine ⟨(now - deadline) / period, ?_⟩
      rw [Nat.add_mul, Nat.one_mul, Nat.mul_comm _ period]
      omega
    · exact ⟨0, by rw [Nat.zero_add, Nat.one_mul]⟩

def twoProbed : Sampling where
  now := 0
  grid := .new 1000 0
  healths := [⟨"a", {}⟩, ⟨"b", {}⟩]
  entries := [0, 1]

theorem twoProbed_init : (sampling .tokio {}).init twoProbed :=
  ⟨[{ name := "a", url := "http://a" }, { name := "b", url := "http://b" }], 0, rfl⟩

/-- Loop 1 waits for its first answer until round 2 is over and skips two ticks; `a` is replaced and
probed by loop 2 from then on. In round 3 a snapshot falls between the two writes of loop 1. -/
def racing : List SamplingEvent :=
  [.start (some 0), .start (some 1), .loop 0 .tick, .loop 0 .launch, .wait 2000000, .loop 1 .tick,
    .loop 1 .launch, .loop 0 (.answered ⟨{ processed := some 100 }, 1⟩), .loop 0 .observe,
    .loop 0 .update, .loop 0 .record, .wait 998000000, .loop 0 .tick, .loop 0 .launch,
    .loop 0 (.answered ⟨{ processed := some 103 }, 1⟩), .loop 0 .observe, .loop 0 .update,
    .loop 0 .record, .wait 1300000000,
    .loop 1 (.answered ⟨{ processed := some 99 }, 2298⟩), .loop 1 .observe, .loop 1 .update,
    .loop 1 .record, .loop 1 .tick, .loop 1 .launch,
    .loop 1 (.answered ⟨{ processed := some 106 }, 1⟩), .loop 1 .observe, .loop 1 .update,
    .loop 1 .record,
    .create { name := "a", url := "http://a2" }, .insert 2, .stop 0, .start (some 2), .loop 2 .tick,
    .loop 2 .launch, .loop 2 (.answered ⟨{ processed := some 101 }, 5⟩), .loop 2 .observe,
    .loop 2 .update, .loop 2 .record, .wait 700000000,
    .loop 0 .tick, .loop 0 .launch, .loop 1 .tick, .loop 1 .launch, .wait 20000000, .loop 2 .tick,
    .loop 2 .launch, .loop 2 (.answered ⟨{ processed := some 107 }, 1⟩), .loop 2 .observe,
    .loop 2 .update, .loop 2 .record, .loop 1 (.answered ⟨{ processed := some 110 }, 20⟩),
    .loop 1 .observe,
    .collect, .advance 0, .advance 0, .advance 0, .advance 0, .advance 0]

theorem rounds_sampled_in_order_racing :
    ∃ s, (sampling .tokio {}).run twoProbed racing = some s ∧
      s.reports.map (fun ρ => (ρ.loop, ρ.launched, ρ.round)) =
        [(0, 0, 0), (0, 1000000000, 1), (1, 2000000, 0), (2, 3020000000, 3), (1, 3000000000, 3)] ∧
      (∀ k, ((s.reports.filter (·.loop == k)).map (·.round)).Pairwise (· < ·)) ∧
      ∀ ρ ∈ s.reports, s.grid.point ρ.round ≤ ρ.launched ∧
        ρ.launched ≤ s.grid.point ρ.round + s.grid.slack := by
  have hrun : ((sampling .tokio {}).run twoProbed racing).map (fun s => (s.now, s.grid.start,
      s.reports.map (fun ρ => (ρ.loop, ρ.launched, ρ.round)))) = some (3020000000, 0,
        [(0, 0, 0), (0, 1000000000, 1), (1, 2000000, 0), (2, 3020000000, 3), (1, 3000000000, 3)]) := by
    decide +kernel
  obtain ⟨s, hs, hstate⟩ := Option.map_eq_some_iff.mp hrun
  obtain ⟨hnow, hstart⟩ := Prod.mk.inj hstate
  obtain ⟨hzero, hreports⟩ := Prod.mk.inj hstart
  exact ⟨s, hs, hreports, rounds_sampled_in_order .tokio {} s ⟨_, racing, twoProbed_init, hs⟩
    (by rw [hnow, hzero]; decide)⟩

/-- Samples of one round were launched within the slack of each other. -/
theorem Sampling.Timed.together (h : s.Timed) {a b : Report} (ha : a ∈ s.reports)
    (hb : b ∈ s.reports) (hab : a.round = b.round) : a.launched ≤ b.launched + s.grid.slack := by
  have hupper := (h.launched a ha).2
  have hlower := (h.launched b hb).1
  rw [hab] at hupper
  omega

/-- The health, with its number, that a snapshot call is about to take the snapshot of. -/
def Sampling.due (s : Sampling) (j : Nat) : Option (Nat × ProviderHealth) :=
  match s.calls[j]? with
  | some call =>
    match call.phase with
    | .snapping (i :: _) _ => (s.healths[i]?).map (fun h => (i, h))
    | _ => none
  | none => none

theorem Sampling.of_due {i j : Nat} {h : ProviderHealth} (hdue : s.due j = some (i, h)) :
    ∃ call rest book, s.calls[j]? = some call ∧ call.phase = .snapping (i :: rest) book ∧
      s.healths[i]? = some h := by
  unfold due at hdue
  split at hdue
  · split at hdue
    · obtain ⟨g, hg, heq⟩ := Option.map_eq_some_iff.mp hdue
      obtain ⟨rfl, rfl⟩ := Prod.mk.inj heq
      exact ⟨_, _, _, ‹_›, ‹_›, hg⟩
    · cases hdue
  · cases hdue

/-- A provider's snapshot, taken while probes go on completing, shows as drift how far its slot is
behind a tip. The slot and its round are those of the last update that the provider's own probes
made at this commitment. Either the tip is the top of what had been reported in that round when
the round tips were copied, and every sample reported in it was launched within the slack of that
same probe; or it is the top of the slots that the call has read, and the sample has no round, or
none that the copy could still tell of. -/
theorem drift_of_one_moment (interval : SkippingInterval) (cfg : HealthConfig) (s₀ s : Sampling)
    (es : List SamplingEvent) (hinit : (sampling interval cfg).init s₀)
    (hrun : (sampling interval cfg).run s₀ es = some s) (hup : s.now < s.grid.start + 2 ^ 64)
    {i j : Nat} {h : ProviderHealth} (hdue : s.due j = some (i, h)) (c : Commitment) {slot : Nat}
    (hslot : h.inner.slots.get c = some slot) :
    ∃ call t snap tip last, s.calls[j]? = some call ∧ s.step interval cfg (.advance j) = some t ∧
      (t.calls[j]?).map (·.snapshots) = some (call.snapshots ++ [snap]) ∧ snap.name = h.name ∧
      (snap.commitment c).slot = some slot ∧ (snap.commitment c).drift = tip - slot ∧
      lastUpdate c (slotUpdates interval cfg i s₀ es) = some last ∧
      last.slots.get c = some slot ∧ h.inner.rounds.get c = last.launch.round ∧
      ((∃ own ∈ s.reports, last.report i = some own ∧ own.health = some i ∧
          own.slots.get c = some slot ∧ h.inner.rounds.get c = some own.round ∧
          Tops (reportedSlots (s.reports.take call.before) c own.round) tip ∧
          ∀ ρ ∈ s.reports, ρ.round = own.round → ρ.launched ≤ own.launched + s.grid.slack ∧
            own.launched ≤ ρ.launched + s.grid.slack) ∨
        Tops (call.seenSlots c) tip ∧ ∀ r, last.launch.round = some r →
          (∀ ρ ∈ s.reports.take call.before, ρ.round ≠ r) ∨
            overtaken (s.reports.take call.before) r) := by
  have hs : (sampling interval cfg).Reachable s := ⟨s₀, es, hinit, hrun⟩
  have htimed := sampling_timed hs hup
  have htracks := sampling_tracks hinit hrun
  obtain ⟨call, rest, book, hcall, hphase, hi⟩ := Sampling.of_due hdue
  have hholds := (sampling_sourced hs).calls call (List.mem_of_getElem? hcall)
  obtain ⟨hlatest, -, hring⟩ := hholds.book _ _ hphase
  have hsample : h.inner.sampleAt c = some (slot, h.inner.rounds.get c) := by
    rw [Inner.sampleAt, hslot, Option.map_some]
  obtain ⟨last, hmem, hlast, hget, hround⟩ :=
    updatedSample_eq_some ((htracks.samples i h hi c).symm.trans hsample)
  obtain ⟨call', hstep, hshots⟩ : ∃ call', call.step cfg s.toShared = some call' ∧
      call'.snapshots = call.snapshots ++ [h.snapshot book.tip cfg] := by
    refine ⟨{ call with
      phase := .snapping rest book
      snapshots := call.snapshots ++ [h.snapshot book.tip cfg] }, ?_, rfl⟩
    simp [SnapshotCall.step, hphase, hi]
  have hj : j < s.calls.length := (List.getElem?_eq_some_iff.mp hcall).1
  obtain ⟨hshown, hdrift⟩ := ProviderEntry.snapshot_commitment (e := ⟨h, none⟩) hsample book.tip
    cfg 0
  refine ⟨call, { s with calls := s.calls.set j call' }, h.snapshot book.tip cfg,
    book.tip c (h.inner.rounds.get c), last, hcall, ?_, ?_, rfl, hshown, hdrift, hlast, hget,
    hround.symm, ?_⟩
  · simp only [Sampling.step, hcall, hstep, Option.map_some]
  · show ((s.calls.set j call')[j]?).map (·.snapshots) = _
    rw [List.getElem?_set_self hj, Option.map_some, hshots]
  have hfallback : Tops (call.seenSlots c) (book.latest.get c) := by
    rw [hlatest]
    exact hholds.tips c
  rw [← hround]
  cases hr : last.launch.round with
  | none =>
    refine Or.inr ⟨hfallback, ?_⟩
    intro r hnone
    cases hnone
  | some r =>
    rcases hring.answer r with ⟨t, ht, htops⟩ | ⟨hnone, hwhy⟩
    · left
      let own : Report := ⟨last.loop, some i, last.launch.launched, r, last.slots⟩
      have hreport : last.report i = some own := by
        simp [SlotUpdate.report, Launch.report, hr, own]
      have hown : own ∈ s.reports := htracks.reported i last hmem own hreport
      refine ⟨own, hown, hreport, rfl, hget, rfl, ?_, ?_⟩
      · have htip : book.tip c (some r) = t.get c := by simp [TipBook.tip, ht]
        rw [htip]
        exact htops c
      · intro ρ hρ hsame
        exact ⟨htimed.together hρ hown hsame, htimed.together hown hρ hsame.symm⟩
    · right
      have htip : book.tip c (some r) = book.latest.get c := by simp [TipBook.tip, hnone]
      refine ⟨htip ▸ hfallback, ?_⟩
      rintro _ ⟨⟩
      exact hwhy

/-- The snapshot of `a` has the slot of its second probe, in round 3, and is measured against the
slot that loop 1 has reported in that round and not yet written. -/
theorem drift_of_one_moment_racing :
    ∃ (s t : Sampling) (h : ProviderHealth) (snap : HealthSnapshot) (last : SlotUpdate),
      (sampling .tokio {}).run twoProbed racing = some s ∧ s.due 0 = some (2, h) ∧
      s.step .tokio {} (.advance 0) = some t ∧ snap.name = "a" ∧
      (snap.commitment .processed).slot = some 107 ∧ (snap.commitment .processed).drift = 3 ∧
      (slotUpdates .tokio {} 2 twoProbed racing).length = 2 ∧
      lastUpdate .processed (slotUpdates .tokio {} 2 twoProbed racing) = some last ∧
      h.inner.rounds.get .processed = last.launch.round ∧ last.launch.round = some 3 := by
  have hrun : ((sampling .tokio {}).run twoProbed racing).bind (fun s => (s.due 0).map (fun p =>
      (p.1, p.2.name, p.2.inner.sampleAt .processed))) = some (2, "a", some (107, some 3)) := by
    decide +kernel
  have htime : ((sampling .tokio {}).run twoProbed racing).map (fun s => (s.now, s.grid.start)) =
      some (3020000000, 0) := by decide +kernel
  have hnext : ((sampling .tokio {}).run twoProbed (racing ++ [.advance 0])).map (fun t =>
      (t.calls[0]?).map (fun call => call.snapshots.map (fun snap =>
        (snap.commitment .processed).drift))) = some (some [1, 3]) := by decide +kernel
  have hcount : (slotUpdates .tokio {} 2 twoProbed racing).length = 2 := by decide +kernel
  obtain ⟨s, hs, hstate⟩ := Option.bind_eq_some_iff.mp hrun
  obtain ⟨⟨i, h⟩, hdue, hstate⟩ := Option.map_eq_some_iff.mp hstate
  simp only [Prod.mk.injEq] at hstate
  obtain ⟨rfl, hname, hsample⟩ := hstate
  rw [hs, Option.map_some] at htime
  obtain ⟨hnow, hzero⟩ := Prod.mk.inj (Option.some.inj htime)
  obtain ⟨slot, hslot, heq⟩ := Option.map_eq_some_iff.mp hsample
  obtain ⟨rfl, hround⟩ := Prod.mk.inj heq
  obtain ⟨call, t, snap, tip, last, -, ht, hshots, hsnap, hshown, -, hlast, -, hrounds, -⟩ :=
    drift_of_one_moment .tokio {} twoProbed s racing twoProbed_init hs
      (by rw [hnow, hzero]; decide) hdue .processed hslot
  have hdrift : (snap.commitment .processed).drift = 3 := by
    have hstep : (sampling .tokio {}).step s (.advance 0) = some t := ht
    rw [System.run_snoc, hs, Option.bind_some, hstep, Option.map_some] at hnext
    obtain ⟨other, hother, hdrifts⟩ := Option.map_eq_some_iff.mp (Option.some.inj hnext)
    rw [hother, Option.map_some] at hshots
    rw [Option.some.inj hshots, List.map_append] at hdrifts
    simpa using congrArg List.getLast? hdrifts
  exact ⟨s, t, h, snap, last, hs, hdue, ht, hsnap.trans hname, hshown, hdrift, hcount, hlast,
    hrounds, hrounds.symm.trans hround⟩

end RpcPlane
