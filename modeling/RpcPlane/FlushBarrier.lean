import RpcPlane.FlushLaw

/-! When a completed `flush_and_wait` means that what came before the call was sent. A call
that registers while a flush is past its drain is completed by that flush. -/

namespace RpcPlane

variable {config : ReportingConfig} {s t : Flusher} {e : FlusherEvent} {w : Waiter}

/-- What the calls of `send_batch` that have returned were given. -/
def Flusher.sent (s : Flusher) : List BatchItem := (s.handed.take s.returned).flatten

/-- Everything recorded and everything accepted before the call of `w` has been sent. -/
def Flusher.Delivered (s : Flusher) (w : Waiter) : Prop :=
  (∀ k ∈ s.recordedIn.take w.records, k < s.aggregation.drains.length ∧
    (s.aggregation.drains.take (k + 1)).flatMap (·.events) <+:
      s.sent.filterMap (·.ofAggregator)) ∧
  s.accepted.take w.accepted <+: s.sent.filterMap (·.ofChannel)

/-- A call that registers in a flush past its drain comes in time only if the aggregator holds
nothing, and once the batch is with `send_batch` only if the channel holds nothing either. -/
def Flusher.Timely (s : Flusher) : FlusherEvent → Prop
  | .register _ => s.phase.branch = some .flush →
    (2 ≤ s.phase.stage → s.aggregation.state.IsEmpty) ∧ (3 ≤ s.phase.stage → s.queue = [])
  | _ => True

instance AggState.decidableIsEmpty (a : AggState) : Decidable a.IsEmpty :=
  decidable_of_iff (a.buckets.entries = [] ∧ a.txBuckets.entries = [])
    (and_congr (@AList.ext_iff _ _ a.buckets ∅).symm (@AList.ext_iff _ _ a.txBuckets ∅).symm)

instance Flusher.decidableTimely (s : Flusher) : ∀ e, Decidable (s.Timely e)
  | .register _ => inferInstanceAs (Decidable (_ → (_ → AggState.IsEmpty _) ∧ (_ → _ = [])))
  | .emit _ | .record .. | .recordTransaction .. | .notify | .close | .receive | .disconnected
  | .tick | .notified | .drain .. | .tryRecv | .posted _ | .wake => isTrue trivial

structure Flusher.Grows (s t : Flusher) : Prop where
  recorded : s.recordedIn <+: t.recordedIn
  drains : s.aggregation.drains <+: t.aggregation.drains
  accepted : s.accepted <+: t.accepted
  sent : s.sent <+: t.sent

theorem Flusher.Grows.refl (s : Flusher) : s.Grows s where
  recorded := List.prefix_rfl
  drains := List.prefix_rfl
  accepted := List.prefix_rfl
  sent := List.prefix_rfl

theorem Flusher.Grows.hand (s : Flusher) (b : Branch) : s.Grows (s.hand b) where
  recorded := List.prefix_rfl
  drains := List.prefix_rfl
  accepted := List.prefix_rfl
  sent := ((List.prefix_append s.handed [s.batch]).take s.returned).flatten

theorem Flusher.step_grows (h : s.step config e = some t) : s.Grows t := by
  cases Flusher.step_move h with
  | emitted ho => exact { Flusher.Grows.refl s with accepted := List.prefix_append .. }
  | dropped => exact .refl s
  | record ho => exact { Flusher.Grows.refl s with recorded := List.prefix_append .. }
  | recordTransaction ho => exact { Flusher.Grows.refl s with recorded := List.prefix_append .. }
  | notify => exact { Flusher.Grows.refl s with }
  | register ho => exact { Flusher.Grows.refl s with }
  | close => exact { Flusher.Grows.refl s with }
  | received hp hq => exact { Flusher.Grows.refl s with }
  | receivedFull hp hq => exact { Flusher.Grows.hand { s with batch := s.batch ++ [_] } .received with }
  | disconnected hp hq hc => exact { Flusher.Grows.refl s with }
  | tick hp => exact { Flusher.Grows.refl s with }
  | notified hp => exact { Flusher.Grows.refl s with }
  | drain hp => exact { Flusher.Grows.refl s with drains := List.prefix_append .. }
  | tried hp hq => exact { Flusher.Grows.refl s with }
  | nothing hp hq hb => exact { Flusher.Grows.refl s with }
  | hand hp hq => exact .hand s _
  | posted hp =>
    exact { Flusher.Grows.refl s with
      sent := (List.take_prefix_take_left (Nat.le_succ s.returned)).flatten }
  | wake hp => exact { Flusher.Grows.refl s with }

theorem take_eq_of_grown {α : Type} {l m : List α} {n : Nat} (h : l <+: m) (hn : n ≤ l.length) :
    m.take n = l.take n := by
  obtain ⟨rest, rfl⟩ := h
  exact List.take_append_of_le_length hn

theorem Flusher.Delivered.mono (h : s.Delivered w) (hg : s.Grows t)
    (hr : w.records ≤ s.recordedIn.length) (ha : w.accepted ≤ s.accepted.length) :
    t.Delivered w := by
  refine ⟨?_, ?_⟩
  · intro k hk
    rw [take_eq_of_grown hg.recorded hr] at hk
    obtain ⟨hlt, hsent⟩ := h.1 k hk
    refine ⟨hlt.trans_le hg.drains.length_le, ?_⟩
    rw [take_eq_of_grown hg.drains hlt]
    exact hsent.trans (hg.sent.filterMap _)
  · rw [take_eq_of_grown hg.accepted ha]
    exact h.2.trans (hg.sent.filterMap _)

/-- The branches that wake the waiters. -/
def FlushPhase.Wakes (p : FlushPhase) : Prop := p.branch = some .flush ∨ p.branch = some .final

/-- What every step keeps. From its drain on, a branch that wakes has drained what the waiters
recorded, and from its send on it has handed over what they emitted. -/
structure Flusher.Barrier (s : Flusher) : Prop where
  waking : s.phase.stage = 4 → s.phase.Wakes
  returned : s.phase.stage ≠ 3 → s.returned = s.handed.length
  sending : s.phase.stage = 3 → s.returned + 1 = s.handed.length
  recorded : ∀ k ∈ s.recordedIn, k ≤ s.aggregation.drains.length
  pending : s.aggregation.state.IsEmpty → ∀ k ∈ s.recordedIn, k < s.aggregation.drains.length
  known : ∀ w ∈ s.waiters ++ s.completed,
    w.records ≤ s.recordedIn.length ∧ w.accepted ≤ s.accepted.length
  drained : s.phase.Wakes → 2 ≤ s.phase.stage → ∀ w ∈ s.waiters,
    ∀ k ∈ s.recordedIn.take w.records, k < s.aggregation.drains.length
  taken : s.phase.Wakes → 3 ≤ s.phase.stage → ∀ w ∈ s.waiters,
    w.accepted ≤ (s.handed.flatten.filterMap (·.ofChannel)).length
  delivered : ∀ w ∈ s.completed, s.Delivered w

theorem Flusher.Barrier.start (startMs : Nat) : (Flusher.start startMs).Barrier where
  waking := by simp [Flusher.start, FlushPhase.stage]
  returned _ := rfl
  sending := by simp [Flusher.start, FlushPhase.stage]
  recorded := by simp [Flusher.start]
  pending := by simp [Flusher.start]
  known := by simp [Flusher.start]
  drained := by simp [Flusher.start]
  taken := by simp [Flusher.start]
  delivered := by simp [Flusher.start]

theorem Flusher.Barrier.delivered_of (h : s.Barrier) (hg : s.Grows t) :
    ∀ w ∈ s.completed, t.Delivered w := by
  intro w hw
  obtain ⟨hr, ha⟩ := h.known w (List.mem_append_right _ hw)
  exact (h.delivered w hw).mono hg hr ha

theorem Flusher.Barrier.known_of (h : s.Barrier) (hg : s.Grows t) : ∀ w ∈ s.waiters ++ s.completed,
    w.records ≤ t.recordedIn.length ∧ w.accepted ≤ t.accepted.length := by
  intro w hw
  obtain ⟨hr, ha⟩ := h.known w hw
  exact ⟨hr.trans hg.recorded.length_le, ha.trans hg.accepted.length_le⟩

theorem insert_ne_empty {κ β : Type} [DecidableEq κ] (m : KeyMap κ β) (k : κ) (b : β) :
    AList.insert k b m ≠ ∅ := by
  intro he
  have hk : k ∈ AList.insert k b m := (AList.mem_insert m).mpr (Or.inl rfl)
  rw [he] at hk
  exact AList.notMem_empty k hk

theorem AggState.record_not_empty (a : AggState) (key : RequestKey) (latencyMs : ℚ) (count : Nat) :
    ¬ (a.record key latencyMs count).IsEmpty :=
  fun h => insert_ne_empty _ _ _ h.1

theorem AggState.recordTransaction_not_empty (a : AggState) (provider : String)
    (call : TransactionRecord) : ¬ (a.recordTransaction provider call).IsEmpty :=
  fun h => insert_ne_empty _ _ _ h.2

/-- A record goes into the window that the next drain closes. -/
theorem Flusher.Barrier.recorded_step (h : s.Barrier) {call : AggCall}
    (hd : (s.aggregation.after call).drains = s.aggregation.drains)
    (he : ¬ (s.aggregation.after call).state.IsEmpty) (hg : s.Grows (s.recorded call)) :
    (s.recorded call).Barrier where
  waking := h.waking
  returned := h.returned
  sending := h.sending
  recorded := by
    intro k hk
    show k ≤ (s.aggregation.after call).drains.length
    rw [hd]
    obtain hk | hk := List.mem_append.mp hk
    · exact h.recorded k hk
    · exact (List.mem_singleton.mp hk).le
  pending hp := absurd hp he
  known := h.known_of hg
  drained := by
    intro hw hs w hm k hk
    rw [take_eq_of_grown hg.recorded (h.known w (List.mem_append_left _ hm)).1] at hk
    show k < (s.aggregation.after call).drains.length
    rw [hd]
    exact h.drained hw hs w hm k hk
  taken := h.taken
  delivered := h.delivered_of hg

theorem Flusher.Barrier.emitted_step (h : s.Barrier) {event : TelemetryEvent}
    (hg : s.Grows { s with queue := s.queue ++ [event], accepted := s.accepted ++ [event] }) :
    { s with queue := s.queue ++ [event], accepted := s.accepted ++ [event] }.Barrier where
  waking := h.waking
  returned := h.returned
  sending := h.sending
  recorded := h.recorded
  pending := h.pending
  known := h.known_of hg
  drained := h.drained
  taken := h.taken
  delivered := h.delivered_of hg

/-- The new waiter counts the whole histories, which must be past the point the flush is at. -/
theorem Flusher.Barrier.register_step (h : s.Barrier) (hk : s.Keeps) (ho : s.closed = false)
    {id : Nat} (ht : s.Timely (.register id)) (hg : s.Grows { s with
      waiters := s.waiters ++ [⟨id, s.recordedIn.length, s.accepted.length⟩] }) :
    ({ s with waiters := s.waiters ++ [⟨id, s.recordedIn.length, s.accepted.length⟩] } :
      Flusher).Barrier := by
  have hflush : s.phase.Wakes → s.phase.branch = some .flush := by
    rintro (hf | hf)
    · exact hf
    · exact absurd hf (hk.open_branch ho)
  refine ⟨h.waking, h.returned, h.sending, h.recorded, h.pending, ?_, ?_, ?_, h.delivered_of hg⟩
  · intro w hw
    simp only [List.append_assoc, List.mem_append, List.mem_singleton] at hw
    obtain hw | rfl | hw := hw
    · exact h.known w (List.mem_append_left _ hw)
    · exact ⟨le_rfl, le_rfl⟩
    · exact h.known w (List.mem_append_right _ hw)
  · intro hw hs w hm k hk
    obtain hm | hm := List.mem_append.mp hm
    · exact h.drained hw hs w hm k hk
    · obtain rfl := List.mem_singleton.mp hm
      exact h.pending ((ht (hflush hw)).1 hs) k (List.mem_of_mem_take hk)
  · intro hw hs w hm
    obtain hm | hm := List.mem_append.mp hm
    · exact h.taken hw hs w hm
    · obtain rfl := List.mem_singleton.mp hm
      have hb : s.batch = [] := hk.sent hs
      have hq : s.queue = [] := (ht (hflush hw)).2 hs
      have hc := hk.channel
      rw [Flusher.batched, hb, hq, List.append_nil, List.append_nil] at hc
      exact (congrArg List.length hc).ge

theorem Flusher.Barrier.drain_step (h : s.Barrier) {now : Nat} {order : DrainOrder} {b : Branch}
    (hp : s.phase = .collecting b) {batch : List BatchItem}
    (hg : s.Grows { s with
      batch := batch, aggregation := s.aggregation.after (.drain now order)
      phase := .receiving b }) :
    { s with
      batch := batch, aggregation := s.aggregation.after (.drain now order)
      phase := .receiving b }.Barrier := by
  have hlt : ∀ k ∈ s.recordedIn, k < (s.aggregation.after (.drain now order)).drains.length := by
    intro k hk
    have hle := h.recorded k hk
    simp only [Aggregation.after, List.length_append, List.length_singleton]
    omega
  refine ⟨?_, ?_, ?_, ?_, fun _ => hlt, h.known_of hg, ?_, ?_, h.delivered_of hg⟩
  · intro hs
    exact absurd hs (by simp [FlushPhase.stage])
  · intro _
    exact h.returned (by rw [hp]; simp [FlushPhase.stage])
  · intro hs
    exact absurd hs (by simp [FlushPhase.stage])
  · intro k hk
    exact (hlt k hk).le
  · intro _ _ w _ k hk
    exact hlt k (List.mem_of_mem_take hk)
  · intro _ hs
    exact absurd hs (by simp [FlushPhase.stage])

theorem Flusher.Barrier.hand_step (h : s.Barrier) {b : Branch} (hs : s.phase.stage ≠ 3)
    (hd : (s.hand b).phase.Wakes → ∀ w ∈ s.waiters,
      ∀ k ∈ s.recordedIn.take w.records, k < s.aggregation.drains.length)
    (ha : (s.hand b).phase.Wakes → s.batched.filterMap (·.ofChannel) = s.accepted)
    (hg : s.Grows (s.hand b)) : (s.hand b).Barrier := by
  refine ⟨?_, ?_, ?_, h.recorded, h.pending, h.known, ?_, ?_, h.delivered_of hg⟩
  · intro h4
    exact absurd h4 (by simp [Flusher.hand, FlushPhase.stage])
  · intro hne
    exact absurd rfl hne
  · intro _
    rw [Flusher.hand, List.length_append, ← h.returned hs]
    rfl
  · intro hw _
    exact hd hw
  · intro hw _ w hm
    have hb : (s.hand b).handed.flatten = s.batched := by
      simp [Flusher.hand, Flusher.batched]
    rw [hb, ha hw]
    exact (h.known w (List.mem_append_left _ hm)).2

theorem Branch.wakes_of_afterSend {b : Branch} (h : b.afterSend.Wakes) :
    b = .flush ∨ b = .final := by
  obtain hi | hw := b.afterSend_cases
  · rw [hi] at h
    exact absurd h (by simp [FlushPhase.Wakes, FlushPhase.branch])
  · rw [hw] at h
    simpa [FlushPhase.Wakes, FlushPhase.branch] using h

theorem Branch.afterSend_stage (b : Branch) : b.afterSend.stage ≠ 3 := by
  cases b <;> decide

theorem Branch.wakes_of_stage {b : Branch} (h : b.afterSend.stage = 4) : b.afterSend.Wakes := by
  cases b with
  | received => exact absurd h (by decide)
  | tick => exact absurd h (by decide)
  | flush => exact Or.inl rfl
  | final => exact Or.inr rfl

/-- The end of a send, or of a receive that found nothing to send. -/
theorem Flusher.Barrier.afterSend_step (h : s.Barrier) {b : Branch} {n : Nat}
    (hp : s.phase.branch = some b) (hs : 2 ≤ s.phase.stage) (hn : n = s.handed.length)
    (ha : b.afterSend.Wakes → ∀ w ∈ s.waiters,
      w.accepted ≤ (s.handed.flatten.filterMap (·.ofChannel)).length)
    (hg : s.Grows { s with returned := n, phase := b.afterSend }) :
    { s with returned := n, phase := b.afterSend }.Barrier := by
  have hwakes : b.afterSend.Wakes → s.phase.Wakes := by
    intro hw
    obtain rfl | rfl := b.wakes_of_afterSend hw
    · exact Or.inl hp
    · exact Or.inr hp
  refine ⟨b.wakes_of_stage, fun _ => hn, ?_, h.recorded, h.pending, h.known, ?_, ?_, h.delivered_of hg⟩
  · intro h3
    exact absurd h3 b.afterSend_stage
  · intro hw _
    exact h.drained (hwakes hw) hs
  · intro hw _
    exact ha hw

/-- Once the sends have returned, a waiter that the branch has drained for is delivered. -/
theorem Flusher.Barrier.delivered_at_wake (h : s.Barrier) (hk : s.Keeps) {b : Branch}
    (hp : s.phase = .waking b) (hm : w ∈ s.waiters) : s.Delivered w := by
  have hstage : s.phase.stage = 4 := by rw [hp]; rfl
  have hw : s.phase.Wakes := h.waking hstage
  have hsent : s.sent = s.batched := by
    have hr : s.returned = s.handed.length := h.returned (by omega)
    have hb : s.batch = [] := hk.sent (by omega)
    rw [Flusher.sent, hr, List.take_length, Flusher.batched, hb, List.append_nil]
  refine ⟨?_, ?_⟩
  · intro k hk'
    refine ⟨h.drained hw (by omega) w hm k hk', ?_⟩
    rw [hsent, hk.aggregator]
    exact (List.take_prefix _ _).flatMap _
  · have hle := h.taken hw (by omega) w hm
    have hc := hk.channel
    have hb : s.batch = [] := hk.sent (by omega)
    rw [hsent, ← hc, List.take_append_of_le_length]
    · exact List.take_prefix _ _
    · rwa [Flusher.batched, hb, List.append_nil]

theorem Flusher.Barrier.wake_step (h : s.Barrier) (hk : s.Keeps) {b : Branch}
    (hp : s.phase = .waking b) {phase : FlushPhase} (hphase : phase = .idle ∨ phase = .ended)
    (hg : s.Grows { s with
      completed := s.completed ++ s.waiters, waiters := [], phase := phase }) :
    { s with completed := s.completed ++ s.waiters, waiters := [], phase := phase }.Barrier := by
  have hr : s.returned = s.handed.length := h.returned (by rw [hp]; simp [FlushPhase.stage])
  have hstage : phase.stage ≠ 3 ∧ phase.stage ≠ 4 := by
    obtain rfl | rfl := hphase
    · exact ⟨by decide, by decide⟩
    · exact ⟨by decide, by decide⟩
  refine ⟨fun h4 => absurd h4 hstage.2, fun _ => hr, fun h3 => absurd h3 hstage.1, h.recorded,
    h.pending, ?_, ?_, ?_, ?_⟩
  · intro w hw
    obtain hw | hw := List.mem_append.mp (by simpa using hw : w ∈ s.completed ++ s.waiters)
    · exact h.known w (List.mem_append_right _ hw)
    · exact h.known w (List.mem_append_left _ hw)
  · intro _ _ w hw
    exact absurd hw List.not_mem_nil
  · intro _ _ w hw
    exact absurd hw List.not_mem_nil
  · intro w hw
    obtain hw | hw := List.mem_append.mp hw
    · exact h.delivered_of hg w hw
    · exact (h.delivered_at_wake hk hp hw).mono hg (h.known w (List.mem_append_left _ hw)).1
        (h.known w (List.mem_append_left _ hw)).2

theorem Flusher.Barrier.begin_step (h : s.Barrier) (hp : s.phase = .idle) (b : Branch)
    (permit : Bool) (hg : s.Grows { s with permit := permit, phase := .collecting b }) :
    { s with permit := permit, phase := .collecting b }.Barrier := by
  have hr : s.returned = s.handed.length := h.returned (by rw [hp]; decide)
  refine ⟨?_, fun _ => hr, ?_, h.recorded, h.pending, h.known, ?_, ?_, h.delivered_of hg⟩
  · intro hs
    exact absurd hs (by simp [FlushPhase.stage])
  · intro hs
    exact absurd hs (by simp [FlushPhase.stage])
  · intro _ hs
    exact absurd hs (by simp [FlushPhase.stage])
  · intro _ hs
    exact absurd hs (by simp [FlushPhase.stage])

theorem Flusher.Barrier.step (h : s.Barrier) (hk : s.Keeps) (ht : s.Timely e)
    (hs : s.step config e = some t) : t.Barrier := by
  have hg : s.Grows t := Flusher.step_grows hs
  cases Flusher.step_move hs with
  | emitted ho => exact h.emitted_step hg
  | dropped => exact h
  | record ho => exact h.recorded_step rfl (s.aggregation.state.record_not_empty _ _ _) hg
  | recordTransaction ho =>
    exact h.recorded_step rfl (s.aggregation.state.recordTransaction_not_empty _ _) hg
  | notify => exact { h with delivered := h.delivered_of hg }
  | register ho => exact h.register_step hk ho ht hg
  | close => exact { h with delivered := h.delivered_of hg }
  | received hp hq => exact { h with delivered := h.delivered_of hg }
  | @receivedFull event rest hp hq =>
    have hreceived : ∀ {u : Flusher}, ¬ (u.hand .received).phase.Wakes := by
      intro u
      simp [Flusher.hand, FlushPhase.Wakes, FlushPhase.branch]
    have hu : { s with queue := rest, batch := s.batch ++ [BatchItem.channel event] }.Barrier :=
      { h with delivered := h.delivered_of { Flusher.Grows.refl s with } }
    refine hu.hand_step ?_ ?_ ?_ (.hand _ _)
    · show s.phase.stage ≠ 3
      rw [hp]
      decide
    · intro hw
      exact absurd hw hreceived
    · intro hw
      exact absurd hw hreceived
  | disconnected hp hq hc => exact h.begin_step hp .final s.permit hg
  | tick hp => exact h.begin_step hp .tick s.permit hg
  | notified hp => exact h.begin_step hp .flush false hg
  | drain hp => exact h.drain_step hp hg
  | tried hp hq => exact { h with delivered := h.delivered_of hg }
  | @nothing b hp hq hb =>
    have hstage : s.phase.stage = 2 := by rw [hp]; rfl
    refine h.afterSend_step (by rw [hp]; rfl) (by omega) (h.returned (by omega)) ?_ hg
    intro hw w hm
    have hc := hk.accepted_of_empty hq
    rw [Flusher.batched, hb, List.append_nil] at hc
    rw [hc]
    exact (h.known w (List.mem_append_left _ hm)).2
  | @hand b hp hq =>
    have hstage : s.phase.stage = 2 := by rw [hp]; rfl
    refine h.hand_step (by omega) ?_ (fun _ => hk.accepted_of_empty hq) hg
    intro hw
    have hw' : s.phase.Wakes := by
      rw [hp]
      exact hw
    exact h.drained hw' (by omega)
  | @posted success b hp =>
    have hstage : s.phase.stage = 3 := by rw [hp]; rfl
    refine h.afterSend_step (by rw [hp]; rfl) (by omega) (h.sending hstage) ?_ hg
    intro hw
    have hw' : s.phase.Wakes := by
      rw [hp]
      exact b.wakes_of_afterSend hw |>.imp (congrArg some) (congrArg some)
    exact h.taken hw' (by omega)
  | @wake b hp =>
    refine h.wake_step hk hp ?_ hg
    by_cases hb : b = .final
    · exact Or.inr (if_pos hb)
    · exact Or.inl (if_neg hb)

theorem Flusher.Barrier.meets {startMs : Nat} {events : List FlusherEvent}
    (h : s.Keeps ∧ s.Barrier) (hm : (flushTask config startMs).Meets Flusher.Timely s events)
    (hrun : (flushTask config startMs).run s events = some t) : t.Keeps ∧ t.Barrier := by
  refine System.invariant_of_meets (I := fun s => s.Keeps ∧ s.Barrier) ?_ h hm hrun
  intro s e t hs ht he
  exact ⟨hs.1.step he, hs.2.step hs.1 ht he⟩

end RpcPlane
