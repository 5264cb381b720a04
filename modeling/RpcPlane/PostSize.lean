import RpcPlane.FlushLaw

/-! How many events `flush_task` puts into one POST. Only the branch that receives compares the
batch with `batch_size`; the others drain and receive whatever there is. -/

namespace RpcPlane

variable {config : ReportingConfig} {s t : Flusher} {e : FlusherEvent}

/-- The number of keys that the next drain gives out. -/
def AggState.pending (s : AggState) : Nat :=
  (s.buckets.entries.filter (!·.2.latencies.isEmpty)).length + s.txBuckets.entries.length

/-- The task is between its drain and the end of its `try_recv` loop. -/
def FlushPhase.Receiving (p : FlushPhase) : Prop := p.stage = 2

/-- What the branches without a limit find fits into one POST. -/
def Flusher.Fits (config : ReportingConfig) (s : Flusher) : FlusherEvent → Prop
  | .drain _ _ => s.batch.length + s.aggregation.state.pending + s.queue.length ≤ config.batchSize
  -- an event that is accepted meanwhile
  | .emit _ => s.phase.Receiving → s.closed = false → s.queue.length < config.bufferSize →
      s.batch.length + s.queue.length < config.batchSize
  | _ => True

instance FlushPhase.decidableReceiving (p : FlushPhase) : Decidable p.Receiving :=
  inferInstanceAs (Decidable (p.stage = 2))

instance Flusher.decidableFits (s : Flusher) : ∀ e, Decidable (s.Fits config e)
  | .drain _ _ => inferInstanceAs (Decidable (_ ≤ _))
  | .emit _ => inferInstanceAs (Decidable (FlushPhase.Receiving _ → _ → _ → _ < _))
  | .record .. | .recordTransaction .. | .notify | .register _ | .close | .receive | .disconnected
  | .tick | .notified | .tryRecv | .posted _ | .wake => isTrue trivial

/-- No POST so far has been too large, and the one that is being collected will not be. -/
structure Flusher.Within (config : ReportingConfig) (s : Flusher) : Prop where
  handed : ∀ batch ∈ s.handed, batch.length ≤ config.batchSize
  collected : s.phase.Receiving → s.batch.length + s.queue.length ≤ config.batchSize

/-- Outside of the branches without a limit the batch is below it. -/
structure Flusher.Below (config : ReportingConfig) (s : Flusher) : Prop where
  batch : s.phase.stage ≤ 1 → s.batch.length < config.batchSize
  sent : 3 ≤ s.phase.stage → s.batch = []

theorem AggState.drain_length (a : AggState) (now : Nat) (order : DrainOrder) :
    (a.drain now order).1.length = a.pending := by
  have hrequests := ((order.requests.perm a.buckets.entries).filter (!·.2.latencies.isEmpty)).length_eq
  have htransactions := (order.transactions.perm a.txBuckets.entries).length_eq
  rw [drain, List.length_append, List.length_map, List.length_map, requestEntries, transactionEntries,
    hrequests, htransactions, pending]

theorem Flusher.receive_cases (h : s.step config .receive = some t) :
    ∃ event rest, s.phase = .idle ∧ s.queue = event :: rest ∧
      ((s.batch.length + 1 < config.batchSize ∧
          t = { s with queue := rest, batch := s.batch ++ [BatchItem.channel event] }) ∨
        config.batchSize ≤ s.batch.length + 1 ∧
          t = ({ s with queue := rest, batch := s.batch ++ [BatchItem.channel event] }.hand .received)) := by
  simp only [step] at h
  split at h
  · rename_i event rest hp hq
    refine ⟨event, rest, hp, hq, ?_⟩
    by_cases hb : config.batchSize ≤ (s.batch ++ [BatchItem.channel event]).length
    · have ht := Option.some.inj ((if_pos hb).symm.trans h)
      rw [List.length_append, List.length_singleton] at hb
      exact .inr ⟨hb, ht.symm⟩
    · have ht := Option.some.inj ((if_neg hb).symm.trans h)
      rw [List.length_append, List.length_singleton] at hb
      exact .inl ⟨by omega, ht.symm⟩
  · cases h

theorem Branch.afterSend_not_receiving (b : Branch) : ¬ b.afterSend.Receiving := by
  unfold FlushPhase.Receiving
  cases b <;> decide

theorem Flusher.Below.start (hb : 1 ≤ config.batchSize) (startMs : Nat) :
    (Flusher.start startMs).Below config where
  batch _ := hb
  sent h := absurd h (by simp [Flusher.start, FlushPhase.stage])

theorem Flusher.Below.of_empty (hb : 1 ≤ config.batchSize) (h : t.batch = []) : t.Below config where
  batch _ := by rw [h]; exact hb
  sent _ := h

theorem Flusher.Below.receive (hb : 1 ≤ config.batchSize) (hs : s.step config .receive = some t) :
    t.Below config := by
  obtain ⟨event, rest, hp, hq, ⟨hroom, rfl⟩ | ⟨hfull, rfl⟩⟩ := Flusher.receive_cases hs
  · have hidle : s.phase.stage = 0 := by rw [hp]; rfl
    refine ⟨fun _ => by simpa using hroom, fun hstage => ?_⟩
    have hlate : 3 ≤ s.phase.stage := hstage
    omega
  · exact .of_empty hb rfl

theorem Flusher.Below.begun (h : s.Below config) (hp : s.phase = .idle) (b : Branch) (permit : Bool) :
    { s with permit := permit, phase := .collecting b }.Below config where
  batch _ := h.batch (by rw [hp]; decide)
  sent hstage := absurd hstage (by simp [FlushPhase.stage])

theorem Flusher.Below.receiving (h : t.phase.stage = 2) : t.Below config where
  batch hs := by omega
  sent hs := by omega

theorem Flusher.Below.step (hb : 1 ≤ config.batchSize) (h : s.Below config)
    (hs : s.step config e = some t) : t.Below config := by
  cases Flusher.step_move hs with
  | received hp hq => exact .receive hb hs
  | receivedFull hp hq => exact .receive hb hs
  | dropped => exact h
  | disconnected hp hq hc => exact h.begun hp .final s.permit
  | tick hp => exact h.begun hp .tick s.permit
  | notified hp => exact h.begun hp .flush false
  | drain hp => exact .receiving rfl
  | tried hp hq => exact .receiving (by simp only [hp]; rfl)
  | nothing hp hq hempty => exact .of_empty hb hempty
  | hand hp hq => exact .of_empty hb rfl
  | posted hp => exact .of_empty hb (h.sent (by rw [hp]; simp [FlushPhase.stage]))
  | wake hp => exact .of_empty hb (h.sent (by rw [hp]; simp [FlushPhase.stage]))
  | _ => exact ⟨h.batch, h.sent⟩

/-! What one step does to the size of the POSTs. -/

theorem Flusher.within_of_not (h : ¬ s.phase.Receiving) :
    s.Within config ↔ ∀ batch ∈ s.handed, batch.length ≤ config.batchSize :=
  ⟨fun hs => hs.handed, fun hs => ⟨hs, fun hr => absurd hr h⟩⟩

theorem Flusher.within_of (hr : s.phase.Receiving) :
    s.Within config ↔ (∀ batch ∈ s.handed, batch.length ≤ config.batchSize) ∧
      s.batch.length + s.queue.length ≤ config.batchSize :=
  ⟨fun hs => ⟨hs.handed, hs.collected hr⟩, fun hs => ⟨hs.1, fun _ => hs.2⟩⟩

/-- A step that hands nothing over, and leaves the batch and the queue together as they are. -/
theorem Flusher.within_congr (hh : t.handed = s.handed) (hp : t.phase.Receiving ↔ s.phase.Receiving)
    (hl : s.phase.Receiving → t.batch.length + t.queue.length = s.batch.length + s.queue.length) :
    t.Within config ↔ s.Within config := by
  by_cases hr : s.phase.Receiving
  · rw [within_of hr, within_of (hp.mpr hr), hh, hl hr]
  · rw [within_of_not hr, within_of_not (fun ht => hr (hp.mp ht)), hh]

theorem Flusher.within_hand (s : Flusher) (b : Branch) :
    (s.hand b).Within config ↔
      (∀ batch ∈ s.handed, batch.length ≤ config.batchSize) ∧ s.batch.length ≤ config.batchSize := by
  have hno : ¬ (s.hand b).phase.Receiving := by simp [hand, FlushPhase.Receiving, FlushPhase.stage]
  rw [within_of_not hno, hand]
  simp only [List.forall_mem_append, List.forall_mem_singleton]

theorem FlushPhase.not_receiving {p q : FlushPhase} (h : p = q) (hq : q.stage ≠ 2) : ¬ p.Receiving := by
  rw [h]
  exact hq

theorem Flusher.within_emit {event : TelemetryEvent} (hs : s.step config (.emit event) = some t) :
    t.Within config ↔ s.Within config ∧ s.Fits config (.emit event) := by
  obtain ⟨hc, hu⟩ := eq_of_refusal hs
  have hopen : s.closed = false := Bool.eq_false_iff.mpr hc
  by_cases hl : s.queue.length < config.bufferSize
  · obtain rfl := Option.some.inj ((if_pos hl).symm.trans hu)
    by_cases hr : s.phase.Receiving
    · have hfits : s.Fits config (.emit event) ↔ s.batch.length + s.queue.length < config.batchSize :=
        ⟨fun hf => hf hr hopen hl, fun hf _ _ _ => hf⟩
      rw [hfits, within_of hr, within_of (s := { s with queue := s.queue ++ [event], accepted := _ }) hr]
      rw [and_assoc, List.length_append, List.length_singleton]
      refine and_congr_right fun _ => ?_
      show s.batch.length + (s.queue.length + 1) ≤ config.batchSize ↔ _
      omega
    · rw [within_of_not hr, within_of_not (s := { s with queue := s.queue ++ [event], accepted := _ }) hr]
      exact ⟨fun h => ⟨h, fun hr' => absurd hr' hr⟩, fun h => h.1⟩
  · obtain rfl := Option.some.inj ((if_neg hl).symm.trans hu)
    exact ⟨fun h => ⟨h, fun _ _ hl' => absurd hl' hl⟩, fun h => h.1⟩

theorem Flusher.within_receive (h : s.Below config) (hs : s.step config .receive = some t) :
    t.Within config ↔ s.Within config := by
  obtain ⟨event, rest, hp, hq, ⟨hroom, rfl⟩ | ⟨hfull, rfl⟩⟩ := Flusher.receive_cases hs
  · have hno : ¬ s.phase.Receiving := FlushPhase.not_receiving hp (by decide)
    exact within_congr rfl Iff.rfl (fun hr => absurd hr hno)
  · have hno : ¬ s.phase.Receiving := FlushPhase.not_receiving hp (by decide)
    have hbelow := h.batch (by rw [hp]; decide)
    rw [within_hand, within_of_not hno, List.length_append, List.length_singleton]
    exact ⟨fun hw => hw.1, fun hw => ⟨hw, hbelow⟩⟩

theorem Flusher.within_drain {now : Nat} {order : DrainOrder} {b : Branch}
    (hp : s.phase = .collecting b) :
    { s with
      batch := s.batch ++ (s.aggregation.state.drain now order).1.map BatchItem.aggregator
      aggregation := s.aggregation.after (.drain now order)
      phase := .receiving b }.Within config ↔
        s.Within config ∧ s.Fits config (.drain now order) := by
  have hno : ¬ s.phase.Receiving := FlushPhase.not_receiving hp (by simp [FlushPhase.stage])
  have hreceiving : (FlushPhase.receiving b).Receiving := rfl
  rw [within_of_not hno, within_of hreceiving, List.length_append, List.length_map, AggState.drain_length]
  exact Iff.rfl

/-- One step keeps the sizes within the limit exactly when what it takes in fits. -/
theorem Flusher.within_step (h : s.Below config) (hs : s.step config e = some t) :
    t.Within config ↔ s.Within config ∧ s.Fits config e := by
  have hsame : (t.Within config ↔ s.Within config) → (t.Within config ↔ s.Within config ∧ True) :=
    fun h => h.trans (and_iff_left trivial).symm
  -- neither before nor after the step is the task collecting
  have houtside : t.handed = s.handed → ¬ s.phase.Receiving → ¬ t.phase.Receiving →
      (t.Within config ↔ s.Within config ∧ True) :=
    fun hh hs ht => hsame (within_congr hh (iff_of_false ht hs) (fun hr => absurd hr hs))
  cases Flusher.step_move hs with
  | emitted ho => exact within_emit hs
  | dropped => exact within_emit hs
  | record ho => exact hsame (within_congr rfl Iff.rfl (fun _ => rfl))
  | recordTransaction ho => exact hsame (within_congr rfl Iff.rfl (fun _ => rfl))
  | notify => exact hsame (within_congr rfl Iff.rfl (fun _ => rfl))
  | register ho => exact hsame (within_congr rfl Iff.rfl (fun _ => rfl))
  | close => exact hsame (within_congr rfl Iff.rfl (fun _ => rfl))
  | received hp hq => exact hsame (within_receive h hs)
  | receivedFull hp hq => exact hsame (within_receive h hs)
  | disconnected hp hq hc =>
    exact houtside rfl (FlushPhase.not_receiving hp (by decide)) (by simp [FlushPhase.Receiving, FlushPhase.stage])
  | tick hp =>
    exact houtside rfl (FlushPhase.not_receiving hp (by decide)) (by simp [FlushPhase.Receiving, FlushPhase.stage])
  | notified hp =>
    exact houtside rfl (FlushPhase.not_receiving hp (by decide)) (by simp [FlushPhase.Receiving, FlushPhase.stage])
  | drain hp => exact within_drain hp
  | @tried event rest b hp hq =>
    refine hsame (within_congr rfl Iff.rfl (fun _ => ?_))
    simp only [hq, List.length_append, List.length_cons, List.length_nil]
    omega
  | @nothing b hp hq hempty =>
    have hr : s.phase.Receiving := by rw [hp]; rfl
    have hlen : s.batch.length + s.queue.length = 0 := by rw [hq, hempty]; rfl
    have hno : ¬ b.afterSend.Receiving := b.afterSend_not_receiving
    refine hsame ?_
    rw [within_of hr, within_of_not hno, hlen]
    exact (and_iff_left (Nat.zero_le _)).symm
  | @hand b hp hq =>
    have hr : s.phase.Receiving := by rw [hp]; rfl
    refine hsame ?_
    rw [within_hand, within_of hr, hq, List.length_nil, Nat.add_zero]
  | @posted success b hp =>
    exact houtside rfl (FlushPhase.not_receiving hp (by simp [FlushPhase.stage])) b.afterSend_not_receiving
  | @wake b hp =>
    refine houtside rfl (FlushPhase.not_receiving hp (by simp [FlushPhase.stage])) ?_
    by_cases hb : b = .final
    · exact FlushPhase.not_receiving (if_pos hb) (by decide)
    · exact FlushPhase.not_receiving (if_neg hb) (by decide)

theorem Flusher.within_start (startMs : Nat) : (Flusher.start startMs).Within config where
  handed _ hmem := absurd hmem List.not_mem_nil
  collected hr := absurd hr (by simp [Flusher.start, FlushPhase.Receiving, FlushPhase.stage])

/-- A run whose drains fit and whose queue leaves room meanwhile makes no POST above `batch_size`;
one that makes none, and is not in the middle of collecting, is such a run. -/
theorem post_size_iff (config : ReportingConfig) (hb : 1 ≤ config.batchSize) (startMs : Nat)
    (s₀ s : Flusher) (events : List FlusherEvent) (hinit : (flushTask config startMs).init s₀)
    (hrun : (flushTask config startMs).run s₀ events = some s) :
    ((flushTask config startMs).Meets (Flusher.Fits config) s₀ events →
        ∀ batch ∈ s.handed, batch.length ≤ config.batchSize) ∧
      (¬ s.phase.Receiving → (∀ batch ∈ s.handed, batch.length ≤ config.batchSize) →
        (flushTask config startMs).Meets (Flusher.Fits config) s₀ events) := by
  obtain rfl : s₀ = .start startMs := hinit
  have hiff : s.Within config ↔ (Flusher.start startMs).Within config ∧
      (flushTask config startMs).Meets (Flusher.Fits config) (.start startMs) events := by
    apply System.last_iff_meets (I := Flusher.Below config) _ _ (.start hb startMs) hrun
    · intro s e t hs ht
      exact hs.step hb ht
    · intro s e t hs ht
      exact Flusher.within_step hs ht
  refine ⟨?_, ?_⟩
  · intro hm
    exact (hiff.mpr ⟨Flusher.within_start startMs, hm⟩).handed
  · intro hr hsmall
    exact (hiff.mp ((Flusher.within_of_not hr).mpr hsmall)).2

def twoMethods : List FlusherEvent :=
  [.record ⟨"getSlot", "helius", "ok"⟩ 20 1, .record ⟨"getBlock", "helius", "ok"⟩ 30 1, .notify, .notified,
    .drain 7 ⟨.same _, .same _⟩, .tryRecv, .posted true, .wake]

theorem post_size_iff_two_methods :
    ∃ s, (flushTask { endpoint := "http://collector" } 0).run (.start 0) twoMethods = some s ∧
      s.handed.map List.length = [2] ∧ ∀ batch ∈ s.handed, batch.length ≤ 100 := by
  have hrun : ∃ s, (flushTask { endpoint := "http://collector" } 0).run (.start 0) twoMethods = some s ∧
      s.handed.map List.length = [2] := ⟨_, rfl, rfl⟩
  obtain ⟨s, hs, hlengths⟩ := hrun
  have hiff := post_size_iff { endpoint := "http://collector" } (by decide) 0 (.start 0) s twoMethods rfl hs
  exact ⟨s, hs, hlengths, hiff.1 (by decide)⟩

/-- With a limit of one event, the same flush puts two into one POST. -/
theorem two_events_in_one_post :
    ∃ s, (flushTask { endpoint := "http://collector", batchSize := 1 } 0).run (.start 0) twoMethods =
        some s ∧ ∃ batch ∈ s.handed, 1 < batch.length :=
  ⟨_, rfl, _, List.mem_cons_self, by decide⟩

end RpcPlane
