import RpcPlane.FlushTask

/-! `flush_task` hands every event over exactly once. -/

namespace RpcPlane

variable {config : ReportingConfig} {s t : Flusher} {e : FlusherEvent}

/-- The steps of the system, one constructor for each way one can go. -/
inductive Flusher.Move (config : ReportingConfig) (s : Flusher) : FlusherEvent → Flusher → Prop
  | emitted {event} (ho : s.closed = false) :
    Move config s (.emit event)
      { s with queue := s.queue ++ [event], accepted := s.accepted ++ [event] }
  | dropped {event} : Move config s (.emit event) s
  | record {key latencyMs count} (ho : s.closed = false) :
    Move config s (.record key latencyMs count) (s.recorded (.record key latencyMs count))
  | recordTransaction {provider call} (ho : s.closed = false) :
    Move config s (.recordTransaction provider call) (s.recorded (.transaction provider call))
  | notify : Move config s .notify { s with permit := true }
  | register {id} (ho : s.closed = false) :
    Move config s (.register id)
      { s with waiters := s.waiters ++ [⟨id, s.recordedIn.length, s.accepted.length⟩] }
  | close : Move config s .close { s with closed := true }
  | received {event rest} (hp : s.phase = .idle) (hq : s.queue = event :: rest) :
    Move config s .receive { s with queue := rest, batch := s.batch ++ [BatchItem.channel event] }
  | receivedFull {event rest} (hp : s.phase = .idle) (hq : s.queue = event :: rest) :
    Move config s .receive
      ({ s with queue := rest, batch := s.batch ++ [BatchItem.channel event] }.hand .received)
  | disconnected (hp : s.phase = .idle) (hq : s.queue = []) (hc : s.closed = true) :
    Move config s .disconnected { s with phase := .collecting .final }
  | tick (hp : s.phase = .idle) : Move config s .tick { s with phase := .collecting .tick }
  | notified (hp : s.phase = .idle) :
    Move config s .notified { s with permit := false, phase := .collecting .flush }
  | drain {now order b} (hp : s.phase = .collecting b) :
    Move config s (.drain now order)
      { s with
        batch := s.batch ++ (s.aggregation.state.drain now order).1.map BatchItem.aggregator
        aggregation := s.aggregation.after (.drain now order)
        phase := .receiving b }
  | tried {event rest b} (hp : s.phase = .receiving b) (hq : s.queue = event :: rest) :
    Move config s .tryRecv { s with queue := rest, batch := s.batch ++ [BatchItem.channel event] }
  | nothing {b} (hp : s.phase = .receiving b) (hq : s.queue = []) (hb : s.batch = []) :
    Move config s .tryRecv { s with phase := b.afterSend }
  | hand {b} (hp : s.phase = .receiving b) (hq : s.queue = []) :
    Move config s .tryRecv (s.hand b)
  | posted {success b} (hp : s.phase = .sending b) :
    Move config s (.posted success) { s with returned := s.returned + 1, phase := b.afterSend }
  | wake {b} (hp : s.phase = .waking b) :
    Move config s .wake
      { s with
        completed := s.completed ++ s.waiters
        waiters := []
        phase := if b = .final then .ended else .idle }

theorem Flusher.step_move (h : s.step config e = some t) : s.Move config e t := by
  have hopen : ∀ {u : Option Flusher}, (if s.closed then none else u) = some t →
      s.closed = false ∧ u = some t := by
    intro u hu
    obtain ⟨hc, hu⟩ := eq_of_refusal hu
    exact ⟨Bool.eq_false_iff.mpr hc, hu⟩
  cases e with
  | emit event =>
    obtain ⟨hc, hu⟩ := hopen h
    by_cases hl : s.queue.length < config.bufferSize
    · obtain rfl := Option.some.inj ((if_pos hl).symm.trans hu)
      exact .emitted hc
    · obtain rfl := Option.some.inj ((if_neg hl).symm.trans hu)
      exact .dropped
  | record key latencyMs count =>
    obtain ⟨hc, hu⟩ := hopen h
    obtain rfl := Option.some.inj hu
    exact .record hc
  | recordTransaction provider call =>
    obtain ⟨hc, hu⟩ := hopen h
    obtain rfl := Option.some.inj hu
    exact .recordTransaction hc
  | notify =>
    obtain ⟨hc, hu⟩ := hopen h
    obtain rfl := Option.some.inj hu
    exact .notify
  | register id =>
    obtain ⟨hc, hu⟩ := hopen h
    obtain rfl := Option.some.inj hu
    exact .register hc
  | close =>
    obtain rfl := Option.some.inj h
    exact .close
  | receive =>
    simp only [step] at h
    split at h
    · rename_i event rest hp hq
      by_cases hb : config.batchSize ≤ (s.batch ++ [BatchItem.channel event]).length
      · obtain rfl := Option.some.inj ((if_pos hb).symm.trans h)
        exact .receivedFull hp hq
      · obtain rfl := Option.some.inj ((if_neg hb).symm.trans h)
        exact .received hp hq
    · cases h
  | disconnected =>
    simp only [step] at h
    split at h
    · rename_i hp hq
      obtain ⟨hc, hu⟩ := eq_of_guard h
      obtain rfl := Option.some.inj hu
      exact .disconnected hp hq hc
    · cases h
  | tick =>
    obtain ⟨hp, hu⟩ := eq_of_guard h
    obtain rfl := Option.some.inj hu
    exact .tick hp
  | notified =>
    obtain ⟨hp, hu⟩ := eq_of_guard h
    obtain rfl := Option.some.inj hu
    exact .notified hp.1
  | drain now order =>
    simp only [step] at h
    split at h
    · rename_i b hp
      obtain rfl := Option.some.inj h
      exact .drain hp
    · cases h
  | tryRecv =>
    simp only [step] at h
    split at h
    · rename_i b hp
      split at h
      · rename_i event rest hq
        obtain rfl := Option.some.inj h
        exact .tried hp hq
      · rename_i hq
        by_cases hb : s.batch.isEmpty = true
        · obtain rfl := Option.some.inj ((if_pos hb).symm.trans h)
          exact .nothing hp hq (by simpa using hb)
        · obtain rfl := Option.some.inj ((if_neg hb).symm.trans h)
          exact .hand hp hq
    · cases h
  | posted success =>
    simp only [step] at h
    split at h
    · rename_i b hp
      obtain rfl := Option.some.inj h
      exact .posted hp
    · cases h
  | wake =>
    simp only [step] at h
    split at h
    · rename_i b hp
      obtain rfl := Option.some.inj h
      exact .wake hp
    · cases h

def FlushPhase.stage : FlushPhase → Nat
  | .idle => 0
  | .collecting _ => 1
  | .receiving _ => 2
  | .sending _ => 3
  | .waking _ => 4
  | .ended => 5

def FlushPhase.branch : FlushPhase → Option Branch
  | .idle => none
  | .collecting b => some b
  | .receiving b => some b
  | .sending b => some b
  | .waking b => some b
  | .ended => some .final

def AggState.IsEmpty (s : AggState) : Prop := s.buckets = ∅ ∧ s.txBuckets = ∅

def Flusher.batched (s : Flusher) : List BatchItem := s.handed.flatten ++ s.batch

/-- What every step keeps: each accepted and each drained event is in exactly one place, in
order, and from the last branch on nothing new comes in. -/
structure Flusher.Keeps (s : Flusher) : Prop where
  channel : s.batched.filterMap (·.ofChannel) ++ s.queue = s.accepted
  aggregator : s.batched.filterMap (·.ofAggregator) = s.aggregation.events
  sent : 3 ≤ s.phase.stage → s.batch = []
  closing : s.phase.branch = some .final → s.closed = true ∧ s.queue = []
  drained : s.phase.branch = some .final → 2 ≤ s.phase.stage → s.aggregation.state.IsEmpty

theorem Branch.afterSend_cases (b : Branch) : b.afterSend = .idle ∨ b.afterSend = .waking b := by
  cases b with
  | received => exact Or.inl rfl
  | tick => exact Or.inl rfl
  | flush => exact Or.inr rfl
  | final => exact Or.inr rfl

theorem Flusher.Keeps.start (startMs : Nat) : (Flusher.start startMs).Keeps where
  channel := rfl
  aggregator := rfl
  sent := by simp [Flusher.start, FlushPhase.stage]
  closing := by simp [Flusher.start, FlushPhase.branch]
  drained := by simp [Flusher.start, FlushPhase.branch]

theorem Flusher.Keeps.accepted_of_empty (h : s.Keeps) (hq : s.queue = []) :
    s.batched.filterMap (·.ofChannel) = s.accepted := by
  have hc := h.channel
  rwa [hq, List.append_nil] at hc

theorem Aggregation.events_drain (a : Aggregation) (now : Nat) (order : DrainOrder) :
    (a.after (.drain now order)).events = a.events ++ (a.state.drain now order).1 := by
  simp [Aggregation.events, Aggregation.after]

theorem filterMap_ofAggregator (events : List TelemetryEvent) :
    (events.map BatchItem.aggregator).filterMap (·.ofAggregator) = events := by
  simp [List.filterMap_map, BatchItem.ofAggregator]

theorem filterMap_ofChannel (events : List TelemetryEvent) :
    (events.map BatchItem.aggregator).filterMap (·.ofChannel) = [] := by
  simp [List.filterMap_map, BatchItem.ofChannel]

theorem Flusher.Keeps.took (h : s.Keeps) {event : TelemetryEvent} {rest : List TelemetryEvent}
    (hq : s.queue = event :: rest) (hb : s.phase.stage < 3)
    (hf : s.phase.branch ≠ some .final) :
    { s with queue := rest, batch := s.batch ++ [BatchItem.channel event] }.Keeps where
  channel := by
    have hc := h.channel
    simp only [Flusher.batched, List.filterMap_append, hq] at hc ⊢
    simpa [BatchItem.ofChannel] using hc
  aggregator := by
    have ha := h.aggregator
    simp only [Flusher.batched, List.filterMap_append] at ha ⊢
    simpa [BatchItem.ofAggregator] using ha
  sent hs := absurd hs (not_le.mpr hb)
  closing hp := absurd hp hf
  drained hp := absurd hp hf

theorem Flusher.Keeps.handed (h : s.Keeps) {b : Branch}
    (hfinal : b = .final → s.closed = true ∧ s.queue = [] ∧ s.aggregation.state.IsEmpty) :
    (s.hand b).Keeps where
  channel := by
    have hc := h.channel
    simpa [Flusher.batched, Flusher.hand] using hc
  aggregator := by
    have ha := h.aggregator
    simpa [Flusher.batched, Flusher.hand, Aggregation.events] using ha
  sent _ := rfl
  closing hp := by
    obtain ⟨hc, hq, -⟩ := hfinal (by simpa [Flusher.hand, FlushPhase.branch] using hp)
    exact ⟨hc, hq⟩
  drained hp _ := (hfinal (by simpa [Flusher.hand, FlushPhase.branch] using hp)).2.2

/-- A step that leaves the batch, the queue and both histories as they are. -/
theorem Flusher.Keeps.frame (h : s.Keeps) (hb : t.batched = s.batched) (hq : t.queue = s.queue)
    (ha : t.accepted = s.accepted) (hg : t.aggregation = s.aggregation)
    (hsent : 3 ≤ t.phase.stage → t.batch = [])
    (hclosing : t.phase.branch = some .final → t.closed = true ∧ t.queue = [])
    (hdrained : t.phase.branch = some .final → 2 ≤ t.phase.stage →
      t.aggregation.state.IsEmpty) : t.Keeps where
  channel := by rw [hb, hq, ha]; exact h.channel
  aggregator := by rw [hb, hg]; exact h.aggregator
  sent := hsent
  closing := hclosing
  drained := hdrained

theorem Aggregation.events_record (a : Aggregation) (key : RequestKey) (latencyMs : ℚ)
    (count : Nat) : (a.after (.record key latencyMs count)).events = a.events := rfl

theorem Aggregation.events_transaction (a : Aggregation) (provider : String)
    (call : TransactionRecord) : (a.after (.transaction provider call)).events = a.events := rfl

theorem Flusher.Keeps.open_branch (h : s.Keeps) (ho : s.closed = false) :
    s.phase.branch ≠ some .final := by
  intro hp
  exact absurd ((h.closing hp).1.symm.trans ho) (by simp)

theorem Flusher.Keeps.recorded (h : s.Keeps) (ho : s.closed = false) {call : AggCall}
    (he : (s.aggregation.after call).events = s.aggregation.events) : (s.recorded call).Keeps where
  channel := h.channel
  aggregator := h.aggregator.trans he.symm
  sent := h.sent
  closing := h.closing
  drained hp := absurd hp (h.open_branch ho)

theorem Flusher.Keeps.collected (h : s.Keeps) {now : Nat} {order : DrainOrder} {b : Branch}
    (hp : s.phase = .collecting b) :
    { s with
      batch := s.batch ++ (s.aggregation.state.drain now order).1.map BatchItem.aggregator
      aggregation := s.aggregation.after (.drain now order)
      phase := .receiving b }.Keeps := by
  have hbranch : s.phase.branch = some b := by rw [hp]; rfl
  refine ⟨?_, ?_, ?_, ?_, ?_⟩
  · have hc := h.channel
    simp only [Flusher.batched, List.filterMap_append, filterMap_ofChannel,
      List.append_nil] at hc ⊢
    exact hc
  · have ha := h.aggregator
    simp only [Flusher.batched, List.filterMap_append, filterMap_ofAggregator,
      Aggregation.events_drain] at ha ⊢
    rw [← List.append_assoc, ha]
  · intro hs
    exact absurd hs (by simp [FlushPhase.stage])
  · intro hf
    exact h.closing (hbranch.trans hf)
  · intro _ _
    exact ⟨rfl, rfl⟩

/-- A branch begins; the last one finds the channel closed and empty. -/
theorem Flusher.Keeps.begun (h : s.Keeps) {b : Branch} (permit : Bool)
    (hfinal : b = .final → s.closed = true ∧ s.queue = []) :
    { s with permit := permit, phase := .collecting b }.Keeps := by
  refine h.frame rfl rfl rfl rfl ?_ ?_ ?_
  · intro hs
    exact absurd hs (by simp [FlushPhase.stage])
  · intro hp
    exact hfinal (by simpa [FlushPhase.branch] using hp)
  · intro _ hs
    exact absurd hs (by simp [FlushPhase.stage])

theorem FlushPhase.branch_of_idle {p : FlushPhase} (h : p = .idle) : p.branch ≠ some .final := by
  rw [h]
  simp [FlushPhase.branch]

/-- What holds when the send of a branch is over, or was not needed. -/
theorem Flusher.Keeps.afterSend (h : s.Keeps) {b : Branch} (hp : s.phase.branch = some b)
    (hb : s.batch = []) (hs : 2 ≤ s.phase.stage) (n : Nat) :
    { s with returned := n, phase := b.afterSend }.Keeps := by
  have hfinal : b.afterSend.branch = some .final → s.phase.branch = some .final := by
    intro hf
    obtain hi | hw := b.afterSend_cases
    · exact absurd hf (FlushPhase.branch_of_idle hi)
    · rw [hw] at hf
      exact hp.trans hf
  refine h.frame rfl rfl rfl rfl ?_ ?_ ?_
  · intro _
    exact hb
  · intro hf
    exact h.closing (hfinal hf)
  · intro hf _
    exact h.drained (hfinal hf) hs

theorem Flusher.Keeps.step (h : s.Keeps) (hs : s.step config e = some t) : t.Keeps := by
  cases Flusher.step_move hs with
  | @emitted event ho =>
    refine ⟨?_, h.aggregator, h.sent, ?_, h.drained⟩
    · show s.batched.filterMap (·.ofChannel) ++ (s.queue ++ [event]) = s.accepted ++ [event]
      rw [← List.append_assoc, h.channel]
    · intro hp
      exact absurd hp (h.open_branch ho)
  | dropped => exact h
  | record ho => exact h.recorded ho (Aggregation.events_record ..)
  | recordTransaction ho => exact h.recorded ho (Aggregation.events_transaction ..)
  | notify => exact h.frame rfl rfl rfl rfl h.sent h.closing h.drained
  | register ho => exact h.frame rfl rfl rfl rfl h.sent h.closing h.drained
  | close =>
    exact h.frame rfl rfl rfl rfl h.sent (fun hp => ⟨rfl, (h.closing hp).2⟩) h.drained
  | received hp hq =>
    exact h.took hq (by rw [hp]; decide) (FlushPhase.branch_of_idle hp)
  | receivedFull hp hq =>
    have ht := h.took hq (by rw [hp]; decide) (FlushPhase.branch_of_idle hp)
    exact ht.handed (fun hb => absurd hb (by decide))
  | disconnected hp hq hc => exact h.begun s.permit (fun _ => ⟨hc, hq⟩)
  | tick hp => exact h.begun s.permit (fun hb => absurd hb (by decide))
  | notified hp => exact h.begun false (fun hb => absurd hb (by decide))
  | drain hp => exact h.collected hp
  | @tried event rest b hp hq =>
    refine h.took hq (by rw [hp]; simp [FlushPhase.stage]) ?_
    -- in the final branch the queue is empty
    intro hf
    exact absurd (hq.symm.trans (h.closing hf).2) (by simp)
  | nothing hp hq hb =>
    exact h.afterSend (by rw [hp]; rfl) hb (by rw [hp]; simp [FlushPhase.stage]) s.returned
  | @hand b hp hq =>
    refine h.handed ?_
    intro hb
    have hf : s.phase.branch = some .final := by rw [hp, hb]; rfl
    exact ⟨(h.closing hf).1, hq, h.drained hf (by rw [hp]; simp [FlushPhase.stage])⟩
  | posted hp =>
    exact h.afterSend (by rw [hp]; rfl) (h.sent (by rw [hp]; simp [FlushPhase.stage]))
      (by rw [hp]; simp [FlushPhase.stage]) (s.returned + 1)
  | @wake b hp =>
    have hb : s.batch = [] := h.sent (by rw [hp]; simp [FlushPhase.stage])
    by_cases hf : b = .final
    · have hbranch : s.phase.branch = some .final := by rw [hp, hf]; rfl
      have hstage : 2 ≤ s.phase.stage := by rw [hp]; simp [FlushPhase.stage]
      exact h.frame rfl rfl rfl rfl (fun _ => hb) (fun _ => h.closing hbranch)
        (fun _ _ => h.drained hbranch hstage)
    · have hidle : (if b = .final then FlushPhase.ended else .idle) = .idle := if_neg hf
      refine h.frame rfl rfl rfl rfl (fun _ => hb) ?_ ?_
      · intro hp
        exact absurd hp (FlushPhase.branch_of_idle hidle)
      · intro hp
        exact absurd hp (FlushPhase.branch_of_idle hidle)

theorem flushTask_keeps {startMs : Nat} (h : (flushTask config startMs).Reachable s) : s.Keeps := by
  apply System.invariant_reachable (I := Flusher.Keeps) _ _ h
  · intro s₀ hi
    obtain rfl : s₀ = .start startMs := hi
    exact .start startMs
  · intro s e t hs ht
    exact hs.step ht

/-- The batches given to `send_batch`, then the batch and the queue, are the accepted events in
order and everything that was drained; at the end all of it is in the batches. -/
theorem flush_task_delivers_once (config : ReportingConfig) (startMs : Nat) (s₀ s : Flusher)
    (events : List FlusherEvent) (hinit : (flushTask config startMs).init s₀)
    (hrun : (flushTask config startMs).run s₀ events = some s) :
    s.handed.flatten.filterMap (·.ofChannel) ++ s.batch.filterMap (·.ofChannel) ++ s.queue =
      s.accepted ∧
    s.handed.flatten.filterMap (·.ofAggregator) ++ s.batch.filterMap (·.ofAggregator) =
      s.aggregation.events ∧
    (s.phase = .ended →
      s.batch = [] ∧ s.queue = [] ∧ s.aggregation.state.IsEmpty ∧
      s.handed.flatten.filterMap (·.ofChannel) = s.accepted ∧
      s.handed.flatten.filterMap (·.ofAggregator) = s.aggregation.events) := by
  have h : s.Keeps := flushTask_keeps ⟨s₀, events, hinit, hrun⟩
  have hc := h.channel
  have ha := h.aggregator
  simp only [Flusher.batched, List.filterMap_append] at hc ha
  refine ⟨hc, ha, ?_⟩
  intro hp
  have hfinal : s.phase.branch = some .final := by rw [hp]; rfl
  have hb : s.batch = [] := h.sent (by rw [hp]; decide)
  have hq : s.queue = [] := (h.closing hfinal).2
  rw [hb, hq] at hc
  rw [hb] at ha
  refine ⟨hb, hq, h.drained hfinal (by rw [hp]; decide), ?_, ?_⟩
  · simpa using hc
  · simpa using ha

/-- An event taken by `try_recv` and one record reach `send_batch` before the task ends. -/
theorem flush_task_delivers_once_shutdown :
    let config : ReportingConfig := { endpoint := "http://collector" }
    let event : TelemetryEvent := .divergence "getSlot" [] "first"
    let events : List FlusherEvent := [.emit event, .record ⟨"getSlot", "helius", "ok"⟩ 20 1,
      .notify, .notified, .drain 7 ⟨.same _, .same _⟩, .tryRecv, .tryRecv, .posted false, .wake,
      .close, .disconnected, .drain 9 ⟨.same _, .same _⟩, .tryRecv, .wake]
    ∃ s, (flushTask config 0).run (.start 0) events = some s ∧ s.phase = .ended ∧
      s.accepted = [event] ∧ s.handed.flatten.filterMap (·.ofChannel) = s.accepted := by
  intro config event events
  have hrun : ∃ s, (flushTask config 0).run (.start 0) events = some s ∧ s.phase = .ended ∧
      s.accepted = [event] := ⟨_, rfl, rfl, rfl⟩
  obtain ⟨s, hs, hp, ha⟩ := hrun
  have hlaw := flush_task_delivers_once config 0 (.start 0) s events rfl hs
  exact ⟨s, hs, hp, ha, (hlaw.2.2 hp).2.2.2.1⟩

/-! The histories of the task are those of its aggregator. -/

section logs

/-- For each record among the calls, the number of drains before it, from `n` on. -/
def recordWindows (n : Nat) : List AggCall → List Nat
  | [] => []
  | c :: calls => if c.isDrain then recordWindows (n + 1) calls else n :: recordWindows n calls

variable {startMs n : Nat} {calls : List AggCall} {c : AggCall}

theorem recordWindows_snoc (n : Nat) (calls : List AggCall) (c : AggCall) :
    recordWindows n (calls ++ [c]) = recordWindows n calls ++
      if c.isDrain then [] else [n + calls.countP (·.isDrain)] := by
  induction calls generalizing n with
  | nil => by_cases hc : c.isDrain = true <;> simp [recordWindows, hc]
  | cons d calls ih =>
    by_cases hd : d.isDrain = true
    · have hn : n + 1 + calls.countP (·.isDrain) = n + (calls.countP (·.isDrain) + 1) := by omega
      simp [recordWindows, hd, ih, hn]
    · simp [recordWindows, hd, ih]

/-- The aggregator of the task has come from these calls. -/
structure Flusher.Logs (startMs : Nat) (s : Flusher) (calls : List AggCall) : Prop where
  run : (RpcPlane.aggregation startMs).run ⟨{ windowStartMs := startMs }, []⟩ calls = some s.aggregation
  windows : s.recordedIn = recordWindows 0 calls
  drains : s.aggregation.drains.length = calls.countP (·.isDrain)

theorem Flusher.Logs.recorded (h : s.Logs startMs calls) (hc : c.isDrain = false)
    (hd : (s.aggregation.after c).drains = s.aggregation.drains) :
    (s.recorded c).Logs startMs (calls ++ [c]) where
  run := by
    rw [System.run_snoc, h.run]
    rfl
  windows := by
    have hn : 0 + calls.countP (·.isDrain) = s.aggregation.drains.length := by
      rw [Nat.zero_add, h.drains]
    rw [recordWindows_snoc, hc, hn, ← h.windows]
    rfl
  drains := by
    show (s.aggregation.after c).drains.length = _
    rw [hd, h.drains, List.countP_append]
    simp [hc]

theorem Flusher.Logs.collected (h : s.Logs startMs calls) {now : Nat} {order : DrainOrder}
    {batch : List BatchItem} {phase : FlushPhase} :
    ({ s with
      batch := batch
      aggregation := s.aggregation.after (.drain now order)
      phase := phase } : Flusher).Logs startMs (calls ++ [.drain now order]) where
  run := by
    rw [System.run_snoc, h.run]
    rfl
  windows := by
    rw [recordWindows_snoc, ← h.windows]
    exact (List.append_nil _).symm
  drains := by
    rw [List.countP_append, ← h.drains]
    simp [Aggregation.after, AggCall.isDrain]

end logs

end RpcPlane
