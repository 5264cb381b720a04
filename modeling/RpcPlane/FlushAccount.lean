import RpcPlane.AnalyticsFlush

/-! An answered `flush` of the historical analytics accounts for every call before it, also for
those that were dropped. -/

namespace RpcPlane

/-- The calls counted as dropped: all of them, those before the flush that began last, and those
before the last one that is done. -/
structure DropMarks where
  counted : Nat := 0
  started : Nat := 0
  settled : Nat := 0

def Analytics.countedDrop (s : Analytics) : AnalyticsEvent → Nat
  | .countLogical i =>
    match s.finishing[i]? with
    | some (.dropping _ logical) => logical
    | _ => 0
  | _ => 0

def DropMarks.after (m : DropMarks) (s : Analytics) : AnalyticsEvent → DropMarks
  | .countLogical i => { m with counted := m.counted + s.countedDrop (.countLogical i) }
  | .receive now endMs =>
    if (s.received (.receive now endMs)).any Message.isFlush then { m with started := m.counted }
    else m
  | .tick _ _ => { m with started := m.counted }
  | .emit => { m with settled := m.started }
  | _ => m

section run

variable (config : HistoricalAnalyticsConfig) (parser : ValueParser) (hash : Json → Fingerprint)
  (nowMs : Nat)

def dropMarks (events : List AnalyticsEvent) : DropMarks :=
  ((analytics config parser hash nowMs).steps (.start config hash nowMs) events).foldl
    (fun m step => m.after step.1 step.2.1) {}

variable {config parser hash nowMs} {events : List AnalyticsEvent} {s t : Analytics}
  {e : AnalyticsEvent} {m : DropMarks}

theorem dropMarks_snoc
    (hrun : (analytics config parser hash nowMs).run (.start config hash nowMs) events = some s)
    (ht : s.step config parser e = some t) :
    dropMarks config parser hash nowMs (events ++ [e]) =
      (dropMarks config parser hash nowMs events).after s e := by
  unfold dropMarks
  rw [System.steps_snoc hrun ht, List.foldl_append]
  rfl

/-- What the counter and the flush in progress hold are drops that no flush that is done has. -/
structure Analytics.Settles (s : Analytics) (m : DropMarks) : Prop where
  settled : m.settled ≤ m.started
  started : m.started ≤ m.counted
  held : s.quality .droppedLogical + s.worker.taken .droppedLogical + m.settled ≤ m.counted
  swapped : ∀ remaining taken endMs, s.worker = .flushing remaining taken endMs →
    .droppedLogical ∉ remaining → s.quality .droppedLogical + m.started ≤ m.counted

theorem Analytics.Settles.startFlush (h : s.Settles m) (now : Instant) (endMs : Nat) :
    (s.startFlush now endMs).Settles { m with started := m.counted } := by
  refine ⟨h.settled.trans h.started, le_rfl, ?_, ?_⟩
  · have hheld := h.held
    show s.quality .droppedLogical + 0 + m.settled ≤ m.counted
    omega
  · intro remaining taken endMs' hw hswapped
    obtain ⟨rfl, -, -⟩ := Worker.flushing.inj hw
    exact absurd (by decide) hswapped

theorem Analytics.Settles.step (h : s.Settles m) (hsound : s.Sound parser)
    (ht : s.step config parser e = some t) : t.Settles (m.after s e) := by
  cases Analytics.step_move ht with
  | @countLogical i reason logical hp =>
    have hcounted : s.countedDrop (.countLogical i) = logical := by
      simp [countedDrop, hp]
    have hquality : ((s.fetchAdd .droppedLogical logical).setPhase i (.counted reason)).quality
        .droppedLogical = s.quality .droppedLogical + logical := by
      simp [setPhase, fetchAdd]
    refine ⟨h.settled, ?_, ?_, ?_⟩
    · show m.started ≤ m.counted + _
      exact Nat.le_add_right_of_le h.started
    · have hheld := h.held
      rw [hquality]
      show _ + s.worker.taken .droppedLogical + m.settled ≤ m.counted + _
      omega
    · intro remaining taken endMs hw hswapped
      have hrest := h.swapped remaining taken endMs hw hswapped
      rw [hquality]
      show _ + m.started ≤ m.counted + _
      omega
  | @countReason i reason hp =>
    have hquality : ((s.fetchAdd reason.counter 1).setPhase i .returned).quality .droppedLogical =
        s.quality .droppedLogical := by
      cases reason <;> rfl
    refine ⟨h.settled, h.started, ?_, ?_⟩
    · rw [hquality]
      exact h.held
    · rw [hquality]
      exact h.swapped
  | @receive now endMs job rest hw hq =>
    have hmark : m.after s (.receive now endMs) = m := by
      simp [DropMarks.after, received, hq, Message.isFlush]
    rw [hmark]
    have hheld := h.held
    rw [hw] at hheld
    refine ⟨h.settled, h.started, hheld, ?_⟩
    intro remaining taken endMs hflushing
    cases hflushing
  | @receiveFlush now endMs rest hw hq =>
    have hmark : m.after s (.receive now endMs) = { m with started := m.counted } := by
      simp [DropMarks.after, received, hq, Message.isFlush]
    rw [hmark]
    have hpopped : Analytics.Settles { s with queue := rest } m :=
      ⟨h.settled, h.started, h.held, h.swapped⟩
    exact hpopped.startFlush now endMs
  | @process job hw =>
    have hheld := h.held
    rw [hw] at hheld
    refine ⟨h.settled, h.started, hheld, ?_⟩
    intro remaining taken endMs hflushing
    cases hflushing
  | @tick now endMs hw => exact h.startFlush now endMs
  | @swap k rest taken endMs hw =>
    have hzero := (hsound.flushing hw).2 k List.mem_cons_self
    have htotal := swap_total (q := s.quality) hzero .droppedLogical
    have hheld := h.held
    rw [hw] at hheld
    refine ⟨h.settled, h.started, ?_, ?_⟩
    · show Function.update s.quality k 0 .droppedLogical +
        Function.update taken k (s.quality k) .droppedLogical + m.settled ≤ m.counted
      rw [htotal]
      exact hheld
    · intro remaining taken' endMs' hflushing hswapped
      obtain ⟨rfl, -, -⟩ := Worker.flushing.inj hflushing
      show Function.update s.quality k 0 .droppedLogical + m.started ≤ m.counted
      by_cases hk : k = .droppedLogical
      · subst hk
        rw [Function.update_self, Nat.zero_add]
        exact h.started
      · rw [Function.update_of_ne (Ne.symm hk)]
        apply h.swapped _ _ _ hw
        intro hmem
        rcases List.mem_cons.mp hmem with hk' | hmem
        · exact hk hk'.symm
        · exact hswapped hmem
  | @emit taken endMs hw =>
    have hswapped := h.swapped _ _ _ hw List.not_mem_nil
    refine ⟨le_rfl, h.started, hswapped, ?_⟩
    intro remaining taken endMs hflushing
    cases hflushing
  | finish | acquire | exhaust | send | refuse | release | reserveFlush | sendFlush =>
    exact ⟨h.settled, h.started, h.held, h.swapped⟩

theorem analytics_settles
    (hrun : (analytics config parser hash nowMs).run (.start config hash nowMs) events = some s) :
    s.Settles (dropMarks config parser hash nowMs events) := by
  refine System.invariant_history
    (I := fun events s => Analytics.Settles s (dropMarks config parser hash nowMs events)) ?_ ?_ hrun
  · refine ⟨le_rfl, le_rfl, le_rfl, ?_⟩
    intro remaining taken endMs hflushing
    cases hflushing
  · intro events s e t hrun h ht
    rw [dropMarks_snoc hrun ht]
    exact h.step (Analytics.account config parser hash nowMs hrun).sound ht

theorem Analytics.step_owed (m : DropMarks) (ht : s.step config parser e = some t) :
    t.owed + ((s.sent config e).map Message.eligibleCalls).sum + (m.after s e).counted =
      s.owed + e.eligibleCalls + m.counted := by
  cases Analytics.step_move ht with
  | @finish call listed hc =>
    have howed := FinishPhase.entered_owed config call
    have hadded : Analytics.owed { s with finishing := s.finishing ++ [.entered config call] } =
        s.owed + call.cls.eligibleCalls := by
      simp [owed, howed]
    rw [hadded]
    rfl
  | @acquire i now call units hp hu =>
    have hphase := setPhase_owed (s := { s with permits := s.permits - units }) hp
      (.acquired ⟨call.job now, units⟩)
    have howed := Nat.add_right_cancel hphase
    rw [howed]
    rfl
  | @exhaust i now call units hp hu =>
    have hphase := setPhase_owed hp (.dropping .byteBudgetExhausted call.cls.eligibleCalls)
    have howed := Nat.add_right_cancel hphase
    rw [howed]
    rfl
  | @send i job hp hs =>
    have hphase := setPhase_owed (s := { s with queue := s.queue ++ [Message.analyze job] }) hp
      .returned
    have hsent : ((s.sent config (.send i)).map Message.eligibleCalls).sum =
        job.job.cls.eligibleCalls := by
      simp [sent, hp, hs, Message.eligibleCalls]
    rw [hsent]
    simp only [FinishPhase.owed, AnalyticsEvent.eligibleCalls, DropMarks.after, owed] at *
    omega
  | @refuse i job hp hs =>
    have hphase := setPhase_owed hp (.refused job)
    have howed := Nat.add_right_cancel hphase
    have hsent : s.sent config (.send i) = [] := by
      simp [sent, hp, hs]
    rw [howed, hsent]
    rfl
  | @release i job hp =>
    have hphase := setPhase_owed (s := { s with permits := s.permits + job.units }) hp
      (.dropping .queueFull job.job.cls.eligibleCalls)
    have howed := Nat.add_right_cancel hphase
    rw [howed]
    rfl
  | @countLogical i reason logical hp =>
    have hphase := setPhase_owed (s := s.fetchAdd .droppedLogical logical) hp (.counted reason)
    have hcounted : s.countedDrop (.countLogical i) = logical := by
      simp [countedDrop, hp]
    simp only [FinishPhase.owed, AnalyticsEvent.eligibleCalls, DropMarks.after, hcounted, sent,
      owed, fetchAdd, List.map_nil, List.sum_nil] at *
    omega
  | @countReason i reason hp =>
    have hphase := setPhase_owed (s := s.fetchAdd reason.counter 1) hp .returned
    have howed := Nat.add_right_cancel hphase
    rw [howed]
    rfl
  | @receive now endMs job rest hw hq =>
    simp [DropMarks.after, received, hq, Message.isFlush, sent, AnalyticsEvent.eligibleCalls, owed]
  | @receiveFlush now endMs rest hw hq =>
    simp [DropMarks.after, received, hq, Message.isFlush, sent, AnalyticsEvent.eligibleCalls, owed,
      startFlush]
  | reserveFlush | sendFlush | process | tick | swap | emit => rfl

/-- Every eligible call is in progress, or its job was sent, or it was counted as dropped. -/
theorem offered_split
    (hrun : (analytics config parser hash nowMs).run (.start config hash nowMs) events = some s) :
    offered events = s.owed +
      ((sentMessages config parser hash nowMs events).map Message.eligibleCalls).sum +
        (dropMarks config parser hash nowMs events).counted := by
  refine System.invariant_history (I := fun events s => offered events = Analytics.owed s +
    ((sentMessages config parser hash nowMs events).map Message.eligibleCalls).sum +
      (dropMarks config parser hash nowMs events).counted) rfl ?_ hrun
  intro events s e t hrun ih ht
  have hsent : sentMessages config parser hash nowMs (events ++ [e]) =
      sentMessages config parser hash nowMs events ++ s.sent config e :=
    System.trace_snoc (Analytics.sent config) hrun ht
  have hoffered : offered (events ++ [e]) = offered events + e.eligibleCalls := by
    simp [offered]
  have howed := Analytics.step_owed (dropMarks config parser hash nowMs events) ht
  rw [dropMarks_snoc hrun ht, hsent, hoffered, List.map_append, List.sum_append]
  omega

/-- No `flush` is served or answered before it was sent. -/
theorem flushCalls_le
    (hrun : (analytics config parser hash nowMs).run (.start config hash nowMs) events = some s) :
    (flushCalls config parser hash nowMs events).answered +
        (if (flushCalls config parser hash nowMs events).serving then 1 else 0) ≤
      (sentMessages config parser hash nowMs events).countP Message.isFlush := by
  obtain ⟨out, pending, h⟩ := analytics_cut hrun
  have hfifo := (analytics_fifo config parser hash nowMs).received_begins rfl hrun
  have hcount := hfifo.sublist.countP_le (p := Message.isFlush)
  have hreceived : (receivedMessages config parser hash nowMs events).countP Message.isFlush =
      out.countP Message.isFlush + pending.countP Message.isFlush := by
    rw [h.received, List.countP_append]
  rw [← h.answered, ← h.serving, ← hreceived]
  exact hcount

/-- What a `flush` sent after the drops of a run has to do with them: the flush that serves it
begins with them, and settles them before it is answered. -/
structure DropMarks.Follows (drops sent : Nat) (m : DropMarks) (f : FlushCalls) : Prop where
  counted : drops ≤ m.counted
  serving : f.serving = true → sent ≤ f.answered → drops ≤ m.started
  answered : sent < f.answered → drops ≤ m.settled

theorem DropMarks.Follows.step {drops sent : Nat} {f : FlushCalls} (h : m.Follows drops sent f)
    (hs : s.Settles m) (ht : s.step config parser e = some t) :
    (m.after s e).Follows drops sent (f.after s e) := by
  cases Analytics.step_move ht with
  | countLogical hp => exact ⟨Nat.le_add_right_of_le h.counted, h.serving, h.answered⟩
  | @receive now endMs job rest hw hq =>
    have hmark : m.after s (.receive now endMs) = m := by
      simp [DropMarks.after, Analytics.received, hq, Message.isFlush]
    have hcalls : f.after s (.receive now endMs) = { f with serving := false } := by
      simp [FlushCalls.after, Analytics.received, hq, Message.isFlush]
    rw [hmark, hcalls]
    refine ⟨h.counted, ?_, h.answered⟩
    intro habsurd
    cases habsurd
  | @receiveFlush now endMs rest hw hq =>
    have hmark : m.after s (.receive now endMs) = { m with started := m.counted } := by
      simp [DropMarks.after, Analytics.received, hq, Message.isFlush]
    have hcalls : f.after s (.receive now endMs) = { f with serving := true } := by
      simp [FlushCalls.after, Analytics.received, hq, Message.isFlush]
    rw [hmark, hcalls]
    exact ⟨h.counted, fun _ _ => h.counted, h.answered⟩
  | tick hw => exact ⟨h.counted, fun _ _ => h.counted, h.answered⟩
  | emit hw =>
    cases hserving : f.serving with
    | true =>
      have hcalls : f.after s .emit = ⟨false, f.answered + 1⟩ := by
        simp [FlushCalls.after, hserving]
      rw [hcalls]
      refine ⟨h.counted, ?_, ?_⟩
      · intro habsurd
        cases habsurd
      · intro hlt
        exact h.serving hserving (Nat.lt_succ_iff.mp hlt)
    | false =>
      have hcalls : f.after s .emit = f := by
        simp [FlushCalls.after, hserving]
      rw [hcalls]
      refine ⟨h.counted, h.serving, ?_⟩
      intro hlt
      exact (h.answered hlt).trans hs.settled
  | finish | acquire | exhaust | send | refuse | release | countReason | reserveFlush | sendFlush |
    process | swap => exact h

section mark

variable {es₁ es₂ : List AnalyticsEvent} {s₁ : Analytics}
  (h₁ : (analytics config parser hash nowMs).run (.start config hash nowMs) es₁ = some s₁)
  (hrun : (analytics config parser hash nowMs).run (.start config hash nowMs)
    (es₁ ++ .sendFlush :: es₂) = some s)

include h₁ hrun

theorem dropMarks_follows :
    (dropMarks config parser hash nowMs (es₁ ++ .sendFlush :: es₂)).Follows
      (dropMarks config parser hash nowMs es₁).counted
      ((sentMessages config parser hash nowMs es₁).countP Message.isFlush)
      (flushCalls config parser hash nowMs (es₁ ++ .sendFlush :: es₂)) := by
  induction es₂ using List.reverseRecOn generalizing s with
  | nil =>
    rw [System.run_snoc, h₁] at hrun
    have hstep : s₁.step config parser .sendFlush = some s := hrun
    rw [dropMarks_snoc h₁ hstep, flushCalls_snoc h₁ hstep]
    have hle := flushCalls_le h₁
    refine ⟨le_rfl, ?_, ?_⟩
    · intro hserving hsent
      have hone : (flushCalls config parser hash nowMs es₁).serving = true := hserving
      have hanswered : _ ≤ (flushCalls config parser hash nowMs es₁).answered := hsent
      rw [if_pos hone] at hle
      omega
    · intro hlt
      have hanswered : _ < (flushCalls config parser hash nowMs es₁).answered := hlt
      omega
  | append_singleton es₂ e ih =>
    rw [← List.cons_append, ← List.append_assoc] at hrun ⊢
    have hlast := hrun
    rw [System.run_snoc] at hlast
    obtain ⟨u, hu, ht⟩ := Option.bind_eq_some_iff.mp hlast
    rw [dropMarks_snoc hu ht, flushCalls_snoc hu ht]
    exact (ih hu).step (analytics_settles hu) ht

/-- When a `flush` has been answered, the aggregates have every eligible call that was offered
before it, but for those whose `finish` was still in progress. -/
theorem analytics_flush_account
    (hanswered : (sentMessages config parser hash nowMs es₁).countP Message.isFlush <
      (flushCalls config parser hash nowMs (es₁ ++ .sendFlush :: es₂)).answered) :
    offered es₁ ≤ s.emittedLogical + s₁.owed := by
  obtain ⟨out, pending, hcut, hout⟩ := analytics_flush_barrier h₁ hrun hanswered
  have hsplit₁ := offered_split h₁
  have hsplit := offered_split hrun
  have hbalance := (Analytics.account config parser hash nowMs hrun).calls
  have hdrops := (dropMarks_follows h₁ hrun).answered hanswered
  have hheld := (analytics_settles hrun).held
  have hsent : ((sentMessages config parser hash nowMs es₁).map Message.eligibleCalls).sum ≤
      (out.map Message.eligibleCalls).sum := by
    obtain ⟨more, rfl⟩ := hout
    simp
  have hmessages : ((sentMessages config parser hash nowMs
      (es₁ ++ .sendFlush :: es₂)).map Message.eligibleCalls).sum =
      (out.map Message.eligibleCalls).sum + (pending.map Message.eligibleCalls).sum +
        (s.queue.map Message.eligibleCalls).sum := by
    have hfifo := (analytics_fifo config parser hash nowMs).run hrun
    have hall : receivedMessages config parser hash nowMs (es₁ ++ .sendFlush :: es₂) ++ s.queue =
        sentMessages config parser hash nowMs (es₁ ++ .sendFlush :: es₂) := hfifo
    rw [← hall, hcut.received, List.map_append, List.map_append, List.sum_append, List.sum_append]
  have hpending := hcut.held
  unfold Analytics.balance Analytics.queued at hbalance
  omega

end mark

end run

end RpcPlane
