import RpcPlane.Fifo
import RpcPlane.HistoricalConservation
import RpcPlane.TransactionAnalytics

/-! The `flush` of the two analytics: when it has been answered, the jobs that were sent to the
worker before it are done with, and what came of them has gone on. -/

namespace RpcPlane

theorem AnalyzerCore.flush_leaves_nothing {core : AnalyzerCore} (h : Lawful core.windows)
    (quality : QualityCounts) (endMs configuredCapacity : Nat) :
    totalLogical (core.flush quality endMs configuredCapacity).1.windows = 0 := by
  have hempty : ∀ c, (core.flush quality endMs configuredCapacity).1.windows c = {} := by
    intro c
    cases he : core.takeEvent quality endMs configuredCapacity c with
    | none => simp [flush, he, takeEvent_none h he]
    | some event => simp [flush, he]
  simp [totalLogical, hempty]

/-! The historical analytics. -/

def Message.isFlush : Message → Bool
  | .flush => true
  | .analyze _ => false

/-- What a step puts into the channel, and what it takes out of it. -/
def Analytics.sent (config : HistoricalAnalyticsConfig) (s : Analytics) :
    AnalyticsEvent → List Message
  | .send i =>
    match s.finishing[i]? with
    | some (.acquired job) => if s.hasSlot config then [.analyze job] else []
    | _ => []
  | .sendFlush => [.flush]
  | _ => []

def Analytics.received (s : Analytics) : AnalyticsEvent → List Message
  | .receive _ _ => s.queue.take 1
  | _ => []

/-- The `flush` calls: whether the worker is at one, and how many it has answered. -/
structure FlushCalls where
  serving : Bool := false
  answered : Nat := 0

def FlushCalls.after (f : FlushCalls) (s : Analytics) : AnalyticsEvent → FlushCalls
  | .receive now endMs => { f with serving := (s.received (.receive now endMs)).any Message.isFlush }
  | .emit => if f.serving then ⟨false, f.answered + 1⟩ else f
  | _ => f

section historical

variable (config : HistoricalAnalyticsConfig) (parser : ValueParser) (hash : Json → Fingerprint)
  (nowMs : Nat)

def flushCalls (events : List AnalyticsEvent) : FlushCalls :=
  ((analytics config parser hash nowMs).steps (.start config hash nowMs) events).foldl
    (fun f step => f.after step.1 step.2.1) {}

def sentMessages (events : List AnalyticsEvent) : List Message :=
  (analytics config parser hash nowMs).trace (Analytics.sent config) (.start config hash nowMs) events

def receivedMessages (events : List AnalyticsEvent) : List Message :=
  (analytics config parser hash nowMs).trace Analytics.received (.start config hash nowMs) events

theorem analytics_fifo : (analytics config parser hash nowMs).Fifo (·.queue) (Analytics.sent config)
    Analytics.received := by
  intro s e t h
  cases Analytics.step_move h with
  | send hp hs => simp [Analytics.received, Analytics.sent, hp, hs, Analytics.setPhase]
  | refuse hp hs => simp [Analytics.received, Analytics.sent, hp, hs, Analytics.setPhase]
  | receive hw hq => simp [Analytics.received, Analytics.sent, hq]
  | receiveFlush hw hq => simp [Analytics.received, Analytics.sent, hq, Analytics.startFlush]
  | sendFlush => rfl
  | finish | acquire | exhaust | release | countLogical | countReason | reserveFlush | process |
    tick | swap | emit => exact (List.append_nil _).symm

/-- What the worker has received, cut at its last emission: the calls before the cut are in the
aggregates, and every `flush` there is answered. -/
structure Analytics.Cut (events : List AnalyticsEvent) (s : Analytics) (out pending : List Message) :
    Prop where
  received : receivedMessages config parser hash nowMs events = out ++ pending
  answered : out.countP Message.isFlush = (flushCalls config parser hash nowMs events).answered
  serving : pending.countP Message.isFlush =
    if (flushCalls config parser hash nowMs events).serving then 1 else 0
  held : (pending.map Message.eligibleCalls).sum = totalLogical s.core.windows + s.worker.held
  flushing : (flushCalls config parser hash nowMs events).serving = true →
    ∃ remaining taken endMs, s.worker = .flushing remaining taken endMs

variable {config parser hash nowMs} {events : List AnalyticsEvent} {s t : Analytics}
  {e : AnalyticsEvent} {out pending : List Message}

theorem flushCalls_snoc
    (hrun : (analytics config parser hash nowMs).run (.start config hash nowMs) events = some s)
    (ht : s.step config parser e = some t) :
    flushCalls config parser hash nowMs (events ++ [e]) =
      (flushCalls config parser hash nowMs events).after s e := by
  unfold flushCalls
  rw [System.steps_snoc hrun ht, List.foldl_append]
  rfl

theorem receivedMessages_snoc
    (hrun : (analytics config parser hash nowMs).run (.start config hash nowMs) events = some s)
    (ht : s.step config parser e = some t) :
    receivedMessages config parser hash nowMs (events ++ [e]) =
      receivedMessages config parser hash nowMs events ++ s.received e :=
  System.trace_snoc Analytics.received hrun ht

/-- A step that receives nothing and emits nothing. -/
theorem Analytics.Cut.frame (h : s.Cut config parser hash nowMs events out pending)
    (hrun : (analytics config parser hash nowMs).run (.start config hash nowMs) events = some s)
    (ht : s.step config parser e = some t) (hr : s.received e = [])
    (ha : ∀ f : FlushCalls, f.after s e = f)
    (hheld : totalLogical t.core.windows + t.worker.held =
      totalLogical s.core.windows + s.worker.held)
    (hw : (flushCalls config parser hash nowMs events).serving = true →
      ∃ remaining taken endMs, t.worker = .flushing remaining taken endMs) :
    t.Cut config parser hash nowMs (events ++ [e]) out pending where
  received := by rw [receivedMessages_snoc hrun ht, hr, List.append_nil, h.received]
  answered := by rw [flushCalls_snoc hrun ht, ha, h.answered]
  serving := by rw [flushCalls_snoc hrun ht, ha, h.serving]
  held := by rw [hheld, h.held]
  flushing := by
    rw [flushCalls_snoc hrun ht, ha]
    exact hw

theorem Analytics.Cut.not_serving (h : s.Cut config parser hash nowMs events out pending)
    (hw : s.worker = .idle) : (flushCalls config parser hash nowMs events).serving = false := by
  cases hserving : (flushCalls config parser hash nowMs events).serving with
  | false => rfl
  | true =>
    obtain ⟨remaining, taken, endMs, hflushing⟩ := h.flushing hserving
    rw [hw] at hflushing
    cases hflushing

theorem Analytics.Cut.step (h : s.Cut config parser hash nowMs events out pending)
    (hsound : s.Sound parser)
    (hrun : (analytics config parser hash nowMs).run (.start config hash nowMs) events = some s)
    (ht : s.step config parser e = some t) :
    ∃ out pending, t.Cut config parser hash nowMs (events ++ [e]) out pending := by
  cases Analytics.step_move ht with
  | receive hw hq =>
    rename_i now endMs job rest
    have hidle := h.not_serving hw
    have hreceived : s.received (.receive now endMs) = [.analyze job] := by
      simp [Analytics.received, hq]
    have hafter : ∀ f : FlushCalls, f.serving = false → f.after s (.receive now endMs) = f := by
      intro f hf
      cases f
      simp only [FlushCalls.after, hreceived]
      simpa [Message.isFlush] using hf.symm
    refine ⟨out, pending ++ [.analyze job], ?_, ?_, ?_, ?_, ?_⟩
    · rw [receivedMessages_snoc hrun ht, hreceived, h.received, List.append_assoc]
    · rw [flushCalls_snoc hrun ht, hafter _ hidle, h.answered]
    · rw [flushCalls_snoc hrun ht, hafter _ hidle, List.countP_append, h.serving]
      rfl
    · have hheld := h.held
      rw [hw] at hheld
      rw [List.map_append, List.sum_append, hheld]
      rfl
    · rw [flushCalls_snoc hrun ht, hafter _ hidle, hidle]
      intro habsurd
      cases habsurd
  | receiveFlush hw hq =>
    rename_i now endMs rest
    have hidle := h.not_serving hw
    have hserving := h.serving
    rw [hidle] at hserving
    have hreceived : s.received (.receive now endMs) = [.flush] := by
      simp [Analytics.received, hq]
    have hafter : (flushCalls config parser hash nowMs (events ++ [.receive now endMs])) =
        { flushCalls config parser hash nowMs events with serving := true } := by
      rw [flushCalls_snoc hrun ht]
      simp [FlushCalls.after, hreceived, Message.isFlush]
    have hexpire : totalLogical (s.core.expire now).windows = totalLogical s.core.windows :=
      (totalLogical_stable _).expire now rfl
    refine ⟨out, pending ++ [.flush], ?_, ?_, ?_, ?_, ?_⟩
    · rw [receivedMessages_snoc hrun ht, hreceived, h.received, List.append_assoc]
    · rw [hafter, h.answered]
    · rw [hafter, List.countP_append, hserving]
      rfl
    · have hheld := h.held
      rw [hw] at hheld
      rw [List.map_append, List.sum_append, hheld]
      show _ = totalLogical (s.core.expire now).windows + 0
      rw [hexpire]
      rfl
    · intro _
      exact ⟨_, _, _, rfl⟩
  | process hw =>
    rename_i job
    have htotal := process_total s.core (hsound.processing hw)
    refine ⟨out, pending, h.frame hrun ht rfl (fun f => rfl) ?_ ?_⟩
    · rw [hw, htotal]
      rfl
    · intro hserving
      obtain ⟨remaining, taken, endMs, hflushing⟩ := h.flushing hserving
      rw [hw] at hflushing
      cases hflushing
  | tick hw =>
    rename_i now endMs
    have hexpire : totalLogical (s.core.expire now).windows = totalLogical s.core.windows :=
      (totalLogical_stable _).expire now rfl
    refine ⟨out, pending, h.frame hrun ht rfl (fun f => rfl) ?_ (fun _ => ⟨_, _, _, rfl⟩)⟩
    rw [hw]
    show totalLogical (s.core.expire now).windows + 0 = _
    rw [hexpire]
    rfl
  | swap hw =>
    refine ⟨out, pending, h.frame hrun ht rfl (fun f => rfl) ?_ (fun _ => ⟨_, _, _, rfl⟩)⟩
    rw [hw]
    rfl
  | emit hw =>
    rename_i taken endMs
    have hempty := AnalyzerCore.flush_leaves_nothing hsound.lawful taken endMs config.stateCapacity
    refine ⟨out ++ pending, [], ?_, ?_, ?_, ?_, ?_⟩
    · rw [receivedMessages_snoc hrun ht, h.received]
      rfl
    · rw [flushCalls_snoc hrun ht, List.countP_append, h.answered, h.serving]
      simp only [FlushCalls.after]
      split <;> rfl
    · rw [flushCalls_snoc hrun ht]
      cases hserving : (flushCalls config parser hash nowMs events).serving <;>
        simp [FlushCalls.after, hserving]
    · show 0 = totalLogical (s.core.flush taken endMs config.stateCapacity).1.windows + 0
      rw [hempty]
    · rw [flushCalls_snoc hrun ht]
      cases hserving : (flushCalls config parser hash nowMs events).serving <;>
        simp [FlushCalls.after, hserving]
  | finish | acquire | exhaust | send | refuse | release | countLogical | countReason |
    reserveFlush | sendFlush =>
    exact ⟨out, pending, h.frame hrun ht rfl (fun f => rfl) rfl h.flushing⟩

theorem analytics_cut
    (hrun : (analytics config parser hash nowMs).run (.start config hash nowMs) events = some s) :
    ∃ out pending, s.Cut config parser hash nowMs events out pending := by
  refine System.invariant_history
    (I := fun events s => ∃ out pending, s.Cut config parser hash nowMs events out pending)
    ?_ ?_ hrun
  · refine ⟨[], [], rfl, rfl, rfl, rfl, ?_⟩
    intro habsurd
    cases habsurd
  · rintro events s e t hrun ⟨out, pending, h⟩ ht
    have hsound := (Analytics.account config parser hash nowMs hrun).sound
    exact h.step hsound hrun ht

/-- Once more `flush` calls are answered than were sent before this one, the jobs that were sent
before it are in the aggregates. -/
theorem analytics_flush_barrier {es₁ es₂ : List AnalyticsEvent} {s₁ : Analytics}
    (h₁ : (analytics config parser hash nowMs).run (.start config hash nowMs) es₁ = some s₁)
    (hrun : (analytics config parser hash nowMs).run (.start config hash nowMs)
      (es₁ ++ .sendFlush :: es₂) = some s)
    (hanswered : (sentMessages config parser hash nowMs es₁).countP Message.isFlush <
      (flushCalls config parser hash nowMs (es₁ ++ .sendFlush :: es₂)).answered) :
    ∃ out pending, s.Cut config parser hash nowMs (es₁ ++ .sendFlush :: es₂) out pending ∧
      sentMessages config parser hash nowMs es₁ <+: out := by
  obtain ⟨out, pending, h⟩ := analytics_cut hrun
  have hfifo := analytics_fifo config parser hash nowMs
  have hout : out <+: receivedMessages config parser hash nowMs (es₁ ++ .sendFlush :: es₂) := by
    rw [h.received]
    exact List.prefix_append _ _
  rw [← h.answered] at hanswered
  have hbarrier := hfifo.barrier Message.isFlush rfl h₁ rfl hrun hout hanswered
  exact ⟨out, pending, h, (List.prefix_append _ _).trans hbarrier⟩

end historical

/-! The transaction analytics. -/

def TransactionMessage.isFlush : TransactionMessage → Bool
  | .flush => true
  | .decode _ => false

def TransactionAnalytics.sent (s : TransactionAnalytics) :
    TransactionEvent → List TransactionMessage
  | .finish .single body acknowledging =>
    if s.hasSlot then [.decode (.new body acknowledging)] else []
  | .sendFlush => [.flush]
  | _ => []

/-- The worker answers a `flush` as soon as it has received it. -/
def TransactionAnalytics.received (s : TransactionAnalytics) :
    TransactionEvent → List TransactionMessage
  | .receive => s.queue.take 1
  | _ => []

section transactions

variable {decodeRequest : Body → Except DecodeError TransactionInfo} {startMs : Nat}
  {s₀ s t : TransactionAnalytics} {e : TransactionEvent} {events : List TransactionEvent}

/-- What a step does to the channel, and where the job comes from that the worker is at then. -/
theorem TransactionAnalytics.step_queue (h : s.step decodeRequest e = some t) :
    s.received e ++ t.queue = s.queue ++ s.sent e ∧
      ∀ job, t.worker = some job →
        s.worker = some job ∧ s.received e = [] ∨ s.received e = [.decode job] := by
  cases e with
  | finish cls body acknowledging =>
    obtain rfl := Option.some.inj h
    cases cls with
    | none => exact ⟨(List.append_nil _).symm, fun job hjob => Or.inl ⟨hjob, rfl⟩⟩
    | batch => exact ⟨(List.append_nil _).symm, fun job hjob => Or.inl ⟨hjob, rfl⟩⟩
    | single =>
      by_cases hs : s.hasSlot = true
      · refine ⟨by simp [finish, sent, received, hs], ?_⟩
        intro job hjob
        exact Or.inl ⟨by simpa [finish, hs] using hjob, rfl⟩
      · refine ⟨by simp [finish, sent, received, hs], ?_⟩
        intro job hjob
        exact Or.inl ⟨by simpa [finish, hs] using hjob, rfl⟩
  | drop i =>
    simp only [step] at h
    split at h
    · obtain rfl := Option.some.inj h
      exact ⟨(List.append_nil _).symm, fun job hjob => Or.inl ⟨hjob, rfl⟩⟩
    · cases h
  | reserveFlush =>
    obtain ⟨-, hu⟩ := eq_of_guard h
    obtain rfl := Option.some.inj hu
    exact ⟨(List.append_nil _).symm, fun job hjob => Or.inl ⟨hjob, rfl⟩⟩
  | sendFlush =>
    obtain ⟨-, hu⟩ := eq_of_guard h
    obtain rfl := Option.some.inj hu
    exact ⟨rfl, fun job hjob => Or.inl ⟨hjob, rfl⟩⟩
  | receive =>
    simp only [step] at h
    split at h
    · rename_i next rest hw hq
      obtain rfl := Option.some.inj h
      have hreceived : s.received .receive = [.decode next] := by simp [received, hq]
      refine ⟨by simp [hreceived, sent, hq], ?_⟩
      intro job hjob
      obtain rfl := Option.some.inj hjob
      exact Or.inr hreceived
    · rename_i rest hw hq
      obtain rfl := Option.some.inj h
      refine ⟨by simp [received, sent, hq], ?_⟩
      intro job hjob
      have hnone : s.worker = some job := hjob
      rw [hw] at hnone
      cases hnone
    · cases h
  | record =>
    simp only [step] at h
    split at h
    · obtain rfl := Option.some.inj h
      refine ⟨(List.append_nil _).symm, ?_⟩
      intro job hjob
      cases hjob
    · cases h
  | request key latencyMs count =>
    obtain rfl := Option.some.inj h
    exact ⟨(List.append_nil _).symm, fun job hjob => Or.inl ⟨hjob, rfl⟩⟩
  | drain now order =>
    obtain rfl := Option.some.inj h
    exact ⟨(List.append_nil _).symm, fun job hjob => Or.inl ⟨hjob, rfl⟩⟩

theorem transactionAnalytics_fifo (decodeRequest : Body → Except DecodeError TransactionInfo)
    (startMs : Nat) : (transactionAnalytics decodeRequest startMs).Fifo (·.queue)
      TransactionAnalytics.sent TransactionAnalytics.received :=
  fun _ _ _ h => (TransactionAnalytics.step_queue h).1

/-- What the worker is at is what it received last. -/
theorem worker_received_last (hs : s₀.worker = none)
    (hrun : (transactionAnalytics decodeRequest startMs).run s₀ events = some s) :
    ∀ job, s.worker = some job → ((transactionAnalytics decodeRequest startMs).trace
      TransactionAnalytics.received s₀ events).getLast? = some (.decode job) := by
  refine System.invariant_history (I := fun events s => ∀ job,
    TransactionAnalytics.worker s = some job →
      ((transactionAnalytics decodeRequest startMs).trace TransactionAnalytics.received s₀
        events).getLast? = some (.decode job)) ?_ ?_ hrun
  · intro job hjob
    rw [hs] at hjob
    cases hjob
  · intro events s e t hrun ih ht job hjob
    rw [System.trace_snoc _ hrun ht]
    rcases (TransactionAnalytics.step_queue ht).2 job hjob with ⟨hsame, hnone⟩ | hlast
    · rw [hnone, List.append_nil]
      exact ih job hsame
    · rw [hlast, List.getLast?_append]
      rfl

/-- Every job in the channel was submitted. -/
theorem sent_submitted (s : TransactionAnalytics) (e : TransactionEvent) :
    ((s.sent e).filterMap (·.job?)).Sublist e.submitted.toList := by
  cases e with
  | finish cls body acknowledging =>
    cases cls with
    | none => exact List.nil_sublist _
    | batch => exact List.nil_sublist _
    | single =>
      simp only [TransactionAnalytics.sent]
      split
      · exact List.Sublist.refl _
      · exact List.nil_sublist _
  | drop | reserveFlush | sendFlush | receive | record | request | drain => exact List.nil_sublist _

theorem sent_submitted_trace
    (hrun : (transactionAnalytics decodeRequest startMs).run s₀ events = some s)
    (q : TransactionJob → Bool) :
    (((transactionAnalytics decodeRequest startMs).trace TransactionAnalytics.sent s₀
      events).filterMap (·.job?)).countP q ≤ (events.filterMap (·.submitted)).countP q := by
  induction events generalizing s₀ with
  | nil => exact le_rfl
  | cons e events ih =>
    obtain ⟨u, hu, hr⟩ := Option.bind_eq_some_iff.mp hrun
    have hfirst := (sent_submitted s₀ e).countP_le (p := q)
    have hrest := ih hr
    have hsplit : ((e :: events).filterMap (·.submitted)).countP q =
        e.submitted.toList.countP q + (events.filterMap (·.submitted)).countP q := by
      rw [← List.countP_append]
      cases he : e.submitted <;> simp [he]
    rw [System.trace_cons _ hu, List.filterMap_append, List.countP_append, hsplit]
    omega

/-- Once more `flush` calls are received than were sent before this one, the jobs still on their
way are later ones, apart from those that `try_send` gave back. -/
theorem transactions_flush_barrier {es₁ es₂ : List TransactionEvent} {s₁ : TransactionAnalytics}
    (hq : s₀.queue = []) (hw : s₀.worker = none)
    (h₁ : (transactionAnalytics decodeRequest startMs).run s₀ es₁ = some s₁)
    (hrun : (transactionAnalytics decodeRequest startMs).run s₀ (es₁ ++ .sendFlush :: es₂) = some s)
    (hanswered : ((transactionAnalytics decodeRequest startMs).trace TransactionAnalytics.sent s₀
        es₁).countP TransactionMessage.isFlush <
      ((transactionAnalytics decodeRequest startMs).trace TransactionAnalytics.received s₀
        (es₁ ++ .sendFlush :: es₂)).countP TransactionMessage.isFlush)
    (q : TransactionJob → Bool) :
    (es₁.filterMap (·.submitted)).countP q + s.outstanding.countP q ≤
      ((es₁ ++ .sendFlush :: es₂).filterMap (·.submitted)).countP q + s.refused.countP q := by
  have hfifo := transactionAnalytics_fifo decodeRequest startMs
  obtain ⟨more, hmore⟩ := hfifo.barrier TransactionMessage.isFlush hq h₁ rfl hrun
    List.prefix_rfl hanswered
  have hlast := worker_received_last hw hrun
  have hall := hfifo.run hrun
  have hrest : (transactionAnalytics decodeRequest startMs).run s₁ (.sendFlush :: es₂) = some s := by
    rw [System.run_append, h₁] at hrun
    exact hrun
  obtain ⟨s₂, hs₂, h₂⟩ := Option.bind_eq_some_iff.mp hrest
  have hlater := sent_submitted_trace h₂ q
  -- what went in after the `flush` is what came out after it and what is still there
  have hafter : more ++ s.queue = (transactionAnalytics decodeRequest startMs).trace
      TransactionAnalytics.sent s₂ es₂ := by
    have hsent : (transactionAnalytics decodeRequest startMs).trace TransactionAnalytics.sent s₀
        (es₁ ++ .sendFlush :: es₂) =
        (transactionAnalytics decodeRequest startMs).trace TransactionAnalytics.sent s₀ es₁ ++
          ([.flush] ++ (transactionAnalytics decodeRequest startMs).trace
            TransactionAnalytics.sent s₂ es₂) := by
      rw [System.trace_append _ h₁, System.trace_cons _ hs₂]
      rfl
    rw [hsent, hq, List.nil_append, ← hmore, List.append_assoc, List.append_assoc] at hall
    exact List.append_cancel_left (List.append_cancel_left hall)
  have hworker : s.worker.toList.countP q ≤ (more.filterMap (·.job?)).countP q := by
    cases hwork : s.worker with
    | none => exact Nat.zero_le _
    | some job =>
      have hend := hlast job hwork
      rw [← hmore] at hend
      have hmem : TransactionMessage.decode job ∈ more := by
        cases more using List.reverseRecOn with
        | nil =>
          rw [List.append_nil, List.getLast?_append] at hend
          cases hend
        | append_singleton more m =>
          rw [← List.append_assoc, List.getLast?_append] at hend
          obtain rfl := Option.some.inj hend
          simp
      have hjob : job ∈ more.filterMap (·.job?) := List.mem_filterMap.mpr ⟨_, hmem, rfl⟩
      exact (List.singleton_sublist.mpr hjob).countP_le
  rw [← hafter, List.filterMap_append, List.countP_append] at hlater
  have hsubmitted : (es₁ ++ .sendFlush :: es₂).filterMap (·.submitted) =
      es₁.filterMap (·.submitted) ++ es₂.filterMap (·.submitted) := by
    rw [List.filterMap_append]
    rfl
  rw [hsubmitted, List.countP_append]
  simp only [TransactionAnalytics.outstanding, List.countP_append]
  omega

end transactions

end RpcPlane
