import RpcPlane.HistoricalQueue
import RpcPlane.HistoricalTotals
import RpcPlane.Potential

/-! Conservation: over every interleaving of `finish` calls, worker steps and flushes, each
eligible call and each dropped job is in exactly one place. -/

namespace RpcPlane

def HistoricalAggregate.drops (event : HistoricalAggregate) :
    HistoricalAnalyzerDropReason → Nat
  | .queueFull => event.queueFullDropCount
  | .byteBudgetExhausted => event.byteBudgetExhaustedDropCount
  | .oversizedJob => event.oversizedJobDropCount

/-! What each part of the state holds: eligible calls, and drops not yet reported. -/

def FinishPhase.owed : FinishPhase → Nat
  | .admitted call _ => call.cls.eligibleCalls
  | .acquired job => job.job.cls.eligibleCalls
  | .refused job => job.job.cls.eligibleCalls
  | .dropping _ logical => logical
  | .counted _ => 0
  | .returned => 0

def FinishPhase.reason : FinishPhase → Option HistoricalAnalyzerDropReason
  | .refused _ => some .queueFull
  | .dropping reason _ => some reason
  | .counted reason => some reason
  | _ => none

def FinishPhase.pending (reason : HistoricalAnalyzerDropReason) (phase : FinishPhase) : Nat :=
  if phase.reason = some reason then 1 else 0

def Message.eligibleCalls : Message → Nat
  | .analyze job => job.job.cls.eligibleCalls
  | .flush => 0

def Worker.held : Worker → Nat
  | .processing job => job.job.cls.eligibleCalls
  | _ => 0

def Worker.taken : Worker → QualityCounts
  | .flushing _ taken _ => taken
  | _ => fun _ => 0

/-- The eligible calls of the jobs that are queued or that the worker has received. -/
def Analytics.queued (s : Analytics) : Nat :=
  (s.queue.map Message.eligibleCalls).sum + s.worker.held

def Analytics.owed (s : Analytics) : Nat := (s.finishing.map FinishPhase.owed).sum

def Analytics.emittedLogical (s : Analytics) : Nat :=
  (s.emitted.map (·.counts.logicalRequestCount)).sum

def Analytics.reported (s : Analytics) (reason : HistoricalAnalyzerDropReason) : Nat :=
  (s.emitted.map (·.drops reason)).sum

/-- Drops in a counter, taken by the flush in progress, or of a call that has not counted
its own yet. -/
def Analytics.pending (s : Analytics) (reason : HistoricalAnalyzerDropReason) : Nat :=
  s.quality reason.counter + s.worker.taken reason.counter +
    (s.finishing.map (FinishPhase.pending reason)).sum

def Analytics.balance (s : Analytics) : Nat :=
  s.emittedLogical + totalLogical s.core.windows + s.quality .droppedLogical +
    s.worker.taken .droppedLogical + s.queued + s.owed

section phase

variable {s : Analytics} {i : Nat} {phase : FinishPhase} (h : s.finishing[i]? = some phase)
  (next : FinishPhase)

include h

theorem Analytics.setPhase_owed : (s.setPhase i next).owed + phase.owed = s.owed + next.owed :=
  sum_map_set FinishPhase.owed h next

theorem Analytics.setPhase_pending (reason : HistoricalAnalyzerDropReason) :
    (s.setPhase i next).pending reason + phase.pending reason =
      s.pending reason + next.pending reason := by
  have hsum := sum_map_set (FinishPhase.pending reason) h next
  simp only [pending, setPhase]
  omega

theorem Analytics.setPhase_balance :
    (s.setPhase i next).balance + phase.owed = s.balance + next.owed := by
  have hsum := setPhase_owed h next
  simp only [balance, setPhase, emittedLogical, queued, owed] at *
  omega

end phase

theorem Analytics.pushed_balance (s : Analytics) (m : Message) :
    Analytics.balance { s with queue := s.queue ++ [m] } = s.balance + m.eligibleCalls := by
  have hsum : ((s.queue ++ [m]).map Message.eligibleCalls).sum =
      (s.queue.map Message.eligibleCalls).sum + m.eligibleCalls := by
    rw [List.map_append, List.sum_append, List.map_singleton, List.sum_singleton]
  simp only [balance, emittedLogical, queued, owed, hsum]
  omega

theorem Analytics.popped_balance {s : Analytics} {m : Message} {rest : List Message}
    (hq : s.queue = m :: rest) :
    Analytics.balance { s with queue := rest } + m.eligibleCalls = s.balance := by
  have hsum : (s.queue.map Message.eligibleCalls).sum =
      m.eligibleCalls + (rest.map Message.eligibleCalls).sum := by
    rw [hq, List.map_cons, List.sum_cons]
  simp only [balance, emittedLogical, queued, owed, hsum]
  omega

section startFlush

variable {s : Analytics} (hw : s.worker = .idle) (now : Instant) (endMs : Nat)

include hw

theorem Analytics.startFlush_balance : (s.startFlush now endMs).balance = s.balance := by
  have hexpire : totalLogical (s.core.expire now).windows = totalLogical s.core.windows :=
    (totalLogical_stable _).expire now rfl
  simp only [balance, startFlush, emittedLogical, queued, owed, hw, hexpire, Worker.held,
    Worker.taken]

theorem Analytics.startFlush_pending (reason : HistoricalAnalyzerDropReason) :
    (s.startFlush now endMs).pending reason = s.pending reason := by
  simp only [pending, startFlush, hw, Worker.taken]

end startFlush

/-- What one step does, one constructor for each outcome. -/
inductive Analytics.Move (config : HistoricalAnalyticsConfig) (parser : ValueParser)
    (s : Analytics) : AnalyticsEvent → Analytics → Prop
  | finish {call listed} (h : call.Counted listed) :
    Move config parser s (.finish call listed)
      { s with finishing := s.finishing ++ [.entered config call] }
  | acquire {i now call units} (hp : s.finishing[i]? = some (.admitted call units))
    (hu : units ≤ s.permits) :
    Move config parser s (.acquire i now)
      ({ s with permits := s.permits - units }.setPhase i (.acquired ⟨call.job now, units⟩))
  | exhaust {i now call units} (hp : s.finishing[i]? = some (.admitted call units))
    (hu : ¬ units ≤ s.permits) :
    Move config parser s (.acquire i now)
      (s.setPhase i (.dropping .byteBudgetExhausted call.cls.eligibleCalls))
  | send {i job} (hp : s.finishing[i]? = some (.acquired job)) (hs : s.hasSlot config = true) :
    Move config parser s (.send i)
      ({ s with queue := s.queue ++ [Message.analyze job] }.setPhase i .returned)
  | refuse {i job} (hp : s.finishing[i]? = some (.acquired job)) (hs : ¬ s.hasSlot config = true) :
    Move config parser s (.send i) (s.setPhase i (.refused job))
  | release {i job} (hp : s.finishing[i]? = some (.refused job)) :
    Move config parser s (.release i)
      ({ s with permits := s.permits + job.units }.setPhase i
        (.dropping .queueFull job.job.cls.eligibleCalls))
  | countLogical {i reason logical} (hp : s.finishing[i]? = some (.dropping reason logical)) :
    Move config parser s (.countLogical i)
      ((s.fetchAdd .droppedLogical logical).setPhase i (.counted reason))
  | countReason {i reason} (hp : s.finishing[i]? = some (.counted reason)) :
    Move config parser s (.countReason i) ((s.fetchAdd reason.counter 1).setPhase i .returned)
  | reserveFlush : Move config parser s .reserveFlush { s with reserved := s.reserved + 1 }
  | sendFlush :
    Move config parser s .sendFlush
      { s with reserved := s.reserved - 1, queue := s.queue ++ [Message.flush] }
  | receive {now endMs job rest} (hw : s.worker = .idle)
    (hq : s.queue = Message.analyze job :: rest) :
    Move config parser s (.receive now endMs) { s with queue := rest, worker := .processing job }
  | receiveFlush {now endMs rest} (hw : s.worker = .idle) (hq : s.queue = Message.flush :: rest) :
    Move config parser s (.receive now endMs) ({ s with queue := rest }.startFlush now endMs)
  | process {job} (hw : s.worker = .processing job) :
    Move config parser s .process
      { s with
        core := s.core.process parser job.job
        permits := s.permits + job.units
        worker := .idle }
  | tick {now endMs} (hw : s.worker = .idle) :
    Move config parser s (.tick now endMs) (s.startFlush now endMs)
  | swap {k rest taken endMs} (hw : s.worker = .flushing (k :: rest) taken endMs) :
    Move config parser s .swap
      { s with
        quality := Function.update s.quality k 0
        worker := .flushing rest (Function.update taken k (s.quality k)) endMs }
  | emit {taken endMs} (hw : s.worker = .flushing [] taken endMs) :
    Move config parser s .emit
      { s with
        core := (s.core.flush taken endMs config.stateCapacity).1
        emitted := s.emitted ++ (s.core.flush taken endMs config.stateCapacity).2
        worker := .idle }

theorem Analytics.step_move {config : HistoricalAnalyticsConfig} {parser : ValueParser}
    {s t : Analytics} {e : AnalyticsEvent} (h : s.step config parser e = some t) :
    s.Move config parser e t := by
  cases e with
  | finish call listed =>
    obtain ⟨hc, hu⟩ := eq_of_guard h
    obtain rfl := Option.some.inj hu
    exact .finish hc
  | acquire i now =>
    simp only [step] at h
    split at h
    · rename_i call units hp
      by_cases hu : units ≤ s.permits
      · obtain rfl := Option.some.inj ((if_pos hu).symm.trans h)
        exact .acquire hp hu
      · obtain rfl := Option.some.inj ((if_neg hu).symm.trans h)
        exact .exhaust hp hu
    · cases h
  | send i =>
    simp only [step] at h
    split at h
    · rename_i job hp
      by_cases hs : s.hasSlot config = true
      · obtain rfl := Option.some.inj ((if_pos hs).symm.trans h)
        exact .send hp hs
      · obtain rfl := Option.some.inj ((if_neg hs).symm.trans h)
        exact .refuse hp hs
    · cases h
  | release i =>
    simp only [step] at h
    split at h
    · rename_i job hp
      obtain rfl := Option.some.inj h
      exact .release hp
    · cases h
  | countLogical i =>
    simp only [step] at h
    split at h
    · rename_i reason logical hp
      obtain rfl := Option.some.inj h
      exact .countLogical hp
    · cases h
  | countReason i =>
    simp only [step] at h
    split at h
    · rename_i reason hp
      obtain rfl := Option.some.inj h
      exact .countReason hp
    · cases h
  | reserveFlush =>
    obtain ⟨hs, hu⟩ := eq_of_guard h
    obtain rfl := Option.some.inj hu
    exact .reserveFlush
  | sendFlush =>
    obtain ⟨hs, hu⟩ := eq_of_guard h
    obtain rfl := Option.some.inj hu
    exact .sendFlush
  | receive now endMs =>
    simp only [step] at h
    split at h
    · rename_i job rest hw hq
      obtain rfl := Option.some.inj h
      exact .receive hw hq
    · rename_i rest hw hq
      obtain rfl := Option.some.inj h
      exact .receiveFlush hw hq
    · cases h
  | process =>
    simp only [step] at h
    split at h
    · rename_i job hw
      obtain rfl := Option.some.inj h
      exact .process hw
    · cases h
  | tick now endMs =>
    simp only [step] at h
    split at h
    · rename_i hw
      obtain rfl := Option.some.inj h
      exact .tick hw
    · cases h
  | swap =>
    simp only [step] at h
    split at h
    · rename_i k rest taken endMs hw
      obtain rfl := Option.some.inj h
      exact .swap hw
    · cases h
  | emit =>
    simp only [step] at h
    split at h
    · rename_i taken endMs hw
      obtain rfl := Option.some.inj h
      exact .emit hw
    · cases h

theorem FinishPhase.entered_owed (config : HistoricalAnalyticsConfig) (call : HistoricalCall) :
    (FinishPhase.entered config call).owed = call.cls.eligibleCalls := by
  unfold entered
  by_cases hz : call.cls.eligibleCalls = 0
  · rw [if_pos hz, hz]
    rfl
  · rw [if_neg hz]
    cases call.admit config <;> rfl

theorem FinishPhase.entered_reason (config : HistoricalAnalyticsConfig) (call : HistoricalCall)
    (listed : List String) (s : Analytics) :
    (FinishPhase.entered config call).reason = s.drops config (.finish call listed) := by
  unfold Analytics.drops entered
  by_cases hz : call.cls.eligibleCalls = 0
  · simp only [if_pos hz]
    rfl
  · simp only [if_neg hz]
    cases call.admit config <;> rfl

/-- Every drop that a flush has taken is in one of its events. -/
theorem flush_drops (core : AnalyzerCore) (quality : QualityCounts) (endMs configuredCapacity : Nat)
    (reason : HistoricalAnalyzerDropReason) :
    ((core.flush quality endMs configuredCapacity).2.map (·.drops reason)).sum =
      quality reason.counter := by
  have hturn : ∀ c, ((core.takeEvent quality endMs configuredCapacity c).map
      (·.drops reason)).getD 0 = if c = .unknown then quality reason.counter else 0 := by
    intro c
    unfold AnalyzerCore.takeEvent
    dsimp only
    by_cases hskip : ((core.windows c).isEmpty &&
        !(c == HistoricalCommitment.unknown && QualityCounts.present quality)) = true
    · rw [if_pos hskip]
      by_cases hu : c = .unknown
      · have hnone : QualityCounts.present quality = false := by
          simp only [hu, beq_self_eq_true, Bool.true_and, Bool.and_eq_true,
            Bool.not_eq_true'] at hskip
          exact hskip.2
        simp [hu, counters_zero hnone]
      · simp [hu]
    · rw [if_neg hskip]
      by_cases hu : c = .unknown <;> cases reason <;>
        simp [hu, HistoricalAggregate.drops, HistoricalAnalyzerDropReason.counter]
  have hevents : (core.flush quality endMs configuredCapacity).2 =
      HistoricalCommitment.all.filterMap (core.takeEvent quality endMs configuredCapacity) := rfl
  rw [hevents, sum_map_filterMap]
  simp [HistoricalCommitment.all, hturn]

/-! What holds of every state: the windows obey their law, the jobs carry the calls they
show, and a flush has swapped only what it has taken. -/

def FinishPhase.Bounded (parser : ValueParser) : FinishPhase → Prop
  | .admitted call _ => ∀ now, (call.job now).Bounded parser
  | .acquired job => job.job.Bounded parser
  | _ => True

def Message.Bounded (parser : ValueParser) : Message → Prop
  | .analyze job => job.job.Bounded parser
  | .flush => True

def Worker.Sound (parser : ValueParser) : Worker → Prop
  | .idle => True
  | .processing job => job.job.Bounded parser
  | .flushing remaining taken _ => remaining.Nodup ∧ ∀ k ∈ remaining, taken k = 0

structure Analytics.Sound (parser : ValueParser) (s : Analytics) : Prop where
  lawful : Lawful s.core.windows
  finishing : ∀ phase ∈ s.finishing, phase.Bounded parser
  queue : ∀ m ∈ s.queue, m.Bounded parser
  worker : s.worker.Sound parser

theorem HistoricalCall.Counted.bounded {call : HistoricalCall} {listed : List String}
    (h : call.Counted listed) (parser : ValueParser) (now : Instant) :
    (call.job now).Bounded parser := by
  intro n hn
  have hcls : call.cls = .batch n := hn
  unfold HistoricalCall.Counted at h
  rw [hcls] at h
  exact batchCalls_length_le parser h

theorem FinishPhase.entered_bounded {call : HistoricalCall} {listed : List String}
    (h : call.Counted listed) (config : HistoricalAnalyticsConfig) (parser : ValueParser) :
    (FinishPhase.entered config call).Bounded parser := by
  unfold FinishPhase.entered
  split
  · trivial
  · split
    · trivial
    · exact h.bounded parser

section sound

variable {config : HistoricalAnalyticsConfig} {parser : ValueParser} {s : Analytics}

theorem Analytics.Sound.setPhase (h : s.Sound parser) (i : Nat) (phase : FinishPhase)
    (hp : phase.Bounded parser) : (s.setPhase i phase).Sound parser := by
  refine { h with finishing := ?_ }
  intro p hmem
  rcases List.mem_or_eq_of_mem_set hmem with hold | rfl
  · exact h.finishing p hold
  · exact hp

theorem Analytics.Sound.phase (h : s.Sound parser) {i : Nat} {phase : FinishPhase}
    (hp : s.finishing[i]? = some phase) : phase.Bounded parser :=
  h.finishing phase (List.mem_of_getElem? hp)

theorem Analytics.Sound.processing (h : s.Sound parser) {job : QueuedJob}
    (hw : s.worker = .processing job) : job.job.Bounded parser := by
  have hworker := h.worker
  rw [hw] at hworker
  exact hworker

theorem Analytics.Sound.flushing (h : s.Sound parser) {remaining : List QualityCounter}
    {taken : QualityCounts} {endMs : Nat} (hw : s.worker = .flushing remaining taken endMs) :
    remaining.Nodup ∧ ∀ k ∈ remaining, taken k = 0 := by
  have hworker := h.worker
  rw [hw] at hworker
  exact hworker

theorem Analytics.Sound.startFlush (h : s.Sound parser) (now : Instant) (endMs : Nat) :
    (s.startFlush now endMs).Sound parser :=
  { h with
    lawful := Lawful.stable.expire now h.lawful
    worker := ⟨by decide, fun _ _ => rfl⟩ }

theorem Analytics.Sound.withPermits (h : s.Sound parser) (n : Nat) :
    Analytics.Sound parser { s with permits := n } :=
  ⟨h.lawful, h.finishing, h.queue, h.worker⟩

theorem Analytics.Sound.withQuality (h : s.Sound parser) (q : QualityCounts) :
    Analytics.Sound parser { s with quality := q } :=
  ⟨h.lawful, h.finishing, h.queue, h.worker⟩

theorem Analytics.Sound.pushed (h : s.Sound parser) (m : Message) (hm : m.Bounded parser) :
    Analytics.Sound parser { s with queue := s.queue ++ [m] } := by
  refine ⟨h.lawful, h.finishing, ?_, h.worker⟩
  intro m' hmem
  rcases List.mem_append.mp hmem with hold | hnew
  · exact h.queue m' hold
  · obtain rfl := List.mem_singleton.mp hnew
    exact hm

theorem Analytics.Sound.popped (h : s.Sound parser) {m : Message} {rest : List Message}
    (hq : s.queue = m :: rest) : Analytics.Sound parser { s with queue := rest } := by
  have hqueue := h.queue
  rw [hq] at hqueue
  exact ⟨h.lawful, h.finishing, fun m' hm => hqueue m' (List.mem_cons_of_mem _ hm), h.worker⟩

theorem Analytics.Sound.move {t : Analytics} {e : AnalyticsEvent} (h : s.Sound parser)
    (hm : s.Move config parser e t) : t.Sound parser := by
  cases hm with
  | finish hc =>
    refine { h with finishing := ?_ }
    intro p hp
    rcases List.mem_append.mp hp with hold | hnew
    · exact h.finishing p hold
    · obtain rfl := List.mem_singleton.mp hnew
      exact FinishPhase.entered_bounded hc config parser
  | @acquire i now call units hp hu =>
    have hcall : (call.job now).Bounded parser := h.phase hp now
    exact (h.withPermits (s.permits - units)).setPhase i (.acquired ⟨call.job now, units⟩) hcall
  | exhaust hp hu => exact h.setPhase _ (.dropping _ _) trivial
  | @send i job hp hs =>
    have hjob : job.job.Bounded parser := h.phase hp
    exact (h.pushed (.analyze job) hjob).setPhase i .returned trivial
  | refuse hp hs => exact h.setPhase _ (.refused _) trivial
  | release hp => exact (h.withPermits _).setPhase _ (.dropping _ _) trivial
  | countLogical hp => exact (h.withQuality _).setPhase _ (.counted _) trivial
  | countReason hp => exact (h.withQuality _).setPhase _ .returned trivial
  | reserveFlush => exact ⟨h.lawful, h.finishing, h.queue, h.worker⟩
  | sendFlush =>
    have hpushed := h.pushed .flush trivial
    exact ⟨hpushed.lawful, hpushed.finishing, hpushed.queue, hpushed.worker⟩
  | @receive now endMs job rest hw hq =>
    have hjob : (Message.analyze job).Bounded parser :=
      h.queue _ (hq ▸ List.mem_cons_self)
    have hpopped := h.popped hq
    exact ⟨hpopped.lawful, hpopped.finishing, hpopped.queue, hjob⟩
  | receiveFlush hw hq => exact (h.popped hq).startFlush _ _
  | process hw =>
    exact { h with lawful := h.lawful.process parser _, worker := trivial }
  | tick hw => exact h.startFlush _ _
  | @swap k rest taken endMs hw =>
    obtain ⟨hnodup, htaken⟩ := h.flushing hw
    rw [List.nodup_cons] at hnodup
    refine { h with worker := ⟨hnodup.2, ?_⟩ }
    intro j hj
    have hne : j ≠ k := fun he => hnodup.1 (he ▸ hj)
    rw [Function.update_of_ne hne]
    exact htaken j (List.mem_cons_of_mem _ hj)
  | emit hw => exact { h with lawful := h.lawful.flush _ _ _, worker := trivial }

theorem Analytics.start_sound (hash : Json → Fingerprint) (nowMs : Nat) :
    (Analytics.start config hash nowMs).Sound parser where
  lawful := fun _ => HistoricalWindow.Law.zero
  finishing := by simp [Analytics.start]
  queue := by simp [Analytics.start]
  worker := trivial

end sound

/-- A swap moves a counter to what the flush has taken. -/
theorem swap_total {q taken : QualityCounts} {k : QualityCounter} (hk : taken k = 0)
    (j : QualityCounter) :
    Function.update q k 0 j + Function.update taken k (q k) j = q j + taken j := by
  by_cases hj : j = k
  · subst hj
    simp [hk]
  · simp [hj]

section step

variable {config : HistoricalAnalyticsConfig} {parser : ValueParser} {s t : Analytics}
  {e : AnalyticsEvent}

theorem Analytics.Move.balance (h : s.Sound parser) (hm : s.Move config parser e t) :
    t.balance = s.balance + e.eligibleCalls := by
  cases hm with
  | @finish call listed hc =>
    have howed := FinishPhase.entered_owed config call
    simp only [Analytics.balance, emittedLogical, queued, owed, List.map_append, List.map_cons,
      List.map_nil, List.sum_append, List.sum_cons, List.sum_nil, howed,
      AnalyticsEvent.eligibleCalls]
    omega
  | @acquire i now call units hp hu =>
    have hb := setPhase_balance (s := { s with permits := s.permits - units }) hp
      (.acquired ⟨call.job now, units⟩)
    exact Nat.add_right_cancel hb
  | @exhaust i now call units hp hu =>
    exact Nat.add_right_cancel (setPhase_balance hp _)
  | @send i job hp hs =>
    have hb := setPhase_balance (s := { s with queue := s.queue ++ [Message.analyze job] }) hp
      .returned
    have hqueue := s.pushed_balance (.analyze job)
    simp only [FinishPhase.owed, Message.eligibleCalls, AnalyticsEvent.eligibleCalls] at *
    omega
  | refuse hp hs => exact Nat.add_right_cancel (setPhase_balance hp _)
  | @release i job hp =>
    have hb := setPhase_balance (s := { s with permits := s.permits + job.units }) hp
      (.dropping .queueFull job.job.cls.eligibleCalls)
    exact Nat.add_right_cancel hb
  | @countLogical i reason logical hp =>
    have hb := setPhase_balance (s := s.fetchAdd .droppedLogical logical) hp (.counted reason)
    have hadd : (s.fetchAdd .droppedLogical logical).balance = s.balance + logical := by
      simp only [Analytics.balance, fetchAdd, emittedLogical, queued, owed, Function.update_self]
      omega
    simp only [FinishPhase.owed, AnalyticsEvent.eligibleCalls] at *
    omega
  | @countReason i reason hp =>
    have hb := setPhase_balance (s := s.fetchAdd reason.counter 1) hp .returned
    have hadd : (s.fetchAdd reason.counter 1).balance = s.balance := by
      cases reason <;> rfl
    simp only [FinishPhase.owed, AnalyticsEvent.eligibleCalls] at *
    omega
  | reserveFlush => rfl
  | sendFlush => exact s.pushed_balance .flush
  | @receive now endMs job rest hw hq =>
    have hpopped := popped_balance hq
    simp only [Analytics.balance, emittedLogical, queued, owed, hw, Message.eligibleCalls,
      Worker.held, Worker.taken, AnalyticsEvent.eligibleCalls] at *
    omega
  | @receiveFlush now endMs rest hw hq =>
    have hpopped := popped_balance hq
    exact (startFlush_balance (s := { s with queue := rest }) hw now endMs).trans hpopped
  | process hw =>
    have htotal := process_total s.core (h.processing hw)
    simp only [Analytics.balance, emittedLogical, queued, owed, hw, htotal, Worker.held,
      Worker.taken, AnalyticsEvent.eligibleCalls]
    omega
  | @tick now endMs hw => exact startFlush_balance hw now endMs
  | @swap k rest taken endMs hw =>
    have hzero := (h.flushing hw).2 k List.mem_cons_self
    have htotal := swap_total (q := s.quality) hzero .droppedLogical
    simp only [Analytics.balance, emittedLogical, queued, owed, hw, Worker.held, Worker.taken,
      AnalyticsEvent.eligibleCalls]
    omega
  | @emit taken endMs hw =>
    have hflush := flush_logical s.core taken endMs config.stateCapacity
    simp only [Analytics.balance, emittedLogical, queued, owed, hw, Worker.held, Worker.taken,
      List.map_append, List.sum_append, AnalyticsEvent.eligibleCalls]
    omega

/-- A step adds to the drops that are reported or pending the one that it makes. -/
theorem Analytics.Move.drops (h : s.Sound parser) (hm : s.Move config parser e t)
    (reason : HistoricalAnalyzerDropReason) :
    t.reported reason + t.pending reason =
      s.reported reason + s.pending reason + if s.drops config e = some reason then 1 else 0 := by
  cases hm with
  | @finish call listed hc =>
    have hreason := FinishPhase.entered_reason config call listed s
    simp only [reported, pending, List.map_append, List.map_cons, List.map_nil, List.sum_append,
      List.sum_cons, List.sum_nil, FinishPhase.pending, hreason]
    omega
  | @acquire i now call units hp hu =>
    have hb := setPhase_pending (s := { s with permits := s.permits - units }) hp
      (.acquired ⟨call.job now, units⟩) reason
    have hnone : s.drops config (.acquire i now) = none := by
      simp [Analytics.drops, hp, hu]
    rw [hnone]
    exact congrArg (s.reported reason + ·) hb
  | @exhaust i now call units hp hu =>
    have hb := setPhase_pending hp (.dropping .byteBudgetExhausted call.cls.eligibleCalls) reason
    have hsome : s.drops config (.acquire i now) = some .byteBudgetExhausted := by
      simp [Analytics.drops, hp, hu]
    rw [hsome]
    exact (congrArg (s.reported reason + ·) hb).trans (Nat.add_assoc _ _ _).symm
  | @send i job hp hs =>
    have hb := setPhase_pending (s := { s with queue := s.queue ++ [Message.analyze job] }) hp
      .returned reason
    have hnone : s.drops config (.send i) = none := by
      simp [Analytics.drops, hp, hs]
    rw [hnone]
    exact congrArg (s.reported reason + ·) hb
  | @refuse i job hp hs =>
    have hb := setPhase_pending hp (.refused job) reason
    have hsome : s.drops config (.send i) = some .queueFull := by
      simp [Analytics.drops, hp, hs]
    rw [hsome]
    exact (congrArg (s.reported reason + ·) hb).trans (Nat.add_assoc _ _ _).symm
  | @release i job hp =>
    have hb := setPhase_pending (s := { s with permits := s.permits + job.units }) hp
      (.dropping .queueFull job.job.cls.eligibleCalls) reason
    exact congrArg (s.reported reason + ·) (Nat.add_right_cancel hb)
  | @countLogical i dropped logical hp =>
    have hb := setPhase_pending (s := s.fetchAdd .droppedLogical logical) hp (.counted dropped)
      reason
    have hadd : (s.fetchAdd .droppedLogical logical).pending reason = s.pending reason := by
      cases reason <;> rfl
    rw [hadd] at hb
    exact congrArg (s.reported reason + ·) (Nat.add_right_cancel hb)
  | @countReason i dropped hp =>
    have hb := setPhase_pending (s := s.fetchAdd dropped.counter 1) hp .returned reason
    have hadd : (s.fetchAdd dropped.counter 1).pending reason =
        s.pending reason + FinishPhase.pending reason (.counted dropped) := by
      cases reason <;> cases dropped <;>
        simp [pending, fetchAdd, FinishPhase.pending, FinishPhase.reason,
          HistoricalAnalyzerDropReason.counter] <;> omega
    rw [hadd, Nat.add_right_comm] at hb
    exact congrArg (s.reported reason + ·) (Nat.add_right_cancel hb)
  | reserveFlush => rfl
  | sendFlush => rfl
  | receive hw hq => simp [reported, pending, hw, Worker.taken, Analytics.drops]
  | @receiveFlush now endMs rest hw hq =>
    exact congrArg (s.reported reason + ·)
      (startFlush_pending (s := { s with queue := rest }) hw now endMs reason)
  | process hw => simp [reported, pending, hw, Worker.taken, Analytics.drops]
  | @tick now endMs hw =>
    exact congrArg (s.reported reason + ·) (startFlush_pending hw now endMs reason)
  | @swap k rest taken endMs hw =>
    have hzero := (h.flushing hw).2 k List.mem_cons_self
    have htotal := swap_total (q := s.quality) hzero reason.counter
    simp only [reported, pending, hw, Worker.taken, Analytics.drops, reduceCtorEq, if_false]
    omega
  | @emit taken endMs hw =>
    have hflush := flush_drops s.core taken endMs config.stateCapacity reason
    simp only [reported, pending, hw, Worker.taken, List.map_append, List.sum_append,
      Analytics.drops, reduceCtorEq, if_false]
    omega

end step

/-- The test of three counters decides whether a window has counted anything. -/
theorem HistoricalWindow.Law.eq_empty {w : HistoricalWindow} (h : w.Law 0)
    (he : w.isEmpty = true) : w = {} := by
  have hzero : (w.logicalRequestCount = 0 ∧ w.stateCapacityEvictionCount = 0) ∧
      w.stateTtlExpirationCount = 0 := by
    simpa [HistoricalWindow.isEmpty] using he
  obtain ⟨analyzed, logical, found, slotAge, null, polls, timeToFound, reuse, capacity, ttl⟩ := h
  have hslot : ∑ i, w.slotAgeBucketCounts i = 0 := by omega
  have hpolls : ∑ i, w.pollsBeforeFoundBucketCounts i = 0 := by omega
  have htime : ∑ i, w.timeToFoundBucketCounts i = 0 := by omega
  have hreuse : ∑ i, w.foundReuseBucketCounts i = 0 := by omega
  rw [Finset.sum_eq_zero_iff] at hslot hpolls htime hreuse
  have hslot' : w.slotAgeBucketCounts = fun _ => 0 := funext fun i => hslot i (Finset.mem_univ i)
  have hpolls' : w.pollsBeforeFoundBucketCounts = fun _ => 0 :=
    funext fun i => hpolls i (Finset.mem_univ i)
  have htime' : w.timeToFoundBucketCounts = fun _ => 0 := funext fun i => htime i (Finset.mem_univ i)
  have hreuse' : w.foundReuseBucketCounts = fun _ => 0 :=
    funext fun i => hreuse i (Finset.mem_univ i)
  cases w
  simp only [HistoricalWindow.mk.injEq] at *
  refine ⟨?_, ?_, ?_, ?_, ?_, ?_, ?_, ?_, ?_, ?_, ?_, ?_, hslot', ?_, ?_, hpolls', htime', hreuse',
    ?_, ?_, ?_, ?_, ?_⟩ <;> omega

theorem AnalyzerCore.takeEvent_none {core : AnalyzerCore} (h : Lawful core.windows)
    {quality : QualityCounts} {endMs configuredCapacity : Nat} {c : HistoricalCommitment}
    (hskip : core.takeEvent quality endMs configuredCapacity c = none) : core.windows c = {} := by
  refine (h c).eq_empty ?_
  unfold takeEvent at hskip
  dsimp only at hskip
  by_contra he
  simp [he] at hskip

/-- No `finish` call has begun without returning, and the worker is not inside `flush`. -/
def Analytics.Quiet (s : Analytics) : Prop :=
  (∀ phase ∈ s.finishing, phase = .returned) ∧
    ∀ remaining taken endMs, s.worker ≠ .flushing remaining taken endMs

theorem Analytics.Quiet.owed {s : Analytics} (h : s.Quiet) : s.owed = 0 := by
  refine List.sum_eq_zero ?_
  intro n hn
  obtain ⟨phase, hp, rfl⟩ := List.mem_map.mp hn
  rw [h.1 phase hp]
  rfl

theorem Analytics.Quiet.taken {s : Analytics} (h : s.Quiet) (k : QualityCounter) :
    s.worker.taken k = 0 := by
  cases hw : s.worker with
  | flushing remaining taken endMs => exact absurd hw (h.2 remaining taken endMs)
  | _ => rfl

theorem Analytics.Quiet.pending {s : Analytics} (h : s.Quiet)
    (reason : HistoricalAnalyzerDropReason) : s.pending reason = s.quality reason.counter := by
  have hsum : (s.finishing.map (FinishPhase.pending reason)).sum = 0 := by
    refine List.sum_eq_zero ?_
    intro n hn
    obtain ⟨phase, hp, rfl⟩ := List.mem_map.mp hn
    rw [h.1 phase hp]
    rfl
  have htaken := h.taken reason.counter
  unfold Analytics.pending
  omega

section run

variable (config : HistoricalAnalyticsConfig) (parser : ValueParser) (hash : Json → Fingerprint)
  (nowMs : Nat)

/-- The drops of a run, in order. -/
def dropped (events : List AnalyticsEvent) : List HistoricalAnalyzerDropReason :=
  ((analytics config parser hash nowMs).steps (.start config hash nowMs) events).filterMap
    (fun step => step.1.drops config step.2.1)

/-- The account of a run: every eligible call and every drop is in one place. -/
structure Analytics.Account (events : List AnalyticsEvent) (s : Analytics) : Prop where
  sound : s.Sound parser
  calls : s.balance = offered events
  drops : ∀ reason, s.reported reason + s.pending reason =
    (dropped config parser hash nowMs events).count reason

theorem Analytics.account {events : List AnalyticsEvent} {s : Analytics}
    (h : (analytics config parser hash nowMs).run (.start config hash nowMs) events = some s) :
    s.Account config parser hash nowMs events := by
  refine System.invariant_history (I := Account config parser hash nowMs) ?_ ?_ h
  · refine ⟨Analytics.start_sound hash nowMs, ?_, ?_⟩
    · rfl
    · intro reason
      cases reason <;> rfl
  · intro events s e t hrun hs hstep
    have hmove : s.Move config parser e t := step_move hstep
    refine ⟨hs.sound.move hmove, ?_, ?_⟩
    · rw [hmove.balance hs.sound, hs.calls, offered, offered, List.map_append, List.sum_append]
      rfl
    · intro reason
      rw [hmove.drops hs.sound, hs.drops, dropped, dropped, System.steps_snoc hrun hstep,
        List.filterMap_append, List.count_append]
      cases hd : s.drops config e with
      | none => simp [hd]
      | some r => by_cases hr : r = reason <;> simp [hd, hr]

/-- Whatever the order of `finish` calls, worker steps and flushes: when nothing is in
progress every eligible call is in an aggregate, a window, the dropped counter or the queue;
every drop is in one counter of one aggregate or pending; and a window that a flush would
skip has counted nothing. -/
theorem historical_conservation (events : List AnalyticsEvent) (s : Analytics)
    (h : (analytics config parser hash nowMs).run (.start config hash nowMs) events = some s) :
    (s.Quiet → offered events = s.emittedLogical + totalLogical s.core.windows +
        s.quality .droppedLogical + s.queued ∧
      ∀ reason, s.pending reason = s.quality reason.counter) ∧
    (∀ reason, (dropped config parser hash nowMs events).count reason =
      s.reported reason + s.pending reason) ∧
    ∀ c quality endMs,
      s.core.takeEvent quality endMs config.stateCapacity c = none → s.core.windows c = {} := by
  have haccount := Analytics.account config parser hash nowMs h
  refine ⟨?_, fun reason => (haccount.drops reason).symm, ?_⟩
  · intro hq
    have hcalls := haccount.calls
    have howed := hq.owed
    have htaken := hq.taken .droppedLogical
    refine ⟨?_, hq.pending⟩
    unfold Analytics.balance at hcalls
    omega
  · intro c quality endMs hskip
    exact AnalyzerCore.takeEvent_none haccount.sound.lawful hskip

end run

def oneJobBudget : HistoricalAnalyticsConfig := { maxQueuedBytes := queueByteUnit }

def emptyCall : HistoricalCall := ⟨.single, ⟨[], none, by simp⟩, ⟨[], none, by simp⟩, 200, {}⟩

def secondCallDropped : List AnalyticsEvent :=
  [.finish emptyCall [], .finish emptyCall [], .acquire 0 7, .acquire 1 7, .send 0,
    .countLogical 1, .countReason 1, .tick 9 9, .swap, .swap, .swap, .swap, .swap, .emit]

/-- The flush reports the second call while the first is still queued. -/
theorem historical_conservation_dropped :
    ∃ s, (analytics oneJobBudget ⟨Body.json, fun _ _ h => h⟩ (fun _ => (0, 0)) 0).run
        (.start oneJobBudget (fun _ => (0, 0)) 0) secondCallDropped = some s ∧
      s.Quiet ∧ s.emittedLogical = 1 ∧ s.queued = 1 ∧
      offered secondCallDropped = s.emittedLogical + totalLogical s.core.windows +
        s.quality .droppedLogical + s.queued ∧
      s.reported .byteBudgetExhausted + s.pending .byteBudgetExhausted = 1 := by
  have hrun : ((analytics oneJobBudget ⟨Body.json, fun _ _ h => h⟩ (fun _ => (0, 0)) 0).run
      (.start oneJobBudget (fun _ => (0, 0)) 0) secondCallDropped).map
        (fun s => (s.emittedLogical, s.queued, s.finishing, s.worker)) =
          some (1, 1, [.returned, .returned], .idle) := rfl
  obtain ⟨s, hrun, hs⟩ := Option.map_eq_some_iff.mp hrun
  simp only [Prod.mk.injEq] at hs
  obtain ⟨hlogical, hqueued, hfinishing, hworker⟩ := hs
  have hquiet : s.Quiet := by
    refine ⟨?_, ?_⟩
    · simp [hfinishing]
    · simp [hworker]
  have haccount := historical_conservation oneJobBudget ⟨Body.json, fun _ _ h => h⟩
    (fun _ => (0, 0)) 0 secondCallDropped s hrun
  exact ⟨s, hrun, hquiet, hlogical, hqueued, (haccount.1 hquiet).1,
    (haccount.2.1 .byteBudgetExhausted).symm⟩

end RpcPlane
