import RpcPlane.AggregatorLaw
import RpcPlane.Potential
import Mathlib.Data.List.Perm.Basic

/-! `TransactionAnalytics`: `finish` calls that run at the same time, the bounded queue, the
worker behind it and the aggregator both of them record in. Each operation on something
shared is a step of its own. -/

namespace RpcPlane

def txDecodeQueueCapacity : Nat := 1024

structure TransactionJob where
  body : Body
  provider : String
  accepted : Bool

inductive TransactionMessage where
  | decode (job : TransactionJob)
  | flush

/-- The provider that an outcome is counted under. -/
def acknowledged (provider : Option String) : String := provider.getD "none"

def TransactionJob.new (body : Body) (acknowledging : Option String) : TransactionJob where
  body := body
  provider := acknowledged acknowledging
  accepted := acknowledging.isSome

structure TransactionAnalytics where
  queue : List TransactionMessage := []
  /-- slots of the channel given to waiting `flush` calls -/
  reserved : Nat := 0
  /-- jobs that `try_send` gave back to their `finish` call -/
  refused : List TransactionJob := []
  /-- the job the worker has received -/
  worker : Option TransactionJob := none
  aggregation : Aggregation

inductive TransactionEvent where
  | finish (cls : TransactionRequest) (body : Body) (acknowledging : Option String)
  /-- the `finish` call of a refused job records it -/
  | drop (i : Nat)
  | reserveFlush
  | sendFlush
  | receive
  | record
  /-- anyone else's call on the aggregator -/
  | request (key : RequestKey) (latencyMs : ℚ) (count : Nat)
  | drain (now : Nat) (order : DrainOrder)

def decodeLabel : Except DecodeError TransactionInfo → DecodeResult
  | .ok _ => .parsed
  | .error .unparsed => .unparsed
  | .error .unsupported => .unsupported
  | .error .invalidBudget => .invalidBudget

def TransactionJob.recorded (job : TransactionJob)
    (decoded : Except DecodeError TransactionInfo) : TransactionRecord :=
  .result job.accepted (decodeLabel decoded).label (if job.accepted then decoded.toOption else none)

def TransactionJob.droppedRecord (job : TransactionJob) : TransactionRecord :=
  .result job.accepted DecodeResult.queueDropped.label none

def TransactionAnalytics.hasSlot (s : TransactionAnalytics) : Bool :=
  decide (s.queue.length + s.reserved < txDecodeQueueCapacity)

def TransactionAnalytics.call (s : TransactionAnalytics) (c : AggCall) : TransactionAnalytics :=
  { s with aggregation := s.aggregation.after c }

def TransactionAnalytics.finish (s : TransactionAnalytics) (cls : TransactionRequest) (body : Body)
    (acknowledging : Option String) : TransactionAnalytics :=
  match cls with
  | .none => s
  | .batch => s.call (.transaction (acknowledged acknowledging)
      (.decode DecodeResult.batchUnsupported.label none))
  | .single =>
    let job := TransactionJob.new body acknowledging
    if s.hasSlot then { s with queue := s.queue ++ [.decode job] }
    else { s with refused := s.refused ++ [job] }

def TransactionAnalytics.step (decodeRequest : Body → Except DecodeError TransactionInfo)
    (s : TransactionAnalytics) : TransactionEvent → Option TransactionAnalytics
  | .finish cls body acknowledging => some (s.finish cls body acknowledging)
  | .drop i =>
    match s.refused[i]? with
    | some job =>
      some ({ s with refused := s.refused.eraseIdx i }.call
        (.transaction job.provider job.droppedRecord))
    | none => none
  | .reserveFlush => if s.hasSlot then some { s with reserved := s.reserved + 1 } else none
  | .sendFlush =>
    if 0 < s.reserved then
      some { s with reserved := s.reserved - 1, queue := s.queue ++ [.flush] }
    else none
  | .receive =>
    match s.worker, s.queue with
    | none, .decode job :: rest => some { s with queue := rest, worker := some job }
    | none, .flush :: rest => some { s with queue := rest }
    | _, _ => none
  | .record =>
    match s.worker with
    | some job =>
      some ({ s with worker := none }.call
        (.transaction job.provider (job.recorded (decodeRequest job.body))))
    | none => none
  | .request key latencyMs count => some (s.call (.record key latencyMs count))
  | .drain now order => some (s.call (.drain now order))

def transactionAnalytics (decodeRequest : Body → Except DecodeError TransactionInfo)
    (startMs : Nat) : System TransactionAnalytics TransactionEvent where
  init s := s = { aggregation := ⟨{ windowStartMs := startMs }, []⟩ }
  step := TransactionAnalytics.step decodeRequest

/-! What was counted, in the order it was recorded. -/

/-- Something counted under a provider: a submission, decoded or dropped, or a batch. -/
inductive Counted where
  | decoded (job : TransactionJob)
  | dropped (job : TransactionJob)
  | batch (provider : String)

section

variable (decodeRequest : Body → Except DecodeError TransactionInfo)

def Counted.provider : Counted → String
  | .decoded job => job.provider
  | .dropped job => job.provider
  | .batch provider => provider

def Counted.record : Counted → TransactionRecord
  | .decoded job => job.recorded (decodeRequest job.body)
  | .dropped job => job.droppedRecord
  | .batch _ => .decode DecodeResult.batchUnsupported.label none

def Counted.job? : Counted → Option TransactionJob
  | .decoded job => some job
  | .dropped job => some job
  | .batch _ => none

def Counted.accepted (c : Counted) : Bool := c.job?.any (·.accepted)

/-- The fee data that a counted submission stands for: only an accepted one that was
decoded, and only when the decode gave some. -/
def Counted.sample : Counted → Option TransactionInfo
  | .decoded job => if job.accepted then (decodeRequest job.body).toOption else none
  | _ => none

/-- What a step records in the aggregator, but for the calls of anyone else. -/
def TransactionAnalytics.counts (s : TransactionAnalytics) : TransactionEvent → List Counted
  | .finish .batch _ acknowledging => [.batch (acknowledged acknowledging)]
  | .drop i => (s.refused[i]?).toList.map .dropped
  | .record => s.worker.toList.map .decoded
  | _ => []

/-- What is recorded in a run, in order. -/
def countedIn (startMs : Nat) (s : TransactionAnalytics) (events : List TransactionEvent) :
    List Counted :=
  (transactionAnalytics decodeRequest startMs).trace TransactionAnalytics.counts s events

def TransactionMessage.job? : TransactionMessage → Option TransactionJob
  | .decode job => some job
  | .flush => none

/-- The submissions not counted yet: in the queue, with the worker, or handed back. -/
def TransactionAnalytics.outstanding (s : TransactionAnalytics) : List TransactionJob :=
  s.queue.filterMap (·.job?) ++ s.worker.toList ++ s.refused

def TransactionEvent.submitted : TransactionEvent → Option TransactionJob
  | .finish .single body acknowledging => some (.new body acknowledging)
  | _ => none

end

theorem DecodeResult.ofLabel_label (r : DecodeResult) : DecodeResult.ofLabel r.label = some r := by
  cases r <;> decide

section

variable (decodeRequest : Body → Except DecodeError TransactionInfo)

def Counted.rejected (c : Counted) : Bool := c.job?.any (!·.accepted)

/-- The result under which it is counted. -/
def Counted.result : Counted → DecodeResult
  | .decoded job => decodeLabel (decodeRequest job.body)
  | .dropped _ => .queueDropped
  | .batch _ => .batchUnsupported

def Counted.parsed : Counted → Bool
  | .decoded job => (decodeRequest job.body).isOk
  | _ => false

theorem Counted.counts_accepted (c : Counted) :
    (c.record decodeRequest).counts .accepted = if c.accepted then 1 else 0 := by
  cases c with
  | decoded job => cases h : job.accepted <;> simp [record, TransactionJob.recorded,
      TransactionRecord.counts, TransactionRecord.accepted?, accepted, job?, h]
  | dropped job => cases h : job.accepted <;> simp [record, TransactionJob.droppedRecord,
      TransactionRecord.counts, TransactionRecord.accepted?, accepted, job?, h]
  | batch provider => rfl

theorem Counted.counts_rejected (c : Counted) :
    (c.record decodeRequest).counts .rejected = if c.rejected then 1 else 0 := by
  cases c with
  | decoded job => cases h : job.accepted <;> simp [record, TransactionJob.recorded,
      TransactionRecord.counts, TransactionRecord.accepted?, rejected, job?, h]
  | dropped job => cases h : job.accepted <;> simp [record, TransactionJob.droppedRecord,
      TransactionRecord.counts, TransactionRecord.accepted?, rejected, job?, h]
  | batch provider => rfl

theorem Counted.counts_decoded (c : Counted) (r : DecodeResult) :
    (c.record decodeRequest).counts (.decoded r) =
      if c.result decodeRequest == r then 1 else 0 := by
  have hone : ∀ result : DecodeResult, (if some result = some r then 1 else 0) =
      if result == r then 1 else 0 := by
    intro result
    by_cases h : result = r <;> simp [h]
  cases c with
  | decoded job =>
    rw [← hone]
    simp [record, TransactionJob.recorded, TransactionRecord.counts, TransactionRecord.decoded?,
      DecodeResult.ofLabel_label, result]
  | dropped job =>
    rw [← hone]
    simp [record, TransactionJob.droppedRecord, TransactionRecord.counts,
      TransactionRecord.decoded?, DecodeResult.ofLabel_label, result]
  | batch provider =>
    rw [← hone]
    simp [record, TransactionRecord.counts, TransactionRecord.decoded?,
      DecodeResult.ofLabel_label, result]

/-- A submission is counted with exactly one result, and a batch with neither outcome. -/
theorem Counted.counts_balance (c : Counted) :
    (c.record decodeRequest).counts .accepted + (c.record decodeRequest).counts .rejected =
      (c.record decodeRequest).counts (.decoded .parsed) +
      (c.record decodeRequest).counts (.decoded .unparsed) +
      (c.record decodeRequest).counts (.decoded .unsupported) +
      (c.record decodeRequest).counts (.decoded .invalidBudget) +
      (c.record decodeRequest).counts (.decoded .queueDropped) := by
  have hresult : ∀ accepted (r : DecodeResult) sample, r ≠ .batchUnsupported →
      (TransactionRecord.result accepted r.label sample).counts .accepted +
        (TransactionRecord.result accepted r.label sample).counts .rejected =
      (TransactionRecord.result accepted r.label sample).counts (.decoded .parsed) +
      (TransactionRecord.result accepted r.label sample).counts (.decoded .unparsed) +
      (TransactionRecord.result accepted r.label sample).counts (.decoded .unsupported) +
      (TransactionRecord.result accepted r.label sample).counts (.decoded .invalidBudget) +
      (TransactionRecord.result accepted r.label sample).counts (.decoded .queueDropped) := by
    intro accepted r sample hr
    simp only [TransactionRecord.counts, TransactionRecord.accepted?, TransactionRecord.decoded?,
      DecodeResult.ofLabel_label]
    cases r with
    | batchUnsupported => exact absurd rfl hr
    | _ => cases accepted <;> rfl
  cases c with
  | decoded job =>
    apply hresult
    cases h : decodeRequest job.body with
    | ok info => simp [decodeLabel]
    | error e => cases e <;> simp [decodeLabel]
  | dropped job => exact hresult _ _ _ (by decide)
  | batch provider => rfl

theorem Counted.samples_record (c : Counted) :
    (c.record decodeRequest).samples = (c.sample decodeRequest).toList := by
  cases c with
  | decoded job => simp [record, TransactionJob.recorded, TransactionRecord.samples,
      DecodeResult.ofLabel_label, sample]
  | dropped job => simp [record, TransactionJob.droppedRecord, TransactionRecord.samples, sample]
  | batch provider => simp [record, TransactionRecord.samples, sample]

theorem Counted.isSome_sample (c : Counted) :
    (c.sample decodeRequest).isSome = (c.accepted && c.parsed decodeRequest) := by
  cases c with
  | decoded job =>
    cases ha : job.accepted with
    | false => simp [sample, accepted, job?, ha]
    | true => cases h : decodeRequest job.body <;>
        simp [sample, accepted, parsed, job?, ha, h, Except.toOption, Except.isOk, Except.toBool]
  | dropped job => simp [sample, parsed]
  | batch provider => rfl

end

section events

variable {decodeRequest : Body → Except DecodeError TransactionInfo}

/-- What a `TransactionSubmit` event says about the window it was drained from. -/
structure TransactionSubmit.Accounts (e : TransactionSubmit)
    (decodeRequest : Body → Except DecodeError TransactionInfo) (window : List Counted) : Prop where
  accepted : e.acceptedCount = window.countP (·.accepted)
  rejected : e.rejectedCount = window.countP (·.rejected)
  /-- each result is counted as often as it came of the window -/
  decodes : ∀ r, e.decodes r = window.countP (·.result decodeRequest == r)
  balance : e.acceptedCount + e.rejectedCount = e.parsedCount + e.unparsedCount +
    e.unsupportedCount + e.invalidBudgetCount + e.decodeQueueDropCount
  feeSamples : e.feeSampleCount = window.countP (fun c => c.accepted && c.parsed decodeRequest)
  /-- the percentiles are those of the samples of accepted submissions -/
  fees : ∃ b : TransactionBucket, e = b.event e.provider e.windowStartMs e.windowEndMs ∧
    b.cuLimits = ((window.filter (·.accepted)).filterMap (·.sample decodeRequest)).map (·.cuLimit) ∧
    b.cuPrices = ((window.filter (·.accepted)).filterMap (·.sample decodeRequest)).map
      (·.cuPriceMicroLamports.getD 0) ∧
    b.fees = ((window.filter (·.accepted)).filterMap (·.sample decodeRequest)).map
      (·.requestedPriorityFeeLamports.getD 0)

theorem sum_indicator {α : Type} (p : α → Bool) (l : List α) :
    (l.map (fun a => if p a then 1 else 0)).sum = l.countP p := by
  induction l with
  | nil => rfl
  | cons a l ih =>
    by_cases h : p a
    · simp [h, ih, Nat.add_comm]
    · simp [h, ih]

theorem TransactionBucket.Summarises.outcomes {b : TransactionBucket} {window : List Counted}
    (h : b.Summarises (window.map (·.record decodeRequest))) :
    b.acceptedCount = window.countP (·.accepted) ∧
      b.rejectedCount = window.countP (·.rejected) ∧
      ∀ r, b.decodes r = window.countP (·.result decodeRequest == r) := by
  refine ⟨?_, ?_, ?_⟩
  · have hc := h.counter .accepted
    simp only [List.map_map, Function.comp_def, Counted.counts_accepted, sum_indicator] at hc
    exact hc
  · have hc := h.counter .rejected
    simp only [List.map_map, Function.comp_def, Counted.counts_rejected, sum_indicator] at hc
    exact hc
  · intro r
    have hc := h.counter (.decoded r)
    simp only [List.map_map, Function.comp_def, Counted.counts_decoded, sum_indicator] at hc
    exact hc

theorem counts_balance_sum (window : List Counted) :
    let sum := fun c => ((window.map (·.record decodeRequest)).map (·.counts c)).sum
    sum .accepted + sum .rejected = sum (.decoded .parsed) + sum (.decoded .unparsed) +
      sum (.decoded .unsupported) + sum (.decoded .invalidBudget) + sum (.decoded .queueDropped) := by
  induction window with
  | nil => rfl
  | cons c window ih =>
    have hc := c.counts_balance decodeRequest
    simp only [List.map_cons, List.sum_cons] at ih ⊢
    omega

theorem samples_window (window : List Counted) :
    (window.map (·.record decodeRequest)).flatMap (·.samples) =
      (window.filter (·.accepted)).filterMap (·.sample decodeRequest) := by
  induction window with
  | nil => rfl
  | cons c window ih =>
    have hsome := c.isSome_sample decodeRequest
    rw [List.map_cons, List.flatMap_cons, ih, c.samples_record]
    by_cases ha : c.accepted
    · cases hs : c.sample decodeRequest <;> simp [ha, hs]
    · have hnone : c.sample decodeRequest = none := by simpa [ha] using hsome
      simp [ha, hnone]

theorem samples_length (window : List Counted) :
    ((window.filter (·.accepted)).filterMap (·.sample decodeRequest)).length =
      window.countP (fun c => c.accepted && c.parsed decodeRequest) := by
  induction window with
  | nil => rfl
  | cons c window ih =>
    have hsome := c.isSome_sample decodeRequest
    by_cases ha : c.accepted
    · cases hs : c.sample decodeRequest with
      | none =>
        have hp : c.parsed decodeRequest = false := by simpa [ha, hs] using hsome
        simp [ha, hs, ih, hp]
      | some info =>
        have hp : c.parsed decodeRequest = true := by simpa [ha, hs] using hsome
        simp [ha, hs, ih, hp]
    · simp [ha, ih]

theorem TransactionBucket.Summarises.accounts {b : TransactionBucket} {window : List Counted}
    (h : b.Summarises (window.map (·.record decodeRequest))) (provider : String)
    (windowStart now : Nat) : (b.event provider windowStart now).Accounts decodeRequest window where
  accepted := h.outcomes.1
  rejected := h.outcomes.2.1
  decodes r := by
    rw [← h.outcomes.2.2 r]
    cases r <;> rfl
  balance := by
    have hsum := @counts_balance_sum decodeRequest window
    simp only [← h.counter] at hsum
    exact hsum
  feeSamples := by
    have hlimits := h.cuLimits
    rw [samples_window] at hlimits
    show (b.cuLimits.mergeSort (· ≤ ·)).length = _
    rw [List.length_mergeSort, hlimits, List.length_map, samples_length]
  fees := by
    refine ⟨b, rfl, ?_, ?_, ?_⟩
    · rw [h.cuLimits, samples_window]
    · rw [h.cuPrices, samples_window]
    · rw [h.fees, samples_window]

end events

theorem exists_windows_of_map {α β : Type} (f : α → β) {items : List α} {windows : List (List β)}
    {rest : List β} (h : items.map f = windows.flatten ++ rest) :
    ∃ (cut : List (List α)) (left : List α), items = cut.flatten ++ left ∧
      cut.map (List.map f) = windows ∧ left.map f = rest := by
  induction windows generalizing items with
  | nil => exact ⟨[], items, rfl, rfl, h⟩
  | cons w windows ih =>
    rw [List.flatten_cons, List.append_assoc] at h
    obtain ⟨first, others, rfl, hw, hrest⟩ := List.map_eq_append_iff.mp h
    obtain ⟨cut, left, rfl, hcut, hleft⟩ := ih hrest
    exact ⟨first :: cut, left, by simp, by simp [hw, hcut], hleft⟩

/-- What every run keeps: the aggregator's own account, the records in it, and that each
submission is counted or outstanding. -/
structure AccountHolds (decodeRequest : Body → Except DecodeError TransactionInfo) (startMs : Nat)
    (events : List TransactionEvent) (s : TransactionAnalytics) (calls : List AggCall)
    (gave : List Gave) (counted : List Counted) : Prop where
  agg : AggHolds startMs calls s.aggregation gave
  records : ∀ provider, transactionsOf calls provider =
    (counted.filter (·.provider == provider)).map (·.record decodeRequest)
  submitted : (counted.filterMap (·.job?) ++ s.outstanding).Perm
    (events.filterMap (·.submitted))

section step

variable {decodeRequest : Body → Except DecodeError TransactionInfo} {startMs : Nat}
  {events : List TransactionEvent} {s t : TransactionAnalytics} {calls : List AggCall}
  {gave : List Gave} {counted : List Counted}

theorem AccountHolds.start (decodeRequest : Body → Except DecodeError TransactionInfo)
    (startMs : Nat) : AccountHolds decodeRequest startMs []
      { aggregation := ⟨{ windowStartMs := startMs }, []⟩ } [] [] [] where
  agg := AggHolds.start startMs
  records _ := rfl
  submitted := List.Perm.refl _

theorem AccountHolds.moved (h : AccountHolds decodeRequest startMs events s calls gave counted)
    {e : TransactionEvent} (ha : t.aggregation = s.aggregation) (hc : s.counts e = [])
    (hp : t.outstanding.Perm (s.outstanding ++ e.submitted.toList)) :
    AccountHolds decodeRequest startMs (events ++ [e]) t calls gave (counted ++ s.counts e) where
  agg := ha ▸ h.agg
  records := by
    rw [hc, List.append_nil]
    exact h.records
  submitted := by
    have hsub : (events ++ [e]).filterMap (·.submitted) =
        events.filterMap (·.submitted) ++ e.submitted.toList := by
      rw [List.filterMap_append]
      cases he : e.submitted <;> simp [he]
    rw [hc, List.append_nil, hsub]
    refine (hp.append_left _).trans ?_
    rw [← List.append_assoc]
    exact h.submitted.append_right _

theorem AccountHolds.counting (h : AccountHolds decodeRequest startMs events s calls gave counted)
    {e : TransactionEvent} (he : e.submitted = none) {c : Counted} (hcounts : s.counts e = [c])
    (ha : t.aggregation =
      s.aggregation.after (.transaction c.provider (c.record decodeRequest)))
    (hp : (c.job?.toList ++ t.outstanding).Perm s.outstanding) :
    ∃ calls' gave', AccountHolds decodeRequest startMs (events ++ [e]) t calls' gave'
      (counted ++ s.counts e) := by
  rw [hcounts]
  obtain ⟨gave', hagg⟩ := h.agg.step (.transaction c.provider (c.record decodeRequest))
  refine ⟨_, gave', ha ▸ hagg, ?_, ?_⟩
  · intro provider
    rw [transactionsOf_record, List.filter_append, List.map_append, ← h.records provider]
    by_cases hc : provider = c.provider
    · simp [hc]
    · simp [hc, Ne.symm hc]
  · have hsub : (events ++ [e]).filterMap (·.submitted) = events.filterMap (·.submitted) := by
      simp [he]
    have hjob : (counted ++ [c]).filterMap (·.job?) =
        counted.filterMap (·.job?) ++ c.job?.toList := by
      rw [List.filterMap_append]
      cases hj : c.job? <;> simp [hj]
    rw [hsub, hjob, List.append_assoc]
    exact (hp.append_left _).trans h.submitted

theorem AccountHolds.called (h : AccountHolds decodeRequest startMs events s calls gave counted)
    {e : TransactionEvent} (he : e.submitted = none) (hcounts : s.counts e = []) (c : AggCall)
    (hc : ∀ provider, c.transactionFor provider = none) :
    ∃ calls' gave', AccountHolds decodeRequest startMs (events ++ [e]) (s.call c) calls' gave'
      (counted ++ s.counts e) := by
  rw [hcounts, List.append_nil]
  obtain ⟨gave', hagg⟩ := h.agg.step c
  refine ⟨_, gave', hagg, ?_, ?_⟩
  · intro provider
    rw [transactionsOf_other calls hc]
    exact h.records provider
  · have hsub : (events ++ [e]).filterMap (·.submitted) = events.filterMap (·.submitted) := by
      simp [he]
    rw [hsub]
    exact h.submitted

theorem AccountHolds.finish (h : AccountHolds decodeRequest startMs events s calls gave counted)
    (cls : TransactionRequest) (body : Body) (acknowledging : Option String) :
    ∃ calls' gave', AccountHolds decodeRequest startMs
      (events ++ [.finish cls body acknowledging]) (s.finish cls body acknowledging)
      calls' gave' (counted ++ s.counts (.finish cls body acknowledging)) := by
  cases cls with
  | none =>
    refine ⟨calls, gave, h.moved rfl rfl ?_⟩
    simp [TransactionEvent.submitted, TransactionAnalytics.finish]
  | batch =>
    exact h.counting (e := .finish .batch body acknowledging) rfl
      (c := .batch (acknowledged acknowledging)) rfl (t := s.finish .batch body acknowledging) rfl
      (List.Perm.refl _)
  | single =>
    refine ⟨calls, gave, ?_⟩
    by_cases hslot : s.hasSlot
    · apply h.moved
      · simp [TransactionAnalytics.finish, hslot]
      · rfl
      · simp only [TransactionAnalytics.finish, hslot, if_true,
          TransactionAnalytics.outstanding, List.filterMap_append, TransactionEvent.submitted,
          List.append_assoc]
        have hlast : ([TransactionJob.new body acknowledging] ++ (s.worker.toList ++ s.refused)).Perm
            (s.worker.toList ++ (s.refused ++ [TransactionJob.new body acknowledging])) := by
          rw [← List.append_assoc s.worker.toList]
          exact List.perm_append_comm
        exact hlast.append_left _
    · apply h.moved
      · simp [TransactionAnalytics.finish, hslot]
      · rfl
      · simp [TransactionAnalytics.finish, hslot, TransactionAnalytics.outstanding,
          TransactionEvent.submitted]

theorem TransactionAnalytics.outstanding_drop {i : Nat} (hi : i < s.refused.length) :
    ([s.refused[i]] ++ (s.queue.filterMap (·.job?) ++ s.worker.toList ++
      s.refused.eraseIdx i)).Perm s.outstanding := by
  have hperm : ([s.refused[i]] ++ s.refused.eraseIdx i).Perm s.refused :=
    List.getElem_cons_eraseIdx_perm hi
  have hmiddle : (s.refused[i] :: (s.queue.filterMap (·.job?) ++ s.worker.toList ++
      s.refused.eraseIdx i)).Perm (s.queue.filterMap (·.job?) ++ s.worker.toList ++
      (s.refused[i] :: s.refused.eraseIdx i)) := List.perm_middle.symm
  exact hmiddle.trans (hperm.append_left _)

theorem TransactionAnalytics.outstanding_record {job : TransactionJob}
    (hw : s.worker = some job) :
    ([job] ++ (s.queue.filterMap TransactionMessage.job? ++ [] ++ s.refused)).Perm
      s.outstanding := by
  rw [TransactionAnalytics.outstanding, hw, Option.toList_some, List.append_nil,
    List.append_assoc]
  have hmiddle : (job :: (s.queue.filterMap (·.job?) ++ s.refused)).Perm
      (s.queue.filterMap (·.job?) ++ job :: s.refused) := List.perm_middle.symm
  exact hmiddle

theorem TransactionAnalytics.outstanding_receive {job : TransactionJob}
    {rest : List TransactionMessage} (hw : s.worker = none)
    (hq : s.queue = .decode job :: rest) :
    (rest.filterMap TransactionMessage.job? ++ [job] ++ s.refused).Perm s.outstanding := by
  have hout : s.outstanding = job :: rest.filterMap (·.job?) ++ s.refused := by
    simp [TransactionAnalytics.outstanding, hw, hq, TransactionMessage.job?]
  have hswap : (rest.filterMap (·.job?) ++ [job]).Perm (job :: rest.filterMap (·.job?)) :=
    List.perm_append_comm
  rw [hout]
  exact hswap.append_right s.refused

theorem AccountHolds.step (h : AccountHolds decodeRequest startMs events s calls gave counted)
    {e : TransactionEvent} (ht : (transactionAnalytics decodeRequest startMs).step s e = some t) :
    ∃ calls' gave',
      AccountHolds decodeRequest startMs (events ++ [e]) t calls' gave' (counted ++ s.counts e) := by
  change TransactionAnalytics.step decodeRequest s e = some t at ht
  cases e with
  | finish cls body acknowledging =>
    obtain rfl := Option.some.inj ht
    exact h.finish cls body acknowledging
  | drop i =>
    cases hi : s.refused[i]? with
    | none => simp [TransactionAnalytics.step, hi] at ht
    | some job =>
      obtain rfl := Option.some.inj (by simpa only [TransactionAnalytics.step, hi] using ht)
      obtain ⟨hlt, rfl⟩ := List.getElem?_eq_some_iff.mp hi
      let handed : TransactionAnalytics := { s with refused := s.refused.eraseIdx i }
      have hcounts : s.counts (.drop i) = [.dropped s.refused[i]] := by
        simp [TransactionAnalytics.counts, hlt]
      exact h.counting (e := .drop i)
        (t := handed.call (.transaction s.refused[i].provider s.refused[i].droppedRecord))
        rfl hcounts rfl (s.outstanding_drop hlt)
  | reserveFlush =>
    obtain ⟨hslot, hu⟩ := eq_of_guard ht
    obtain rfl := Option.some.inj hu
    exact ⟨calls, gave, h.moved rfl rfl (by simp [TransactionAnalytics.outstanding,
      TransactionEvent.submitted])⟩
  | sendFlush =>
    obtain ⟨hr, hu⟩ := eq_of_guard ht
    obtain rfl := Option.some.inj hu
    exact ⟨calls, gave, h.moved rfl rfl (by simp [TransactionAnalytics.outstanding,
      TransactionEvent.submitted, TransactionMessage.job?])⟩
  | receive =>
    cases hw : s.worker with
    | some job => simp [TransactionAnalytics.step, hw] at ht
    | none =>
      cases hq : s.queue with
      | nil => simp [TransactionAnalytics.step, hw, hq] at ht
      | cons message rest =>
        cases message with
        | decode job =>
          obtain rfl := Option.some.inj (by simpa only [TransactionAnalytics.step, hw, hq] using ht)
          exact ⟨calls, gave, h.moved rfl rfl
            ((s.outstanding_receive hw hq).trans (List.Perm.of_eq (List.append_nil _).symm))⟩
        | flush =>
          obtain rfl := Option.some.inj (by simpa only [TransactionAnalytics.step, hw, hq] using ht)
          exact ⟨calls, gave, h.moved rfl rfl (by simp [TransactionAnalytics.outstanding, hw,
            hq, TransactionEvent.submitted, TransactionMessage.job?])⟩
  | record =>
    cases hw : s.worker with
    | none => simp [TransactionAnalytics.step, hw] at ht
    | some job =>
      obtain rfl := Option.some.inj (by simpa only [TransactionAnalytics.step, hw] using ht)
      let done : TransactionAnalytics := { s with worker := none }
      have hcounts : s.counts .record = [.decoded job] := by simp [TransactionAnalytics.counts, hw]
      exact h.counting (e := .record)
        (t := done.call (.transaction job.provider (job.recorded (decodeRequest job.body))))
        rfl hcounts rfl (s.outstanding_record hw)
  | request key latencyMs count =>
    obtain rfl := Option.some.inj ht
    exact h.called (e := .request key latencyMs count) rfl rfl (.record key latencyMs count)
      (fun _ => rfl)
  | drain now order =>
    obtain rfl := Option.some.inj ht
    exact h.called (e := .drain now order) rfl rfl (.drain now order) (fun _ => rfl)

end step

section totals

variable {decodeRequest : Body → Except DecodeError TransactionInfo}

theorem accepted_add_rejected (window : List Counted) :
    window.countP (·.accepted) + window.countP (·.rejected) =
      (window.filterMap (·.job?)).length := by
  induction window with
  | nil => rfl
  | cons c window ih =>
    cases hj : c.job? with
    | none => simp [Counted.accepted, Counted.rejected, hj] at ih ⊢; exact ih
    | some job =>
      cases ha : job.accepted <;>
        simp [Counted.accepted, Counted.rejected, hj, ha] at ih ⊢ <;> omega

theorem Counted.provider_of_job {c : Counted} {job : TransactionJob} (h : c.job? = some job) :
    c.provider = job.provider := by
  cases c with
  | decoded j => exact congrArg TransactionJob.provider (Option.some.inj h)
  | dropped j => exact congrArg TransactionJob.provider (Option.some.inj h)
  | batch p => cases h

theorem jobs_of_provider (counted : List Counted) (provider : String) :
    ((counted.filter (·.provider == provider)).filterMap (·.job?)).length =
      (counted.filterMap (·.job?)).countP (·.provider == provider) := by
  induction counted with
  | nil => rfl
  | cons c counted ih =>
    cases hj : c.job? with
    | none => by_cases hp : c.provider = provider <;> simp [hj, hp, ih]
    | some job =>
      have hprovider := Counted.provider_of_job hj
      by_cases hp : job.provider = provider
      · simp [hj, hprovider, hp, ih]
      · simp [hj, hprovider, hp, ih]

theorem exists_of_forall₂_mem {α β : Type} {R : α → β → Prop} {as : List α} {bs : List β}
    (h : List.Forall₂ R as bs) {a : α} (ha : a ∈ as) : ∃ b ∈ bs, R a b := by
  induction h with
  | nil => simp at ha
  | cons hab _ ih =>
    rcases List.mem_cons.mp ha with rfl | ha
    · exact ⟨_, List.mem_cons_self, hab⟩
    · obtain ⟨b, hb, hr⟩ := ih ha
      exact ⟨b, List.mem_cons_of_mem _ hb, hr⟩

variable {startMs : Nat} {events : List TransactionEvent} {s : TransactionAnalytics}
  {calls : List AggCall} {gave : List Gave} {counted : List Counted}

/-- What is counted under a provider is cut into the windows of its events. -/
theorem AccountHolds.windows
    (h : AccountHolds decodeRequest startMs events s calls gave counted) (provider : String) :
    ∃ (windows : List (List Counted)) (rest : List Counted),
      counted.filter (·.provider == provider) = windows.flatten ++ rest ∧
      List.Forall₂ (fun e w => e.Accounts decodeRequest w)
        (transactionEventsOf s.aggregation.events provider) windows ∧
      (s.aggregation.state.pendingTransactions provider).acceptedCount =
        rest.countP (·.accepted) ∧
      (s.aggregation.state.pendingTransactions provider).rejectedCount =
        rest.countP (·.rejected) ∧
      ∀ r, (s.aggregation.state.pendingTransactions provider).decodes r =
        rest.countP (·.result decodeRequest == r) := by
  obtain ⟨windows, rest, hitems, -, hevents, hpending⟩ := h.agg.transactionWindows provider
  rw [h.records provider] at hitems
  obtain ⟨cut, left, hcut, rfl, rfl⟩ := exists_windows_of_map _ hitems
  refine ⟨cut, left, hcut, ?_, hpending.outcomes⟩
  rw [List.forall₂_map_right_iff] at hevents
  refine hevents.imp (fun e w he => ?_)
  obtain ⟨b, hb, he⟩ := he
  rw [he]
  exact hb.accounts provider _ _

theorem AccountHolds.balance (h : AccountHolds decodeRequest startMs events s calls gave counted)
    {e : TransactionSubmit} (he : .transactionSubmit e ∈ s.aggregation.events) :
    e.acceptedCount + e.rejectedCount = e.parsedCount + e.unparsedCount + e.unsupportedCount +
      e.invalidBudgetCount + e.decodeQueueDropCount := by
  obtain ⟨windows, rest, -, hevents, -⟩ := h.windows e.provider
  have hmem : e ∈ transactionEventsOf s.aggregation.events e.provider := by
    refine List.mem_filterMap.mpr ⟨_, he, ?_⟩
    simp [TelemetryEvent.transactionFor]
  obtain ⟨w, -, hw⟩ := exists_of_forall₂_mem hevents hmem
  exact hw.balance

theorem AccountHolds.total (h : AccountHolds decodeRequest startMs events s calls gave counted)
    (hdone : s.outstanding = []) (provider : String) :
    (events.filterMap (·.submitted)).countP (·.provider == provider) =
      ((transactionEventsOf s.aggregation.events provider).map
        (fun e => e.acceptedCount + e.rejectedCount)).sum +
      ((s.aggregation.state.pendingTransactions provider).acceptedCount +
        (s.aggregation.state.pendingTransactions provider).rejectedCount) := by
  obtain ⟨windows, rest, hcut, hevents, ha, hr, -⟩ := h.windows provider
  have hperm := h.submitted
  rw [hdone, List.append_nil] at hperm
  rw [← hperm.countP_eq, ← jobs_of_provider, ha, hr, accepted_add_rejected, hcut,
    List.filterMap_append, List.length_append]
  congr 1
  have hsums : (transactionEventsOf s.aggregation.events provider).map
      (fun e => e.acceptedCount + e.rejectedCount) =
      windows.map (fun w => (w.filterMap (·.job?)).length) := by
    refine map_eq_of_forall₂ (fun e w hw => ?_) hevents
    rw [hw.accepted, hw.rejected, accepted_add_rejected]
  rw [hsums, List.filterMap_flatten, List.length_flatten, List.map_map]
  rfl

end totals

theorem transactionAnalytics_account {decodeRequest : Body → Except DecodeError TransactionInfo}
    {startMs : Nat} {events : List TransactionEvent} {s₀ s : TransactionAnalytics}
    (hinit : (transactionAnalytics decodeRequest startMs).init s₀)
    (hrun : (transactionAnalytics decodeRequest startMs).run s₀ events = some s) :
    ∃ calls gave, AccountHolds decodeRequest startMs events s calls gave
      (countedIn decodeRequest startMs s₀ events) := by
  have hstart := AccountHolds.start decodeRequest startMs
  rw [← show s₀ = { aggregation := ⟨{ windowStartMs := startMs }, []⟩ } from hinit] at hstart
  refine System.invariant_history (I := fun events s => ∃ calls gave,
    AccountHolds decodeRequest startMs events s calls gave
      (countedIn decodeRequest startMs s₀ events)) ⟨[], [], hstart⟩ ?_ hrun
  intro events s e t hrun ⟨calls, gave, h⟩ ht
  rw [countedIn, System.trace_snoc TransactionAnalytics.counts hrun ht]
  exact h.step ht

/-- Every `TransactionSubmit` event accounts for a window of what the run has recorded, in its
order; each submission is recorded once, decoded or dropped, or still on its way when the run
stops. -/
theorem transaction_accounting (decodeRequest : Body → Except DecodeError TransactionInfo)
    (startMs : Nat) (events : List TransactionEvent) (s₀ s : TransactionAnalytics)
    (hinit : (transactionAnalytics decodeRequest startMs).init s₀)
    (hrun : (transactionAnalytics decodeRequest startMs).run s₀ events = some s) :
    (∀ e, .transactionSubmit e ∈ s.aggregation.events →
      e.acceptedCount + e.rejectedCount = e.parsedCount + e.unparsedCount + e.unsupportedCount +
        e.invalidBudgetCount + e.decodeQueueDropCount) ∧
    (((countedIn decodeRequest startMs s₀ events).filterMap (·.job?) ++ s.outstanding).Perm
        (events.filterMap (·.submitted)) ∧
      ∀ provider, ∃ (windows : List (List Counted)) (rest : List Counted),
        (countedIn decodeRequest startMs s₀ events).filter (·.provider == provider) =
          windows.flatten ++ rest ∧
        List.Forall₂ (fun e w => e.Accounts decodeRequest w)
          (transactionEventsOf s.aggregation.events provider) windows ∧
        (s.aggregation.state.pendingTransactions provider).acceptedCount =
          rest.countP (·.accepted) ∧
        (s.aggregation.state.pendingTransactions provider).rejectedCount =
          rest.countP (·.rejected) ∧
        ∀ r, (s.aggregation.state.pendingTransactions provider).decodes r =
          rest.countP (·.result decodeRequest == r)) ∧
    (s.outstanding = [] → ∀ provider,
      (events.filterMap (·.submitted)).countP (·.provider == provider) =
        ((transactionEventsOf s.aggregation.events provider).map
          (fun e => e.acceptedCount + e.rejectedCount)).sum +
        ((s.aggregation.state.pendingTransactions provider).acceptedCount +
          (s.aggregation.state.pendingTransactions provider).rejectedCount)) := by
  obtain ⟨calls, gave, h⟩ := transactionAnalytics_account hinit hrun
  exact ⟨fun e he => h.balance he, ⟨h.submitted, h.windows⟩, h.total⟩

/-- Two transactions that `helius` accepts, the second after the drain, and one that no provider
does. All three are decoded; the window of the rejected one has no fee sample. -/
theorem transaction_accounting_decoded :
    let decodeRequest : Body → Except DecodeError TransactionInfo :=
      fun _ => .ok ⟨200000, false, some 5, some 1, 2, 1, true⟩
    let body : Body := allProvidersFailed.body
    let events : List TransactionEvent := [.finish .single body (some "helius"),
      .finish .single body none, .receive, .record, .receive, .record, .drain 9 ⟨.same _, .same _⟩,
      .finish .single body (some "helius"), .receive, .record]
    let s₀ : TransactionAnalytics := { aggregation := ⟨{ windowStartMs := 5 }, []⟩ }
    ∃ s, (transactionAnalytics decodeRequest 5).run s₀ events = some s ∧
      ((transactionEventsOf s.aggregation.events "helius").map
        (fun e => (e.acceptedCount, e.parsedCount, e.feeSampleCount))) = [(1, 1, 1)] ∧
      ((transactionEventsOf s.aggregation.events "none").map
        (fun e => (e.rejectedCount, e.parsedCount, e.feeSampleCount))) = [(1, 1, 0)] ∧
      (∃ windows rest, (countedIn decodeRequest 5 s₀ events).filter (·.provider == "helius") =
          windows.flatten ++ rest ∧
        List.Forall₂ (fun e w => e.Accounts decodeRequest w)
          (transactionEventsOf s.aggregation.events "helius") windows ∧
        rest.countP (·.accepted) = 1) ∧
      2 = ((transactionEventsOf s.aggregation.events "helius").map
        (fun e => e.acceptedCount + e.rejectedCount)).sum +
        ((s.aggregation.state.pendingTransactions "helius").acceptedCount +
          (s.aggregation.state.pendingTransactions "helius").rejectedCount) := by
  intro decodeRequest body events s₀
  have hrun : ∃ s, (transactionAnalytics decodeRequest 5).run s₀ events = some s ∧
      s.outstanding = [] ∧
      (s.aggregation.state.pendingTransactions "helius").acceptedCount = 1 := ⟨_, rfl, rfl, rfl⟩
  obtain ⟨s, hs, hdone, hpending⟩ := hrun
  have hhelius : ((transactionAnalytics decodeRequest 5).run s₀ events).map (fun s =>
      (transactionEventsOf s.aggregation.events "helius").map
        (fun e => (e.acceptedCount, e.parsedCount, e.feeSampleCount))) = some [(1, 1, 1)] := by
    decide +kernel
  have hnone : ((transactionAnalytics decodeRequest 5).run s₀ events).map (fun s =>
      (transactionEventsOf s.aggregation.events "none").map
        (fun e => (e.rejectedCount, e.parsedCount, e.feeSampleCount))) = some [(1, 1, 0)] := by
    decide +kernel
  rw [hs, Option.map_some] at hhelius hnone
  obtain ⟨-, ⟨-, hwindows⟩, htotal⟩ := transaction_accounting decodeRequest 5 events s₀ s rfl hs
  obtain ⟨windows, rest, hcut, hevents, hrest, -⟩ := hwindows "helius"
  exact ⟨s, hs, Option.some.inj hhelius, Option.some.inj hnone,
    ⟨windows, rest, hcut, hevents, hrest.symm.trans hpending⟩, htotal hdone "helius"⟩

end RpcPlane
