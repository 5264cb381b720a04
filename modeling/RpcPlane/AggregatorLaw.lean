import RpcPlane.Aggregator
import Mathlib.Data.List.Chain
import Mathlib.Data.List.Forall2

/-! Nothing recorded in the aggregator is lost or counted twice by its drains. -/

namespace RpcPlane

section records

inductive TransactionCounter where
  | accepted
  | rejected
  | decoded (result : DecodeResult)
  deriving DecidableEq

def TransactionBucket.decodes (b : TransactionBucket) : DecodeResult → Nat
  | .parsed => b.parsedCount
  | .unparsed => b.unparsedCount
  | .unsupported => b.unsupportedCount
  | .invalidBudget => b.invalidBudgetCount
  | .batchUnsupported => b.batchUnsupportedCount
  | .queueDropped => b.decodeQueueDropCount

def TransactionBucket.counter (b : TransactionBucket) : TransactionCounter → Nat
  | .accepted => b.acceptedCount
  | .rejected => b.rejectedCount
  | .decoded result => b.decodes result

def TransactionSubmit.decodes (e : TransactionSubmit) : DecodeResult → Nat
  | .parsed => e.parsedCount
  | .unparsed => e.unparsedCount
  | .unsupported => e.unsupportedCount
  | .invalidBudget => e.invalidBudgetCount
  | .batchUnsupported => e.batchUnsupportedCount
  | .queueDropped => e.decodeQueueDropCount

def TransactionSubmit.counter (e : TransactionSubmit) : TransactionCounter → Nat
  | .accepted => e.acceptedCount
  | .rejected => e.rejectedCount
  | .decoded result => e.decodes result

def TransactionRecord.accepted? : TransactionRecord → Option Bool
  | .submission accepted => some accepted
  | .decode _ _ => none
  | .result accepted _ _ => some accepted

def TransactionRecord.decoded? : TransactionRecord → Option DecodeResult
  | .submission _ => none
  | .decode label _ => DecodeResult.ofLabel label
  | .result _ label _ => DecodeResult.ofLabel label

/-- The fee samples that a record adds: none with a result the aggregator does not know. -/
def TransactionRecord.samples : TransactionRecord → List TransactionInfo
  | .submission _ => []
  | .decode label sample => if (DecodeResult.ofLabel label).isSome then sample.toList else []
  | .result _ label sample => if (DecodeResult.ofLabel label).isSome then sample.toList else []

def TransactionRecord.counts (r : TransactionRecord) : TransactionCounter → Nat
  | .accepted => if r.accepted? = some true then 1 else 0
  | .rejected => if r.accepted? = some false then 1 else 0
  | .decoded d => if r.decoded? = some d then 1 else 0

end records

/-- The bucket of a window of calls. -/
def Bucket.summary (window : List (ℚ × Nat)) : Bucket where
  count := (window.map (·.2)).sum
  latencies := window.map (·.1)

structure TransactionBucket.Summarises (b : TransactionBucket) (window : List TransactionRecord) :
    Prop where
  counter : ∀ c, b.counter c = (window.map (·.counts c)).sum
  cuLimits : b.cuLimits = (window.flatMap (·.samples)).map (·.cuLimit)
  cuPrices : b.cuPrices = (window.flatMap (·.samples)).map (·.cuPriceMicroLamports.getD 0)
  fees : b.fees = (window.flatMap (·.samples)).map (·.requestedPriorityFeeLamports.getD 0)

theorem requestCollector_of (window : List (ℚ × Nat)) :
    requestCollector.of window = Bucket.summary window := by
  induction window using List.reverseRecOn with
  | nil => rfl
  | append_singleton window sample ih =>
    rw [Collector.of_snoc, ih]
    simp [Bucket.summary, requestCollector, Bucket.record]

section

variable (b : TransactionBucket)

theorem TransactionBucket.decodes_submission (accepted : Bool) (d : DecodeResult) :
    (b.submission accepted).decodes d = b.decodes d := by
  cases accepted <;> cases d <;> rfl

theorem TransactionBucket.decodes_countDecode (r d : DecodeResult) :
    (b.countDecode r).decodes d = b.decodes d + if r = d then 1 else 0 := by
  cases r <;> cases d <;> rfl

theorem TransactionBucket.counter_addSample (info : TransactionInfo) (c : TransactionCounter) :
    (b.addSample info).counter c = b.counter c := by
  cases c with
  | accepted => rfl
  | rejected => rfl
  | decoded d => cases d <;> rfl

theorem TransactionBucket.counter_submission (accepted : Bool) (c : TransactionCounter) :
    (b.submission accepted).counter c =
      b.counter c + (TransactionRecord.submission accepted).counts c := by
  cases c with
  | accepted => cases accepted <;> rfl
  | rejected => cases accepted <;> rfl
  | decoded d => exact b.decodes_submission accepted d

theorem TransactionBucket.counter_decode (label : String) (sample : Option TransactionInfo)
    (c : TransactionCounter) : (b.decode label sample).counter c =
      b.counter c + (TransactionRecord.decode label sample).counts c := by
  unfold decode
  cases hr : DecodeResult.ofLabel label with
  | none =>
    cases c <;> simp [TransactionRecord.counts, TransactionRecord.accepted?,
      TransactionRecord.decoded?, hr]
  | some r =>
    have hcount : (b.countDecode r).counter c =
        b.counter c + (TransactionRecord.decode label sample).counts c := by
      cases c with
      | accepted => cases r <;> rfl
      | rejected => cases r <;> rfl
      | decoded d =>
        simp [counter, b.decodes_countDecode, TransactionRecord.counts,
          TransactionRecord.decoded?, hr]
    cases sample with
    | none => exact hcount
    | some info => exact ((b.countDecode r).counter_addSample info c).trans hcount

theorem TransactionRecord.counts_result (accepted : Bool) (label : String)
    (sample : Option TransactionInfo) (c : TransactionCounter) :
    (TransactionRecord.result accepted label sample).counts c =
      (TransactionRecord.submission accepted).counts c +
        (TransactionRecord.decode label sample).counts c := by
  cases c with
  | accepted => rfl
  | rejected => rfl
  | decoded d => exact (Nat.zero_add _).symm

theorem TransactionBucket.counter_record (r : TransactionRecord) (c : TransactionCounter) :
    (b.record r).counter c = b.counter c + r.counts c := by
  cases r with
  | submission accepted => exact b.counter_submission accepted c
  | decode label sample => exact b.counter_decode label sample c
  | result accepted label sample =>
    show ((b.submission accepted).decode label sample).counter c = _
    rw [counter_decode, counter_submission, TransactionRecord.counts_result, Nat.add_assoc]

theorem TransactionBucket.samples_record (r : TransactionRecord) :
    (b.record r).cuLimits = b.cuLimits ++ r.samples.map (·.cuLimit) ∧
      (b.record r).cuPrices = b.cuPrices ++ r.samples.map (·.cuPriceMicroLamports.getD 0) ∧
      (b.record r).fees = b.fees ++ r.samples.map (·.requestedPriorityFeeLamports.getD 0) := by
  have hsub : ∀ accepted, (b.submission accepted).cuLimits = b.cuLimits ∧
      (b.submission accepted).cuPrices = b.cuPrices ∧ (b.submission accepted).fees = b.fees := by
    intro accepted
    cases accepted <;> exact ⟨rfl, rfl, rfl⟩
  have hdecode : ∀ (b : TransactionBucket) label sample,
      (b.decode label sample).cuLimits =
        b.cuLimits ++ (TransactionRecord.decode label sample).samples.map (·.cuLimit) ∧
      (b.decode label sample).cuPrices = b.cuPrices ++
        (TransactionRecord.decode label sample).samples.map (·.cuPriceMicroLamports.getD 0) ∧
      (b.decode label sample).fees = b.fees ++
        (TransactionRecord.decode label sample).samples.map
          (·.requestedPriorityFeeLamports.getD 0) := by
    intro b label sample
    have hcount : ∀ r, (b.countDecode r).cuLimits = b.cuLimits ∧
        (b.countDecode r).cuPrices = b.cuPrices ∧ (b.countDecode r).fees = b.fees := by
      intro r
      cases r <;> exact ⟨rfl, rfl, rfl⟩
    unfold decode
    cases hr : DecodeResult.ofLabel label with
    | none => simp [TransactionRecord.samples, hr]
    | some r =>
      obtain ⟨hl, hp, hf⟩ := hcount r
      cases sample with
      | none => simp [TransactionRecord.samples, hr, hl, hp, hf]
      | some info => simp [TransactionRecord.samples, hr, addSample, hl, hp, hf]
  cases r with
  | submission accepted =>
    obtain ⟨hl, hp, hf⟩ := hsub accepted
    simp [record, TransactionRecord.samples, hl, hp, hf]
  | decode label sample => exact hdecode b label sample
  | result accepted label sample =>
    obtain ⟨hl, hp, hf⟩ := hsub accepted
    obtain ⟨hl', hp', hf'⟩ := hdecode (b.submission accepted) label sample
    exact ⟨by rw [← hl]; exact hl', by rw [← hp]; exact hp', by rw [← hf]; exact hf'⟩

end

theorem transactionCollector_of (window : List TransactionRecord) :
    (transactionCollector.of window).Summarises window := by
  induction window using List.reverseRecOn with
  | nil => exact ⟨fun c => by rcases c with _ | _ | d <;> first | rfl | (cases d <;> rfl), rfl, rfl, rfl⟩
  | append_singleton window r ih =>
    have hof : transactionCollector.of (window ++ [r]) =
        (transactionCollector.of window).record r :=
      transactionCollector.of_snoc window r
    obtain ⟨hl, hp, hf⟩ := (transactionCollector.of window).samples_record r
    rw [hof]
    refine ⟨fun c => ?_, ?_, ?_, ?_⟩
    · rw [TransactionBucket.counter_record, ih.counter c]
      simp
    · rw [hl, ih.cuLimits]
      simp
    · rw [hp, ih.cuPrices]
      simp
    · rw [hf, ih.fees]
      simp

/-! What a run of calls recorded for one key, and what its drains gave out for it. -/

def AggCall.requestFor (key : RequestKey) : AggCall → Option (ℚ × Nat)
  | .record k latencyMs count => if k = key then some (latencyMs, count) else none
  | _ => none

def AggCall.transactionFor (provider : String) : AggCall → Option TransactionRecord
  | .transaction p r => if p = provider then some r else none
  | _ => none

def requestsOf (calls : List AggCall) (key : RequestKey) : List (ℚ × Nat) :=
  calls.filterMap (·.requestFor key)

def transactionsOf (calls : List AggCall) (provider : String) : List TransactionRecord :=
  calls.filterMap (·.transactionFor provider)

def RequestAggregate.key (e : RequestAggregate) : RequestKey := ⟨e.method, e.provider, e.status⟩

def TelemetryEvent.requestFor (key : RequestKey) : TelemetryEvent → Option RequestAggregate
  | .requestAggregate e => if e.key = key then some e else none
  | _ => none

def TelemetryEvent.transactionFor (provider : String) :
    TelemetryEvent → Option TransactionSubmit
  | .transactionSubmit e => if e.provider = provider then some e else none
  | _ => none

def requestEventsOf (events : List TelemetryEvent) (key : RequestKey) : List RequestAggregate :=
  events.filterMap (·.requestFor key)

def transactionEventsOf (events : List TelemetryEvent) (provider : String) :
    List TransactionSubmit :=
  events.filterMap (·.transactionFor provider)

def TelemetryEvent.window : TelemetryEvent → Option (Nat × Nat)
  | .requestAggregate e => some (e.windowStartMs, e.windowEndMs)
  | .transactionSubmit e => some (e.windowStartMs, e.windowEndMs)
  | .historicalGetTransactionAggregate e => some (e.windowStartMs, e.windowEndMs)
  | _ => none

def Aggregation.events (s : Aggregation) : List TelemetryEvent := s.drains.flatMap (·.events)

def AggState.pendingRequests (s : AggState) (key : RequestKey) : Bucket :=
  (s.buckets.lookup key).getD {}

def AggState.pendingTransactions (s : AggState) (provider : String) : TransactionBucket :=
  (s.txBuckets.lookup provider).getD {}

/-- A drain with the entries that its two maps gave out. -/
structure Gave where
  startMs : Nat
  endMs : Nat
  requests : List (Entry RequestKey Bucket)
  transactions : List (Entry String TransactionBucket)

def Gave.drained (g : Gave) : Drained where
  startMs := g.startMs
  endMs := g.endMs
  events := g.requests.map (fun e => .requestAggregate (e.2.event e.1 g.startMs g.endMs)) ++
    g.transactions.map (fun e => .transactionSubmit (e.2.event e.1 g.startMs g.endMs))

structure AggHolds (startMs : Nat) (calls : List AggCall) (s : Aggregation) (gave : List Gave) :
    Prop where
  drains : s.drains = gave.map Gave.drained
  requests : Conserved requestCollector (requestsOf calls) s.state.buckets (gave.map (·.requests))
  transactions : Conserved transactionCollector (transactionsOf calls) s.state.txBuckets
    (gave.map (·.transactions))
  adjoining : s.drains.IsChain (fun a b => b.startMs = a.endMs)
  last : (s.drains.getLast?.map (·.endMs)).getD startMs = s.state.windowStartMs

theorem AggHolds.start (startMs : Nat) :
    AggHolds startMs [] ⟨{ windowStartMs := startMs }, []⟩ [] where
  drains := rfl
  requests := Conserved.start requestCollector
  transactions := Conserved.start transactionCollector
  adjoining := List.IsChain.nil
  last := rfl

/-- Every pending bucket has a sample, so a drain passes none over. -/
theorem requestEntries_eq {items : RequestKey → List (ℚ × Nat)} {s : AggState}
    {drained : List (List (Entry RequestKey Bucket))}
    (h : Conserved requestCollector items s.buckets drained) (order : DrainOrder) :
    s.requestEntries order = order.requests.order s.buckets.entries := by
  apply List.filter_eq_self.mpr
  intro e he
  have hmem : e ∈ s.buckets.entries := (order.requests.perm _).subset he
  have hl : s.buckets.lookup e.1 = some e.2 := AList.mem_lookup_iff.mpr hmem
  obtain ⟨windows, rest, -, -, -, hp⟩ := h.cut e.1
  have hne : rest ≠ [] := by
    rintro rfl
    simp [hl, Collector.pending] at hp
  have hb : e.2 = Bucket.summary rest := by
    rw [hl, requestCollector.pending_ne hne, requestCollector_of] at hp
    exact Option.some.inj hp
  simp [hb, Bucket.summary, hne]

section

variable (calls : List AggCall)

theorem requestsOf_record (key : RequestKey) (latencyMs : ℚ) (count : Nat) :
    requestsOf (calls ++ [.record key latencyMs count]) = fun j =>
      if j = key then requestsOf calls j ++ [(latencyMs, count)] else requestsOf calls j := by
  funext j
  by_cases hj : j = key
  · simp [requestsOf, AggCall.requestFor, hj]
  · simp [requestsOf, AggCall.requestFor, hj, Ne.symm hj]

theorem requestsOf_other {call : AggCall} (h : ∀ key, call.requestFor key = none) :
    requestsOf (calls ++ [call]) = requestsOf calls := by
  funext j
  simp [requestsOf, h j]

theorem transactionsOf_record (provider : String) (r : TransactionRecord) :
    transactionsOf (calls ++ [.transaction provider r]) = fun j =>
      if j = provider then transactionsOf calls j ++ [r] else transactionsOf calls j := by
  funext j
  by_cases hj : j = provider
  · simp [transactionsOf, AggCall.transactionFor, hj]
  · simp [transactionsOf, AggCall.transactionFor, hj, Ne.symm hj]

theorem transactionsOf_other {call : AggCall} (h : ∀ provider, call.transactionFor provider = none) :
    transactionsOf (calls ++ [call]) = transactionsOf calls := by
  funext j
  simp [transactionsOf, h j]

end

theorem AggHolds.step {startMs : Nat} {calls : List AggCall} {s : Aggregation} {gave : List Gave}
    (h : AggHolds startMs calls s gave) (call : AggCall) :
    ∃ gave', AggHolds startMs (calls ++ [call]) (s.after call) gave' := by
  cases call with
  | record key latencyMs count =>
    refine ⟨gave, h.drains, ?_, ?_, h.adjoining, h.last⟩
    · rw [requestsOf_record]
      exact h.requests.record key (latencyMs, count)
    · rw [transactionsOf_other calls (fun _ => rfl)]
      exact h.transactions
  | transaction provider r =>
    refine ⟨gave, h.drains, ?_, ?_, h.adjoining, h.last⟩
    · rw [requestsOf_other calls (fun _ => rfl)]
      exact h.requests
    · rw [transactionsOf_record]
      exact h.transactions.record provider r
  | drain now order =>
    refine ⟨gave ++ [⟨s.state.windowStartMs, now, order.requests.order s.state.buckets.entries,
      s.state.transactionEntries order⟩], ?_, ?_, ?_, ?_, ?_⟩
    · simp [Aggregation.after, AggState.drain, h.drains, Gave.drained,
        requestEntries_eq h.requests order]
    · rw [requestsOf_other calls (fun _ => rfl), List.map_append]
      exact h.requests.drain order.requests
    · rw [transactionsOf_other calls (fun _ => rfl), List.map_append]
      exact h.transactions.drain order.transactions
    · show (s.drains ++ [_]).IsChain _
      rw [List.isChain_append]
      refine ⟨h.adjoining, List.isChain_singleton _, ?_⟩
      intro a ha b hb
      obtain rfl := Option.mem_some.mp hb
      have hlast := h.last
      rw [Option.mem_def.mp ha] at hlast
      exact hlast.symm
    · simp [Aggregation.after, AggState.drain]

theorem map_eq_of_forall₂ {α β γ : Type} {R : α → β → Prop} {f : α → γ} {g : β → γ}
    (hfg : ∀ a b, R a b → f a = g b) {as : List α} {bs : List β} (h : List.Forall₂ R as bs) :
    as.map f = bs.map g := by
  induction h with
  | nil => rfl
  | cons hab _ ih => rw [List.map_cons, List.map_cons, hfg _ _ hab, ih]

section drained

variable (g : Gave)

theorem Gave.requestEvents (key : RequestKey) : requestEventsOf g.drained.events key =
    (g.requests.filter (·.1 == key)).map (fun e => e.2.event key g.startMs g.endMs) := by
  have hnone : (g.transactions.map (fun e => TelemetryEvent.transactionSubmit
      (e.2.event e.1 g.startMs g.endMs))).filterMap (·.requestFor key) = [] := by
    simp [List.filterMap_map, TelemetryEvent.requestFor]
  unfold requestEventsOf Gave.drained
  rw [List.filterMap_append, hnone, List.append_nil]
  induction g.requests with
  | nil => rfl
  | cons e es ih =>
    by_cases hk : e.1 = key
    · subst hk
      simpa [TelemetryEvent.requestFor, RequestAggregate.key, Bucket.event] using ih
    · have hkey : (e.2.event e.1 g.startMs g.endMs).key ≠ key := hk
      simpa [TelemetryEvent.requestFor, hkey, hk] using ih

theorem Gave.transactionEvents (provider : String) :
    transactionEventsOf g.drained.events provider = (g.transactions.filter (·.1 == provider)).map
      (fun e => e.2.event provider g.startMs g.endMs) := by
  have hnone : (g.requests.map (fun e => TelemetryEvent.requestAggregate
      (e.2.event e.1 g.startMs g.endMs))).filterMap (·.transactionFor provider) = [] := by
    simp [List.filterMap_map, TelemetryEvent.transactionFor]
  unfold transactionEventsOf Gave.drained
  rw [List.filterMap_append, hnone, List.nil_append]
  induction g.transactions with
  | nil => rfl
  | cons e es ih =>
    by_cases hk : e.1 = provider
    · subst hk
      simpa [TelemetryEvent.transactionFor, TransactionBucket.event] using ih
    · have hkey : (e.2.event e.1 g.startMs g.endMs).provider ≠ provider := hk
      simpa [TelemetryEvent.transactionFor, hkey, hk] using ih

end drained

section history

variable {startMs : Nat} {calls : List AggCall} {s : Aggregation} {gave : List Gave}

/-- The events of a key beside the entries they were made of. -/
theorem drainedAt_forall₂ {ε κ β : Type} [DecidableEq κ] {k : κ}
    (pick : TelemetryEvent → Option ε) (entries : Gave → List (Entry κ β)) (event : Gave → β → ε)
    (hpick : ∀ g : Gave, g.drained.events.filterMap pick =
      ((entries g).filter (·.1 == k)).map (fun e => event g e.2))
    {R : ε → β → Prop} (hR : ∀ g b, R (event g b) b) (gave : List Gave) :
    List.Forall₂ R ((gave.flatMap (·.drained.events)).filterMap pick)
      (drainedAt (gave.map entries) k) := by
  induction gave with
  | nil => exact .nil
  | cons g gs ih =>
    have hdrained : drainedAt ((g :: gs).map entries) k =
        ((entries g).filter (·.1 == k)).map (·.2) ++ drainedAt (gs.map entries) k := by
      simp [drainedAt]
    rw [List.flatMap_cons, List.filterMap_append, hdrained, hpick g]
    refine List.rel_append ?_ ih
    rw [List.forall₂_map_left_iff, List.forall₂_map_right_iff]
    exact List.forall₂_same.mpr (fun e _ => hR g e.2)

theorem AggHolds.events (h : AggHolds startMs calls s gave) :
    s.events = gave.flatMap (·.drained.events) := by
  rw [Aggregation.events, h.drains, List.flatMap_map]

/-- The calls of a key are the windows of its events, in order, and what is pending. -/
theorem AggHolds.requestWindows (h : AggHolds startMs calls s gave) (key : RequestKey) :
    ∃ (windows : List (List (ℚ × Nat))) (rest : List (ℚ × Nat)),
      requestsOf calls key = windows.flatten ++ rest ∧ (∀ w ∈ windows, w ≠ []) ∧
      List.Forall₂ (fun e w => e = (Bucket.summary w).event key e.windowStartMs e.windowEndMs)
        (requestEventsOf s.events key) windows ∧
      s.state.pendingRequests key = Bucket.summary rest := by
  obtain ⟨windows, rest, hitems, hne, hd, hl⟩ := h.requests.cut key
  refine ⟨windows, rest, hitems, hne, ?_, ?_⟩
  · have hall : List.Forall₂
        (fun e b => e = Bucket.event b key e.windowStartMs e.windowEndMs)
        (requestEventsOf (gave.flatMap (·.drained.events)) key)
        (drainedAt (gave.map (·.requests)) key) :=
      drainedAt_forall₂ (·.requestFor key) (·.requests)
        (fun g b => b.event key g.startMs g.endMs) (·.requestEvents key) (fun _ _ => rfl) gave
    rw [← h.events, hd, List.forall₂_map_right_iff] at hall
    exact hall.imp (fun e w he => by rwa [requestCollector_of] at he)
  · rw [AggState.pendingRequests, hl]
    exact (requestCollector.getD_pending rest).trans (requestCollector_of rest)

theorem AggHolds.transactionWindows (h : AggHolds startMs calls s gave) (provider : String) :
    ∃ windows rest : List _, transactionsOf calls provider = windows.flatten ++ rest ∧
      (∀ w ∈ windows, w ≠ []) ∧
      List.Forall₂ (fun e w => ∃ b : TransactionBucket, b.Summarises w ∧
        e = b.event provider e.windowStartMs e.windowEndMs)
        (transactionEventsOf s.events provider) windows ∧
      (s.state.pendingTransactions provider).Summarises rest := by
  obtain ⟨windows, rest, hitems, hne, hd, hl⟩ := h.transactions.cut provider
  refine ⟨windows, rest, hitems, hne, ?_, ?_⟩
  · have hall : List.Forall₂
        (fun e b => e = TransactionBucket.event b provider e.windowStartMs e.windowEndMs)
        (transactionEventsOf (gave.flatMap (·.drained.events)) provider)
        (drainedAt (gave.map (·.transactions)) provider) :=
      drainedAt_forall₂ (·.transactionFor provider) (·.transactions)
        (fun g b => b.event provider g.startMs g.endMs) (·.transactionEvents provider)
        (fun _ _ => rfl) gave
    rw [← h.events, hd, List.forall₂_map_right_iff] at hall
    exact hall.imp (fun e w he => ⟨_, transactionCollector_of w, he⟩)
  · have hp : s.state.pendingTransactions provider = transactionCollector.of rest := by
      rw [AggState.pendingTransactions, hl]
      exact transactionCollector.getD_pending rest
    rw [hp]
    exact transactionCollector_of rest

theorem AggHolds.once (h : AggHolds startMs calls s gave) {d : Drained} (hd : d ∈ s.drains) :
    (∀ key, (requestEventsOf d.events key).length ≤ 1) ∧
      ∀ provider, (transactionEventsOf d.events provider).length ≤ 1 := by
  rw [h.drains] at hd
  obtain ⟨g, hg, rfl⟩ := List.mem_map.mp hd
  constructor
  · intro key
    rw [g.requestEvents key, List.length_map]
    exact h.requests.once _ (List.mem_map_of_mem hg) key
  · intro provider
    rw [g.transactionEvents provider, List.length_map]
    exact h.transactions.once _ (List.mem_map_of_mem hg) provider

theorem AggHolds.window (h : AggHolds startMs calls s gave) {d : Drained} (hd : d ∈ s.drains)
    {e : TelemetryEvent} (he : e ∈ d.events) : e.window = some (d.startMs, d.endMs) := by
  rw [h.drains] at hd
  obtain ⟨g, hg, rfl⟩ := List.mem_map.mp hd
  rcases List.mem_append.mp he with he | he
  · obtain ⟨_, -, rfl⟩ := List.mem_map.mp he
    rfl
  · obtain ⟨_, -, rfl⟩ := List.mem_map.mp he
    rfl

end history

theorem aggregation_holds {startMs : Nat} {calls : List AggCall} {s₀ s : Aggregation}
    (hinit : (aggregation startMs).init s₀) (hrun : (aggregation startMs).run s₀ calls = some s) :
    ∃ gave, AggHolds startMs calls s gave := by
  subst hinit
  refine System.invariant_history (I := fun calls s => ∃ gave, AggHolds startMs calls s gave)
    ⟨[], AggHolds.start startMs⟩ ?_ hrun
  intro calls s call t _ ⟨gave, h⟩ ht
  obtain rfl := Option.some.inj ht
  exact h.step call

theorem sum_windows {α ε : Type} (f : α → Nat) (g : ε → Nat) {items rest : List α}
    {windows : List (List α)} {events : List ε} (hitems : items = windows.flatten ++ rest)
    (h : List.Forall₂ (fun e w => g e = (w.map f).sum) events windows) :
    (items.map f).sum = (events.map g).sum + (rest.map f).sum := by
  rw [hitems, List.map_append, List.sum_append, map_eq_of_forall₂ (fun _ _ hab => hab) h]
  congr 1
  rw [List.map_flatten, List.sum_flatten, List.map_map]
  rfl

/-- Every call recorded under a key is counted in exactly one event of the key or still
pending; the drains cover adjoining windows. -/
theorem aggregator_conservation (startMs : Nat) (calls : List AggCall) (s₀ s : Aggregation)
    (hinit : (aggregation startMs).init s₀) (hrun : (aggregation startMs).run s₀ calls = some s) :
    (∀ key, ((requestsOf calls key).map (·.2)).sum =
        ((requestEventsOf s.events key).map (·.count)).sum + (s.state.pendingRequests key).count ∧
      ∃ (windows : List (List (ℚ × Nat))) (rest : List (ℚ × Nat)),
        requestsOf calls key = windows.flatten ++ rest ∧ (∀ w ∈ windows, w ≠ []) ∧
        List.Forall₂ (fun e w => e = (Bucket.summary w).event key e.windowStartMs e.windowEndMs)
          (requestEventsOf s.events key) windows ∧
        s.state.pendingRequests key = Bucket.summary rest) ∧
    (∀ provider, (∀ c, ((transactionsOf calls provider).map (·.counts c)).sum =
        ((transactionEventsOf s.events provider).map (·.counter c)).sum +
          (s.state.pendingTransactions provider).counter c) ∧
      ∃ windows rest : List _, transactionsOf calls provider = windows.flatten ++ rest ∧
        (∀ w ∈ windows, w ≠ []) ∧
        List.Forall₂ (fun e w => ∃ b : TransactionBucket, b.Summarises w ∧
          e = b.event provider e.windowStartMs e.windowEndMs)
          (transactionEventsOf s.events provider) windows ∧
        (s.state.pendingTransactions provider).Summarises rest) ∧
    (∀ d ∈ s.drains, (∀ key, (requestEventsOf d.events key).length ≤ 1) ∧
      (∀ provider, (transactionEventsOf d.events provider).length ≤ 1) ∧
      ∀ e ∈ d.events, e.window = some (d.startMs, d.endMs)) ∧
    s.drains.IsChain (fun a b => b.startMs = a.endMs) := by
  obtain ⟨gave, h⟩ := aggregation_holds hinit hrun
  refine ⟨fun key => ?_, fun provider => ?_, fun d hd => ?_, h.adjoining⟩
  · obtain ⟨windows, rest, hitems, hne, hevents, hpending⟩ := h.requestWindows key
    refine ⟨?_, windows, rest, hitems, hne, hevents, hpending⟩
    rw [hpending]
    apply sum_windows (·.2) (fun e : RequestAggregate => e.count) hitems
    exact hevents.imp (fun e w he => by rw [he]; rfl)
  · obtain ⟨windows, rest, hitems, hne, hevents, hpending⟩ := h.transactionWindows provider
    refine ⟨fun c => ?_, windows, rest, hitems, hne, hevents, hpending⟩
    rw [hpending.counter c]
    apply sum_windows (·.counts c) (fun e : TransactionSubmit => e.counter c) hitems
    refine hevents.imp (fun e w he => ?_)
    obtain ⟨b, hb, he⟩ := he
    rw [← hb.counter c, he]
    rfl
  · exact ⟨(h.once hd).1, (h.once hd).2, fun e he => h.window hd he⟩

theorem aggregator_conservation_batch :
    let key : RequestKey := ⟨"getTransaction", "helius", "ok"⟩
    let calls : List AggCall := [.record key 200 1000, .drain 7 ⟨.same _, .same _⟩,
      .record key 100 1]
    ∃ s, (aggregation 0).run ⟨{ windowStartMs := 0 }, []⟩ calls = some s ∧
      1001 = ((requestEventsOf s.events key).map (·.count)).sum +
        (s.state.pendingRequests key).count := by
  intro key calls
  refine ⟨_, rfl, ?_⟩
  have hlaw := aggregator_conservation 0 calls ⟨{ windowStartMs := 0 }, []⟩ _ rfl rfl
  have hsum : ((requestsOf calls key).map (·.2)).sum = 1001 := by decide
  exact hsum.symm.trans (hlaw.1 key).1

end RpcPlane
