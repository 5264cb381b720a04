import RpcPlane.Ledgers

/-! The accounts of the two analytics: every answered transaction is counted once in the metrics
and once in the events of the reporter, every answered lookup once by the analyzer. -/

namespace RpcPlane

variable {S : Setup} {d₀ d d' : Deployment} {e : DeploymentEvent} {es : List DeploymentEvent}

/-! Transactions. -/

/-- The job that a call of `finish_analytics` submits for decoding. -/
def FinishCall.job? (call : FinishCall) : Option TransactionJob := call.submission.submitted

def Setup.jobsOf (S : Setup) (d : Deployment) (es : List DeploymentEvent) : List TransactionJob :=
  (S.finishesOf d es).filterMap (·.job?)

/-- The job is counted under this provider with this outcome. -/
def TransactionJob.countedAt (provider : String) (accepted : Bool) (job : TransactionJob) : Bool :=
  job.provider == provider && job.accepted == accepted

def outcomeCounter (accepted : Bool) : TransactionCounter := if accepted then .accepted else .rejected

theorem transactionEvents_submitted (hown : e.own d = true) :
    (S.transactionEvents d e).filterMap (·.submitted) = (S.finishes d e).filterMap (·.job?) := by
  cases e with
  | proxy e =>
    have hlegs : ∀ legs : List RecordedLeg,
        (legs.map (·.request)).filterMap (·.submitted) = [] := by
      intro legs
      simp [RecordedLeg.request, TransactionEvent.submitted]
    simp only [Setup.transactionEvents, Setup.finishes, List.filterMap_append, hlegs,
      List.nil_append, List.filterMap_map]
    rfl
  | transactions te =>
    cases te with
    | finish cls body acknowledging => cases hown
    | _ => rfl
  | historical e => rfl
  | reporter e => cases e <;> rfl

section metered

variable (decodeRequest : Body → Except DecodeError TransactionInfo) (s : TransactionAnalytics)
  (m : Metrics)

theorem metered_submissions (te : TransactionEvent) (provider : String) (accepted : Bool) :
    (s.metered decodeRequest m te).txSubmissions (provider, accepted) =
      m.txSubmissions (provider, accepted) +
        te.submitted.toList.countP (·.countedAt provider accepted) := by
  cases te with
  | finish cls body acknowledging =>
    cases cls with
    | none => rfl
    | batch => rfl
    | single =>
      by_cases hk : (provider, accepted) = (acknowledged acknowledging, acknowledging.isSome)
      · obtain ⟨rfl, rfl⟩ := Prod.mk.inj hk
        simp [TransactionAnalytics.metered, Metrics.recordTransactionSubmission,
          TransactionEvent.submitted, TransactionJob.countedAt, TransactionJob.new]
      · have hnot : (TransactionJob.new body acknowledging).countedAt provider accepted = false := by
          rw [Bool.eq_false_iff]
          intro hat
          apply hk
          obtain ⟨hp, ha⟩ := Bool.and_eq_true_iff.mp hat
          rw [← beq_iff_eq.mp hp, ← beq_iff_eq.mp ha]
          rfl
        simp [TransactionAnalytics.metered, Metrics.recordTransactionSubmission,
          TransactionEvent.submitted, Function.update_of_ne hk, hnot]
  | drop i =>
    simp only [TransactionAnalytics.metered]
    split <;> rfl
  | record =>
    simp only [TransactionAnalytics.metered]
    split <;> rfl
  | request | reserveFlush | sendFlush | receive | drain => rfl

theorem DecodeResult.label_inj {r r' : DecodeResult} : r.label = r'.label ↔ r = r' := by
  constructor
  · intro h
    have hof := DecodeResult.ofLabel_label r
    rw [h, DecodeResult.ofLabel_label] at hof
    exact (Option.some.inj hof).symm
  · exact congrArg DecodeResult.label

/-- One decode recorded in both places. -/
theorem recordTransactionDecode_counts (name : String) (r' : DecodeResult)
    (sample : Option TransactionInfo) (provider : String) (r : DecodeResult)
    (record : TransactionRecord) (h : record.decoded? = some r') :
    (m.recordTransactionDecode name r'.label sample).txDecode (provider, r.label) =
      m.txDecode (provider, r.label) +
        (([AggCall.transaction name record].filterMap (·.transactionFor provider)).map
          (·.counts (.decoded r))).sum := by
  by_cases hp : name = provider
  · by_cases hr : r' = r
    · simp [Metrics.recordTransactionDecode, AggCall.transactionFor, TransactionRecord.counts, h, hp, hr]
    · have hne : (provider, r.label) ≠ (name, r'.label) := by
        intro hsame
        exact hr (DecodeResult.label_inj.mp (Prod.mk.inj hsame).2).symm
      simp [Metrics.recordTransactionDecode, AggCall.transactionFor, TransactionRecord.counts, h, hp,
        hr, Function.update_of_ne (hp ▸ hne)]
  · have hne : (provider, r.label) ≠ (name, r'.label) := fun hsame =>
      hp (Prod.mk.inj hsame).1.symm
    simp [Metrics.recordTransactionDecode, AggCall.transactionFor, hp, Function.update_of_ne hne]

theorem metered_decodes (te : TransactionEvent) (provider : String) (r : DecodeResult) :
    (s.metered decodeRequest m te).txDecode (provider, r.label) =
      m.txDecode (provider, r.label) +
        (((s.calls decodeRequest te).filterMap (·.transactionFor provider)).map
          (·.counts (.decoded r))).sum := by
  cases te with
  | finish cls body acknowledging =>
    cases cls with
    | none => rfl
    | batch =>
      apply recordTransactionDecode_counts m (acknowledged acknowledging) .batchUnsupported
      exact DecodeResult.ofLabel_label _
    | single => rfl
  | drop i =>
    simp only [TransactionAnalytics.metered, TransactionAnalytics.calls]
    cases s.refused[i]? with
    | none => rfl
    | some job =>
      apply recordTransactionDecode_counts m job.provider .queueDropped
      exact DecodeResult.ofLabel_label _
  | record =>
    simp only [TransactionAnalytics.metered, TransactionAnalytics.calls]
    cases s.worker with
    | none => rfl
    | some job =>
      apply recordTransactionDecode_counts m job.provider (decodeLabel (decodeRequest job.body))
      exact DecodeResult.ofLabel_label _
  | request | reserveFlush | sendFlush | receive | drain => rfl

end metered

theorem step_submissions (h : S.Step d e d') (provider : String) (accepted : Bool) :
    d'.metrics.txSubmissions (provider, accepted) =
      d.metrics.txSubmissions (provider, accepted) +
        ((S.finishes d e).filterMap (·.job?)).countP (·.countedAt provider accepted) := by
  have hfold : ∀ (tes : List TransactionEvent) (m : Metrics),
      (tes.foldl (d.transactions.metered S.decodeRequest) m).txSubmissions (provider, accepted) =
        m.txSubmissions (provider, accepted) +
          (tes.filterMap (·.submitted)).countP (·.countedAt provider accepted) := by
    intro tes
    induction tes with
    | nil => exact fun m => rfl
    | cons te tes ih =>
      intro m
      rw [List.foldl_cons, ih, metered_submissions]
      cases hte : te.submitted with
      | none => simp [hte]
      | some job =>
        simp only [List.filterMap_cons, hte, Option.toList_some, List.countP_cons, List.countP_nil]
        omega
  rw [h.metrics, Setup.metered, hfold, transactionEvents_submitted h.own]

theorem step_decodes (h : S.Step d e d') (provider : String) (r : DecodeResult) :
    d'.metrics.txDecode (provider, r.label) = d.metrics.txDecode (provider, r.label) +
      ((((S.flusherEvents d e).flatMap FlusherEvent.calls).filterMap
        (·.transactionFor provider)).map (·.counts (.decoded r))).sum := by
  have hfold : ∀ (tes : List TransactionEvent) (m : Metrics),
      (tes.foldl (d.transactions.metered S.decodeRequest) m).txDecode (provider, r.label) =
        m.txDecode (provider, r.label) +
          (((tes.flatMap (d.transactions.calls S.decodeRequest)).filterMap
            (·.transactionFor provider)).map (·.counts (.decoded r))).sum := by
    intro tes
    induction tes with
    | nil => exact fun m => rfl
    | cons te tes ih =>
      intro m
      rw [List.foldl_cons, ih, metered_decodes, List.flatMap_cons, List.filterMap_append,
        List.map_append, List.sum_append, Nat.add_assoc]
  rw [h.metrics, Setup.metered, hfold, h.calls]

theorem submissions_metered (hinit : (deployment S).init d₀)
    (hrun : (deployment S).run d₀ es = some d) (provider : String) (accepted : Bool) :
    d.metrics.txSubmissions (provider, accepted) =
      (S.jobsOf d₀ es).countP (·.countedAt provider accepted) := by
  have htotal := System.total_add_eq (I := fun _ : Deployment => True)
    (f := fun d e => ((S.finishes d e).filterMap (·.job?)).countP (·.countedAt provider accepted))
    (g := fun _ _ => 0) (φ := fun d => d.metrics.txSubmissions (provider, accepted))
    (fun _ _ _ _ _ => trivial) (fun d e d' _ ht => by
      rw [step_submissions (Setup.step_iff.mp ht) provider accepted]
      omega) trivial hrun
  have hzero : d₀.metrics.txSubmissions (provider, accepted) = 0 := by rw [hinit.2.1]
  rw [System.total_zero] at htotal
  rw [Setup.jobsOf, finishesOf_trace hrun, System.filterMap_trace, System.countP_trace]
  omega

theorem decodes_metered (hinit : (deployment S).init d₀)
    (hrun : (deployment S).run d₀ es = some d) (provider : String) (r : DecodeResult) :
    d.metrics.txDecode (provider, r.label) =
      ((transactionsOf (S.aggCalls d₀ es) provider).map (·.counts (.decoded r))).sum := by
  have htotal := System.total_add_eq (I := fun _ : Deployment => True)
    (f := fun d e => ((((S.flusherEvents d e).flatMap FlusherEvent.calls).filterMap
      (·.transactionFor provider)).map (·.counts (.decoded r))).sum)
    (g := fun _ _ => 0) (φ := fun d => d.metrics.txDecode (provider, r.label))
    (fun _ _ _ _ _ => trivial) (fun d e d' _ ht => by
      rw [step_decodes (Setup.step_iff.mp ht) provider r]
      omega) trivial hrun
  have hzero : d₀.metrics.txDecode (provider, r.label) = 0 := by rw [hinit.2.1]
  rw [System.total_zero] at htotal
  rw [transactionsOf, Setup.aggCalls, System.filterMap_trace, System.sum_trace]
  omega

theorem counted_jobs {decodeRequest : Body → Except DecodeError TransactionInfo}
    (counted : List Counted) (provider : String) (accepted : Bool) :
    (((counted.filter (·.provider == provider)).map (·.record decodeRequest)).map
        (·.counts (outcomeCounter accepted))).sum =
      (counted.filterMap (·.job?)).countP (·.countedAt provider accepted) := by
  induction counted with
  | nil => rfl
  | cons c counted ih =>
    have hc : (c.record decodeRequest).counts (outcomeCounter accepted) =
        if c.job?.any (·.accepted == accepted) then 1 else 0 := by
      cases accepted with
      | true =>
        have haccepted := c.counts_accepted decodeRequest
        unfold Counted.accepted at haccepted
        simpa [outcomeCounter] using haccepted
      | false =>
        have hrejected := c.counts_rejected decodeRequest
        unfold Counted.rejected at hrejected
        simpa [outcomeCounter] using hrejected
    cases hj : c.job? with
    | none =>
      rw [hj, Option.any_none] at hc
      rw [List.filterMap_cons_none hj, ← ih]
      by_cases hp : (c.provider == provider) = true
      · simp [hp, hc]
      · simp [hp]
    | some job =>
      have hprovider := Counted.provider_of_job hj
      rw [hj, Option.any_some] at hc
      rw [List.filterMap_cons_some hj, List.countP_cons, ← ih]
      by_cases hp : (c.provider == provider) = true
      · have hjob : (job.provider == provider) = true := hprovider ▸ hp
        simp [hp, hc, TransactionJob.countedAt, hjob, Nat.add_comm]
      · have hjob : (job.provider == provider) = false :=
          Bool.eq_false_iff.mpr (hprovider ▸ hp)
        simp [hp, TransactionJob.countedAt, hjob]

theorem jobsOf_submitted (hrun : (deployment S).run d₀ es = some d) :
    ((deployment S).trace S.transactionEvents d₀ es).filterMap (·.submitted) = S.jobsOf d₀ es := by
  rw [Setup.jobsOf, finishesOf_trace hrun, System.filterMap_trace, System.filterMap_trace]
  apply System.trace_congr _ hrun
  intro d e d' ht
  exact transactionEvents_submitted (Setup.step_iff.mp ht).own

theorem FinishCall.job?_eq (call : FinishCall) : call.job? =
    if call.transaction = .single then some (.new call.request call.acknowledging) else none := by
  unfold job? submission
  cases call.transaction <;> rfl

theorem jobs_length (calls : List FinishCall) : (calls.filterMap (·.job?)).length =
    (calls.map (fun call => if call.transaction = .single then 1 else 0)).sum := by
  induction calls with
  | nil => rfl
  | cons call calls ih =>
    by_cases hsingle : call.transaction = .single
    · simp only [List.filterMap_cons, call.job?_eq, hsingle, if_true, List.length_cons,
        List.map_cons, List.sum_cons, ih]
      omega
    · simp only [List.filterMap_cons, call.job?_eq, hsingle, if_false, List.map_cons, List.sum_cons,
        ih, Nat.zero_add]

theorem jobsOf_length (hinit : (deployment S).init d₀) (hrun : (deployment S).run d₀ es = some d) :
    (S.jobsOf d₀ es).length =
      d.sys.answered (fun cls _ => if cls.transaction = .single then 1 else 0) := by
  have hsys := (deployment_sys S).run hrun
  rw [System.trace_labels _ hrun] at hsys
  have hanswered := proxy_answered hinit.1 hsys (fun transaction _ _ =>
    if transaction = .single then 1 else 0)
  rw [← hanswered]
  exact jobs_length _

/-- Windows of records, summed up by the events of a provider and by what is pending. -/
theorem AggHolds.counter_sum {startMs : Nat} {calls : List AggCall} {s : Aggregation}
    {gave : List Gave} (h : AggHolds startMs calls s gave) (provider : String)
    (c : TransactionCounter) : ((transactionsOf calls provider).map (·.counts c)).sum =
      ((transactionEventsOf s.events provider).map (·.counter c)).sum +
        (s.state.pendingTransactions provider).counter c := by
  obtain ⟨windows, rest, hitems, -, hevents, hpending⟩ := h.transactionWindows provider
  rw [hpending.counter c]
  apply sum_windows (·.counts c) (fun e : TransactionSubmit => e.counter c) hitems
  refine hevents.imp (fun e w he => ?_)
  obtain ⟨b, hb, he⟩ := he
  rw [← hb.counter c, he]
  rfl

/-- Every submission is on its way to the aggregator or recorded there. -/
theorem jobs_recorded (hinit : (deployment S).init d₀) (hrun : (deployment S).run d₀ es = some d)
    (provider : String) (accepted : Bool) :
    (S.jobsOf d₀ es).countP (·.countedAt provider accepted) =
      ((transactionsOf (S.aggCalls d₀ es) provider).map (·.counts (outcomeCounter accepted))).sum +
        d.transactions.outstanding.countP (·.countedAt provider accepted) := by
  have hreach : (deployment S).Reachable d := ⟨d₀, es, hinit, hrun⟩
  obtain ⟨calls, gave, haccount⟩ := transactionAnalytics_account hinit.2.2.1
    ((deployment_transactions S).run hrun)
  have hperm := haccount.submitted
  rw [jobsOf_submitted hrun] at hperm
  rw [← hperm.countP_eq, List.countP_append]
  congr 1
  -- both histories of the aggregator end in the same windows
  have hleft := haccount.agg.counter_sum provider (outcomeCounter accepted)
  rw [haccount.records provider, counted_jobs, deployment_shared hreach] at hleft
  obtain ⟨gave', hholds⟩ := deployment_agg_holds hinit hrun
  have hright := hholds.counter_sum provider (outcomeCounter accepted)
  exact hleft.trans hright.symm

/-- In every run of a deployment there is one submission for each answered request that is a
single transaction. The counter of `Metrics` for a provider and an outcome has all of them, the
events that the reporter sends or holds have all but those its aggregator has yet to give out
and those still on their way to it; the counters of decode results lag behind nothing but the
aggregator. -/
theorem deployment_submission_ledgers (S : Setup) (d₀ d : Deployment) (es : List DeploymentEvent)
    (hinit : (deployment S).init d₀) (hrun : (deployment S).run d₀ es = some d) (provider : String) :
    let events := transactionEventsOf d.flusher.aggregates provider
    let pending := d.flusher.aggregation.state.pendingTransactions provider
    (S.jobsOf d₀ es).length =
        d.sys.answered (fun cls _ => if cls.transaction = .single then 1 else 0) ∧
    (∀ accepted, d.metrics.txSubmissions (provider, accepted) =
      (S.jobsOf d₀ es).countP (·.countedAt provider accepted)) ∧
    (∀ accepted, d.metrics.txSubmissions (provider, accepted) =
      (events.map (·.counter (outcomeCounter accepted))).sum +
        pending.counter (outcomeCounter accepted) +
          d.transactions.outstanding.countP (·.countedAt provider accepted)) ∧
    (∀ result : DecodeResult, d.metrics.txDecode (provider, result.label) =
      (events.map (·.decodes result)).sum + pending.decodes result) ∧
    (d.flusher.phase = .ended → d.flusher.batch = [] ∧ pending = {}) := by
  intro events pending
  have hreach : (deployment S).Reachable d := ⟨d₀, es, hinit, hrun⟩
  have hkeeps := flushTask_keeps ((deployment_flusher S).reachable hreach)
  have hevents : events = transactionEventsOf d.flusher.aggregation.events provider := by
    rw [← hkeeps.aggregator]
    rfl
  obtain ⟨gave, hholds⟩ := deployment_agg_holds hinit hrun
  refine ⟨jobsOf_length hinit hrun, submissions_metered hinit hrun provider, ?_, ?_, ?_⟩
  · intro accepted
    have hsum := hholds.counter_sum provider (outcomeCounter accepted)
    rw [submissions_metered hinit hrun, jobs_recorded hinit hrun, hsum, hevents]
  · intro result
    have hsum := hholds.counter_sum provider (.decoded result)
    rw [decodes_metered hinit hrun, hsum, hevents]
    rfl
  · intro hp
    have hfinal : d.flusher.phase.branch = some .final := by rw [hp]; rfl
    refine ⟨hkeeps.sent (by rw [hp]; decide), ?_⟩
    have hempty := (hkeeps.drained hfinal (by rw [hp]; decide)).2
    simp [pending, AggState.pendingTransactions, hempty]

/-- Both legs of the broadcast are done, and the worker has decoded the transaction. -/
def secondWinsDecoded : List DeploymentEvent :=
  secondWins.map .proxy ++ [.transactions .receive, .transactions .record]

theorem deployment_submission_ledgers_second_wins :
    let S := broadcastingSetup
    ∃ d, (deployment S).run (.start S) secondWinsDecoded = some d ∧
      d.metrics.txSubmissions ("b", true) = 1 ∧
      1 = ((transactionEventsOf d.flusher.aggregates "b").map (·.counter .accepted)).sum +
        (d.flusher.aggregation.state.pendingTransactions "b").counter .accepted +
          d.transactions.outstanding.countP (·.countedAt "b" true) := by
  intro S
  have hends : ((deployment S).run (.start S) secondWinsDecoded).any
      (fun d => d.metrics.txSubmissions ("b", true) == 1) = true := by
    decide +kernel
  obtain ⟨d, hd, hone⟩ := (Option.any_eq_true _ _).mp hends
  have hsubmitted := beq_iff_eq.mp hone
  obtain ⟨-, -, hsum, -⟩ := deployment_submission_ledgers S (.start S) d secondWinsDecoded
    (Deployment.start_init S) hd "b"
  exact ⟨d, hd, hsubmitted, hsubmitted.symm.trans (hsum true)⟩

/-! Lookups. -/

def TelemetryEvent.historical? : TelemetryEvent → Option HistoricalAggregate
  | .historicalGetTransactionAggregate a => some a
  | _ => none

def FlusherEvent.emitted? : FlusherEvent → Option TelemetryEvent
  | .emit event => some event
  | _ => none

theorem Analytics.step_emitted {config : HistoricalAnalyticsConfig} {parser : ValueParser}
    {s t : Analytics} {e : AnalyticsEvent} (h : s.step config parser e = some t) :
    t.emitted = s.emitted ++ s.emits config e := by
  cases Analytics.step_move h with
  | emit hw => simp [emits, hw]
  | _ => exact (List.append_nil _).symm

/-- The channel takes what is emitted in order, and may leave some out. -/
theorem Flusher.run_accepted {config : ReportingConfig} {startMs : Nat} {s t : Flusher}
    {events : List FlusherEvent} (h : (flushTask config startMs).run s events = some t) :
    ∃ accepted, t.accepted = s.accepted ++ accepted ∧
      accepted.Sublist (events.filterMap (·.emitted?)) := by
  induction events generalizing s with
  | nil =>
    obtain rfl : s = t := by simpa [System.run] using h
    exact ⟨[], (List.append_nil _).symm, .slnil⟩
  | cons e events ih =>
    obtain ⟨u, hu, hr⟩ := Option.bind_eq_some_iff.mp h
    obtain ⟨accepted, ht, hsub⟩ := ih hr
    have hrest : ∀ {event : Option TelemetryEvent}, e.emitted? = event →
        u.accepted = s.accepted → ∃ accepted, t.accepted = s.accepted ++ accepted ∧
          accepted.Sublist ((e :: events).filterMap (·.emitted?)) := by
      intro event he hsame
      refine ⟨accepted, hsame ▸ ht, ?_⟩
      rw [← List.singleton_append, List.filterMap_append]
      exact hsub.trans (List.sublist_append_right _ _)
    cases Flusher.step_move hu with
    | emitted ho =>
      rename_i event
      refine ⟨event :: accepted, by rw [ht]; simp, ?_⟩
      exact hsub.cons_cons event
    | dropped => exact hrest rfl rfl
    | record ho => exact hrest rfl rfl
    | recordTransaction ho => exact hrest rfl rfl
    | notify => exact hrest rfl rfl
    | register ho => exact hrest rfl rfl
    | close => exact hrest rfl rfl
    | received hp hq => exact hrest rfl rfl
    | receivedFull hp hq => exact hrest rfl rfl
    | disconnected hp hq hc => exact hrest rfl rfl
    | tick hp => exact hrest rfl rfl
    | notified hp => exact hrest rfl rfl
    | drain hp => exact hrest rfl rfl
    | tried hp hq => exact hrest rfl rfl
    | nothing hp hq hb => exact hrest rfl rfl
    | hand hp hq => exact hrest rfl rfl
    | posted hp => exact hrest rfl rfl
    | wake hp => exact hrest rfl rfl

section lookups

variable {analyticsConfig : HistoricalAnalyticsConfig}

theorem Setup.Step.lookups (h : S.Step d e d')
    (hc : S.config.historicalAnalytics = some analyticsConfig) {a a' : Analytics}
    (ha : d.historical = some a) (ha' : d'.historical = some a') :
    (analytics analyticsConfig S.parser S.hash S.startMs).run a (S.historicalEvents d e) =
      some a' := by
  have hrun := h.historical
  simp only [Setup.runHistorical, hc, ha, ha'] at hrun
  obtain ⟨b, hb, hsame⟩ := Option.map_eq_some_iff.mp hrun
  exact Option.some.inj hsame ▸ hb

theorem reported_emitted (cs : List AggCall) :
    (cs.flatMap AggCall.reported).filterMap (·.emitted?) = [] := by
  rw [List.filterMap_flatMap, List.flatMap_eq_nil_iff]
  intro c hc
  cases c <;> rfl

/-- What the worker emits in a step is what that step sends to the channel of its own. -/
theorem Setup.Step.emitted (h : S.Step d e d')
    (hc : S.config.historicalAnalytics = some analyticsConfig) {a a' : Analytics}
    (ha : d.historical = some a) (ha' : d'.historical = some a') :
    a'.emitted = a.emitted ++
      ((S.flusherEvents d e).filterMap (·.emitted?)).filterMap (·.historical?) := by
  have hrun := h.lookups hc ha ha'
  have hextends := System.trace_of_extends (φ := Analytics.emitted)
    (f := Analytics.emits analyticsConfig) (fun s e t ht => Analytics.step_emitted ht) hrun
  rw [hextends]
  congr 1
  cases e with
  | proxy e =>
    have hnone : (S.flusherEvents d (.proxy e)).filterMap (·.emitted?) = [] := by
      simp only [Setup.flusherEvents]
      rw [← List.flatMap_assoc]
      exact reported_emitted _
    rw [hnone]
    simp only [Setup.historicalEvents] at hrun ⊢
    cases hf : d.sys.finished S.config e with
    | none => rfl
    | some call =>
      rw [hf] at hrun
      obtain ⟨b, hb, -⟩ := Option.bind_eq_some_iff.mp hrun
      exact System.trace_singleton _ hb
  | transactions te =>
    have hnone : (S.flusherEvents d (.transactions te)).filterMap (·.emitted?) = [] := by
      simp only [Setup.flusherEvents]
      rw [← List.flatMap_assoc]
      exact reported_emitted _
    rw [hnone]
    rfl
  | historical e =>
    obtain ⟨b, hb, -⟩ := Option.bind_eq_some_iff.mp hrun
    have hemits : (analytics analyticsConfig S.parser S.hash S.startMs).trace
        (Analytics.emits analyticsConfig) a [e] = a.emits analyticsConfig e :=
      System.trace_singleton _ hb
    simp only [Setup.historicalEvents, Setup.flusherEvents, Setup.aggregates, hc, ha]
    rw [hemits, List.filterMap_map, List.filterMap_filterMap]
    exact (List.filterMap_some).symm
  | reporter e =>
    have hown : e.own = true := h.own
    cases e with
    | emit event =>
      cases event with
      | historicalGetTransactionAggregate a => cases hown
      | _ => rfl
    | _ => rfl

theorem deployment_reported (hc : S.config.historicalAnalytics = some analyticsConfig)
    (hinit : (deployment S).init d₀) (hrun : (deployment S).run d₀ es = some d) :
    ∃ a, d.historical = some a ∧
      (d.flusher.accepted.filterMap (·.historical?)).Sublist a.emitted := by
  have hstart : ∃ a, d₀.historical = some a := by
    rw [hinit.2.2.2.1, hc]
    exact ⟨_, rfl⟩
  obtain ⟨a₀, ha₀⟩ := hstart
  apply System.invariant_run (I := fun d : Deployment => ∃ a, d.historical = some a ∧
    (d.flusher.accepted.filterMap (·.historical?)).Sublist a.emitted) _ _ hrun
  · rintro d e d' ⟨a, ha, hsub⟩ ht
    have hstep := Setup.step_iff.mp ht
    have hone : (deployment S).run d [e] = some d' := by
      rw [System.run, ht]
      rfl
    obtain ⟨a', ha', -⟩ := deployment_historical hc ha hone
    obtain ⟨accepted, haccepted, hchannel⟩ := Flusher.run_accepted hstep.flusher
    refine ⟨a', ha', ?_⟩
    rw [haccepted, List.filterMap_append, hstep.emitted hc ha ha']
    exact hsub.append (hchannel.filterMap _)
  · refine ⟨a₀, ha₀, ?_⟩
    rw [hinit.2.2.2.2]
    exact List.nil_sublist _

theorem offered_lookups (hinit : (deployment S).init d₀)
    (hrun : (deployment S).run d₀ es = some d) :
    offered ((deployment S).trace S.historicalEvents d₀ es) =
      d.sys.answered (fun cls _ => cls.historical.eligibleCalls) := by
  have hsys := (deployment_sys S).run hrun
  rw [System.trace_labels _ hrun] at hsys
  have hanswered := proxy_answered hinit.1 hsys (fun _ historical _ => historical.eligibleCalls)
  have hfinishes := finishesOf_trace hrun
  rw [Setup.finishesOf] at hfinishes
  rw [hfinishes, System.sum_trace] at hanswered
  rw [← hanswered, offered, System.sum_trace]
  apply System.total_congr _ hrun
  intro d e d' ht
  have hown := (Setup.step_iff.mp ht).own
  cases e with
  | proxy e =>
    simp only [Setup.historicalEvents, Setup.finishes, List.map_map]
    rfl
  | transactions e => rfl
  | historical e =>
    cases e with
    | finish call listed => cases hown
    | _ => rfl
  | reporter e => rfl

/-- In every run of a deployment with historical analytics the eligible calls of the answered
lookups are each in one place of the analyzer; when nothing is in progress there, that is an
emitted aggregate, a window, the dropped counter or the queue. Every aggregate that the reporter
sends or holds is one of those emitted, once and in their order. -/
theorem deployment_lookup_ledger (S : Setup) (analyticsConfig : HistoricalAnalyticsConfig)
    (hc : S.config.historicalAnalytics = some analyticsConfig) (d₀ d : Deployment)
    (es : List DeploymentEvent) (hinit : (deployment S).init d₀)
    (hrun : (deployment S).run d₀ es = some d) :
    ∃ a, d.historical = some a ∧
      d.sys.answered (fun cls _ => cls.historical.eligibleCalls) = a.balance ∧
      (a.Quiet → d.sys.answered (fun cls _ => cls.historical.eligibleCalls) =
        a.emittedLogical + totalLogical a.core.windows + a.quality .droppedLogical + a.queued) ∧
      ((d.flusher.batched.filterMap (·.ofChannel) ++ d.flusher.queue).filterMap
        (·.historical?)).Sublist a.emitted := by
  have hkeeps := flushTask_keeps ((deployment_flusher S).reachable ⟨d₀, es, hinit, hrun⟩)
  have hstart : d₀.historical = some (.start analyticsConfig S.hash S.startMs) := by
    rw [hinit.2.2.2.1, hc]
    rfl
  obtain ⟨a, ha, hanalytics⟩ := deployment_historical hc hstart hrun
  obtain ⟨a', ha', hsub⟩ := deployment_reported hc hinit hrun
  obtain rfl : a = a' := Option.some.inj (ha.symm.trans ha')
  have hcalls := (Analytics.account analyticsConfig S.parser S.hash S.startMs hanalytics).calls
  rw [offered_lookups hinit hrun] at hcalls
  refine ⟨a, ha, hcalls.symm, fun hq => ?_, ?_⟩
  · have howed := hq.owed
    have htaken := hq.taken .droppedLogical
    unfold Analytics.balance at hcalls
    omega
  · rw [hkeeps.channel]
    exact hsub

def lookupAnswered : List DeploymentEvent :=
  [.proxy (.arrive getTransaction.body), .proxy (.move 0 .snapshot), .proxy (.move 0 (.route 0)),
    .proxy (.move 0 .dispatch), .proxy (.move 0 (.answer ⟨.ok ⟨.ok, sendTransaction.body⟩, 20⟩)),
    .historical (.acquire 0 7), .historical (.send 0)]

theorem deployment_lookup_ledger_answered :
    let S := broadcastingSetup
    ∃ d a, (deployment S).run (.start S) lookupAnswered = some d ∧ d.historical = some a ∧
      d.sys.answered (fun cls _ => cls.historical.eligibleCalls) = 1 ∧ a.balance = 1 := by
  intro S
  have hends : ((deployment S).run (.start S) lookupAnswered).any
      (fun d => d.sys.answered (fun cls _ => cls.historical.eligibleCalls) == 1) = true := by
    decide +kernel
  obtain ⟨d, hd, hone⟩ := (Option.any_eq_true _ _).mp hends
  have hanswered := beq_iff_eq.mp hone
  obtain ⟨a, ha, hcalls, -⟩ := deployment_lookup_ledger S {} rfl (.start S) d lookupAnswered
    (Deployment.start_init S) hd
  exact ⟨d, a, hd, ha, hanswered, hcalls.symm.trans hanswered⟩

end lookups

end RpcPlane
