import RpcPlane.FlushAccount
import RpcPlane.FlushDelivery

/-! The end of `run`: the flush of the historical analytics, then that of the transaction
analytics, then that of the reporter. What the process has counted before is then sent. -/

namespace RpcPlane

variable {S : Setup} {d₀ d d' : Deployment} {e : DeploymentEvent} {es : List DeploymentEvent}

/-! What the channel of the reporter has no room for. -/

def Flusher.lost (config : ReportingConfig) (s : Flusher) : FlusherEvent → List TelemetryEvent
  | .emit event => if s.queue.length < config.bufferSize then [] else [event]
  | _ => []

theorem Flusher.step_accepted {config : ReportingConfig} {s t : Flusher} {e : FlusherEvent}
    (hs : s.step config e = some t) :
    t.accepted ++ s.lost config e = s.accepted ++ e.emitted?.toList := by
  cases e with
  | emit event =>
    obtain ⟨-, hroom⟩ := eq_of_refusal hs
    by_cases hfull : s.queue.length < config.bufferSize
    · obtain rfl := Option.some.inj ((if_pos hfull).symm.trans hroom)
      simp [lost, hfull, FlusherEvent.emitted?]
    · obtain rfl := Option.some.inj ((if_neg hfull).symm.trans hroom)
      simp [lost, hfull, FlusherEvent.emitted?]
  | record | recordTransaction | notify | register | close | receive | disconnected | tick |
    notified | drain | tryRecv | posted | wake =>
    cases Flusher.step_move hs <;> rfl

theorem Flusher.accepted_or_lost {config : ReportingConfig} {startMs : Nat} {s t : Flusher}
    {events : List FlusherEvent} (h : (flushTask config startMs).run s events = some t) :
    (t.accepted ++ (flushTask config startMs).trace (lost config) s events).Perm
      (s.accepted ++ events.filterMap (·.emitted?)) := by
  refine System.invariant_history (I := fun events t =>
    (Flusher.accepted t ++ (flushTask config startMs).trace (lost config) s events).Perm
      (s.accepted ++ events.filterMap (·.emitted?))) (List.Perm.refl _) ?_ h
  intro events t e u ht ih hu
  have hone := step_accepted hu
  have hlast : (events ++ [e]).filterMap (·.emitted?) =
      events.filterMap (·.emitted?) ++ e.emitted?.toList := by
    cases he : e.emitted? <;> simp [he]
  rw [System.trace_snoc _ ht hu, hlast, ← List.append_assoc, ← List.append_assoc]
  have hswap : ∀ xs ys zs : List TelemetryEvent, (xs ++ ys ++ zs).Perm (xs ++ zs ++ ys) := by
    intro xs ys zs
    rw [List.append_assoc, List.append_assoc]
    exact List.perm_append_comm.append_left xs
  refine (hswap _ _ _).trans ?_
  rw [hone]
  exact (hswap _ _ _).trans (ih.append_right _)

def Setup.lost (S : Setup) (d : Deployment) (e : DeploymentEvent) : List TelemetryEvent :=
  (flushTask S.reporting S.startMs).trace (Flusher.lost S.reporting) d.flusher (S.flusherEvents d e)

/-- The events of a run that never got into the channel. -/
def Setup.lostOf (S : Setup) (d : Deployment) (es : List DeploymentEvent) : List TelemetryEvent :=
  (deployment S).trace S.lost d es

def Setup.historicalOf (S : Setup) (d : Deployment) (es : List DeploymentEvent) :
    List AnalyticsEvent :=
  (deployment S).trace S.historicalEvents d es

def Setup.transactionsOf (S : Setup) (d : Deployment) (es : List DeploymentEvent) :
    List TransactionEvent :=
  (deployment S).trace S.transactionEvents d es

def Setup.flusherOf (S : Setup) (d : Deployment) (es : List DeploymentEvent) : List FlusherEvent :=
  (deployment S).trace S.flusherEvents d es

theorem lostOf_trace (hrun : (deployment S).run d₀ es = some d) :
    S.lostOf d₀ es = (flushTask S.reporting S.startMs).trace (Flusher.lost S.reporting) d₀.flusher
      (S.flusherOf d₀ es) :=
  ((deployment_flusher S).trace (Flusher.lost S.reporting) hrun).symm

section lookups

variable {analyticsConfig : HistoricalAnalyticsConfig}
  (hc : S.config.historicalAnalytics = some analyticsConfig)

include hc

/-- The worker emits what the reporter is given by the analytics, in the same order. -/
theorem emitted_reported {a₀ a : Analytics} (ha₀ : d₀.historical = some a₀)
    (hrun : (deployment S).run d₀ es = some d) (ha : d.historical = some a) :
    a.emitted = a₀.emitted ++
      ((S.flusherOf d₀ es).filterMap (·.emitted?)).filterMap (·.historical?) := by
  refine System.invariant_history (I := fun es d => ∀ a, Deployment.historical d = some a →
    a.emitted = a₀.emitted ++
      ((S.flusherOf d₀ es).filterMap (·.emitted?)).filterMap (·.historical?)) ?_ ?_ hrun a ha
  · intro a ha
    obtain rfl : a₀ = a := Option.some.inj (ha₀.symm.trans ha)
    exact (List.append_nil _).symm
  · intro es d e d' hrun ih ht a' ha'
    obtain ⟨a, ha, -⟩ := deployment_historical hc ha₀ hrun
    have hstep := Setup.step_iff.mp ht
    have hflusher : S.flusherOf d₀ (es ++ [e]) = S.flusherOf d₀ es ++ S.flusherEvents d e :=
      System.trace_snoc S.flusherEvents hrun ht
    rw [hstep.emitted hc ha ha', ih a ha, hflusher, List.filterMap_append, List.filterMap_append,
      List.append_assoc]

/-- Every aggregate that the worker has emitted was taken by the channel of the reporter or lost. -/
theorem emitted_or_lost (hinit : (deployment S).init d₀) (hrun : (deployment S).run d₀ es = some d)
    {a : Analytics} (ha : d.historical = some a) :
    a.emitted.Perm ((d.flusher.accepted ++ S.lostOf d₀ es).filterMap (·.historical?)) := by
  have hstart : d₀.historical = some (.start analyticsConfig S.hash S.startMs) := by
    rw [hinit.2.2.2.1, hc]
    rfl
  have hemitted := emitted_reported hc hstart hrun ha
  have hflusher := (deployment_flusher S).run hrun
  have hperm := Flusher.accepted_or_lost hflusher
  have hnil : d₀.flusher.accepted = [] := by
    rw [hinit.2.2.2.2]
    rfl
  rw [hnil, List.nil_append] at hperm
  rw [hemitted, lostOf_trace hrun]
  exact (hperm.filterMap _).symm

end lookups

/-! The events by which a flush of the reporter is asked for. -/

def DeploymentEvent.signals : DeploymentEvent → Bool
  | .reporter e => e.signals
  | _ => false

def DeploymentEvent.registers : DeploymentEvent → Bool
  | .reporter e => e.registers
  | _ => false

theorem flusherEvents_cases {fe : FlusherEvent} (h : fe ∈ S.flusherEvents d e) :
    e = .reporter fe ∨ (fe.signals = false ∧ fe.registers = false) := by
  have hreported : ∀ cs : List AggCall, fe ∈ cs.flatMap AggCall.reported →
      fe.signals = false ∧ fe.registers = false := by
    intro cs hmem
    obtain ⟨c, -, hc⟩ := List.mem_flatMap.mp hmem
    cases c with
    | record key latencyMs count =>
      obtain rfl := List.mem_singleton.mp hc
      exact ⟨rfl, rfl⟩
    | transaction provider call =>
      obtain rfl := List.mem_singleton.mp hc
      exact ⟨rfl, rfl⟩
    | drain now order => cases hc
  cases e with
  | proxy e =>
    obtain ⟨te, -, hte⟩ := List.mem_flatMap.mp h
    exact Or.inr (hreported _ hte)
  | transactions te =>
    obtain ⟨te, -, hte⟩ := List.mem_flatMap.mp h
    exact Or.inr (hreported _ hte)
  | historical e =>
    obtain ⟨a, -, rfl⟩ := List.mem_map.mp h
    exact Or.inr ⟨rfl, rfl⟩
  | reporter e =>
    obtain rfl := List.mem_singleton.mp h
    exact Or.inl rfl

theorem mem_flusherOf (hrun : (deployment S).run d es = some d') {fe : FlusherEvent}
    (h : fe ∈ S.flusherOf d es) :
    .reporter fe ∈ es ∨ (fe.signals = false ∧ fe.registers = false) := by
  obtain ⟨u, e, he, hmem⟩ := System.mem_trace hrun h
  rcases flusherEvents_cases hmem with rfl | hother
  · exact Or.inl he
  · exact Or.inr hother

/-- `flush_historical_analytics` has something to flush only when the analytics are configured. -/
def Setup.historicalFlush (S : Setup) : List DeploymentEvent :=
  if S.config.historicalAnalytics.isSome then [.historical .sendFlush] else []

/-- A run of the process to the end of `run` in `main`: each flush is asked for when the one before
it has been answered, and nobody else asks the reporter for one. -/
structure Shutdown (S : Setup) where
  start : Deployment
  served : Deployment
  historicalFlushed : Deployment
  transactionsFlushed : Deployment
  ended : Deployment
  serving : List DeploymentEvent
  flushingHistorical : List DeploymentEvent
  flushingTransactions : List DeploymentEvent
  flushingReporter : List DeploymentEvent
  id : Nat
  init : (deployment S).init start
  serves : (deployment S).run start serving = some served
  flushesHistorical :
    (deployment S).run served (S.historicalFlush ++ flushingHistorical) = some historicalFlushed
  historicalAnswered : ∀ config, S.config.historicalAnalytics = some config →
    (sentMessages config S.parser S.hash S.startMs (S.historicalOf start serving)).countP
      Message.isFlush < (flushCalls config S.parser S.hash S.startMs (S.historicalOf start
        (serving ++ (S.historicalFlush ++ flushingHistorical)))).answered
  flushesTransactions : (deployment S).run historicalFlushed
    (.transactions .sendFlush :: flushingTransactions) = some transactionsFlushed
  transactionsAnswered :
    let before := serving ++ (S.historicalFlush ++ flushingHistorical)
    let analytics := transactionAnalytics S.decodeRequest S.startMs
    (analytics.trace TransactionAnalytics.sent start.transactions
        (S.transactionsOf start before)).countP TransactionMessage.isFlush <
      (analytics.trace TransactionAnalytics.received start.transactions (S.transactionsOf start
        (before ++ .transactions .sendFlush :: flushingTransactions))).countP
          TransactionMessage.isFlush
  flushesReporter : (deployment S).run transactionsFlushed
    (.reporter (.register id) :: flushingReporter) = some ended
  unasked : ∀ e ∈ serving ++ flushingHistorical ++ flushingTransactions, e.signals = false
  alone : ∀ e ∈ flushingReporter, e.registers = false
  answered : ended.flusher.completed ≠ []

namespace Shutdown

variable (h : Shutdown S)

/-- The events up to the answer of each flush. -/
def toHistorical : List DeploymentEvent := h.serving ++ (S.historicalFlush ++ h.flushingHistorical)

def toTransactions : List DeploymentEvent :=
  h.toHistorical ++ .transactions .sendFlush :: h.flushingTransactions

theorem run_toHistorical : (deployment S).run h.start h.toHistorical = some h.historicalFlushed := by
  rw [toHistorical, System.run_append, h.serves]
  exact h.flushesHistorical

theorem run_toTransactions :
    (deployment S).run h.start h.toTransactions = some h.transactionsFlushed := by
  rw [toTransactions, System.run_append, h.run_toHistorical]
  exact h.flushesTransactions

theorem unasked_toTransactions : ∀ e ∈ h.toTransactions, e.signals = false := by
  intro e he
  have hcases : e ∈ h.serving ++ h.flushingHistorical ++ h.flushingTransactions ∨
      e ∈ S.historicalFlush ∨ e = .transactions .sendFlush := by
    simp only [toTransactions, toHistorical, List.mem_append, List.mem_cons] at he ⊢
    tauto
  rcases hcases with hmem | hmem | rfl
  · exact h.unasked e hmem
  · unfold Setup.historicalFlush at hmem
    split at hmem
    · obtain rfl := List.mem_singleton.mp hmem
      rfl
    · cases hmem
  · rfl

/-- What the reporter has sent when it has answered. -/
theorem reporter_delivers :
    h.transactionsFlushed.flusher.accepted <+: h.ended.flusher.sent.filterMap (·.ofChannel) ∧
      ∀ {β γ : Type} (M : Tally β γ), M.recorded (S.aggCalls h.start h.toTransactions) ≤
        M.given (h.ended.flusher.sent.filterMap (·.ofAggregator)) := by
  have hbefore := (deployment_flusher S).run h.run_toTransactions
  have hquiet : ∀ fe ∈ S.flusherOf h.start h.toTransactions, fe.signals = false := by
    intro fe hfe
    rcases mem_flusherOf h.run_toTransactions hfe with hmem | ⟨hsignals, -⟩
    · exact h.unasked_toTransactions _ hmem
    · exact hsignals
  obtain ⟨d, hd, hrest⟩ := Option.bind_eq_some_iff.mp h.flushesReporter
  have hafter := (deployment_flusher S).run h.flushesReporter
  rw [System.trace_cons _ hd] at hafter
  have hsilent : ∀ fe ∈ S.flusherOf d h.flushingReporter, fe.registers = false := by
    intro fe hfe
    rcases mem_flusherOf hrest hfe with hmem | ⟨-, hregisters⟩
    · exact h.alone _ hmem
    · exact hregisters
  rw [h.init.2.2.2.2] at hbefore
  have hdelivered := flush_alone_delivers hbefore hquiet hafter hsilent h.answered
  have hcalls : (S.flusherOf h.start h.toTransactions).flatMap FlusherEvent.calls =
      S.aggCalls h.start h.toTransactions := List.flatMap_assoc
  refine ⟨hdelivered.1, ?_⟩
  intro β γ M
  rw [← hcalls]
  exact hdelivered.2 M

/-- The calls of the legs recorded by then are in the events that are sent. -/
theorem requests_delivered (key : RequestKey) :
    (((S.legsOf h.start h.toTransactions).filter (·.key = key)).map (·.count)).sum ≤
      ((requestEventsOf (h.ended.flusher.sent.filterMap (·.ofAggregator)) key).map
        (·.count)).sum := by
  have hdelivered := h.reporter_delivers.2 (requestTally key)
  have hrecorded : (requestTally key).recorded (S.aggCalls h.start h.toTransactions) =
      (((S.legsOf h.start h.toTransactions).filter (·.key = key)).map (·.count)).sum := by
    have hrequests := requestsOf_aggCalls h.run_toTransactions key
    show ((requestsOf (S.aggCalls h.start h.toTransactions) key).map (·.2)).sum = _
    rw [hrequests, List.map_map]
    rfl
  rw [hrecorded] at hdelivered
  exact hdelivered

/-- The submissions before the flush of the transactions are in the events that are sent, but for
the jobs that the channel gave back and that are not counted yet. -/
theorem submissions_delivered (provider : String) (accepted : Bool) :
    (S.jobsOf h.start h.toHistorical).countP (·.countedAt provider accepted) ≤
      ((transactionEventsOf (h.ended.flusher.sent.filterMap (·.ofAggregator)) provider).map
        (·.counter (outcomeCounter accepted))).sum +
        h.transactionsFlushed.transactions.refused.countP (·.countedAt provider accepted) := by
  have hdelivered := h.reporter_delivers.2 (transactionTally provider (outcomeCounter accepted))
  have hrecorded : (S.jobsOf h.start h.toTransactions).countP (·.countedAt provider accepted) =
      (transactionTally provider (outcomeCounter accepted)).recorded
        (S.aggCalls h.start h.toTransactions) +
        h.transactionsFlushed.transactions.outstanding.countP (·.countedAt provider accepted) :=
    jobs_recorded h.init h.run_toTransactions provider accepted
  have hbefore : (transactionAnalytics S.decodeRequest S.startMs).run h.start.transactions
      (S.transactionsOf h.start h.toHistorical) = some h.historicalFlushed.transactions :=
    (deployment_transactions S).run h.run_toHistorical
  have hafter : (transactionAnalytics S.decodeRequest S.startMs).run h.start.transactions
      (S.transactionsOf h.start h.toTransactions) = some h.transactionsFlushed.transactions :=
    (deployment_transactions S).run h.run_toTransactions
  have hanswered : ((transactionAnalytics S.decodeRequest S.startMs).trace TransactionAnalytics.sent
      h.start.transactions (S.transactionsOf h.start h.toHistorical)).countP
        TransactionMessage.isFlush <
      ((transactionAnalytics S.decodeRequest S.startMs).trace TransactionAnalytics.received
        h.start.transactions (S.transactionsOf h.start h.toTransactions)).countP
          TransactionMessage.isFlush := h.transactionsAnswered
  obtain ⟨d, hd, -⟩ := Option.bind_eq_some_iff.mp h.flushesTransactions
  have hevents : S.transactionsOf h.start h.toTransactions =
      S.transactionsOf h.start h.toHistorical ++ .sendFlush ::
        S.transactionsOf d h.flushingTransactions := by
    rw [toTransactions, Setup.transactionsOf, System.trace_append _ h.run_toHistorical,
      System.trace_cons _ hd]
    rfl
  have hidle : h.start.transactions.queue = [] ∧ h.start.transactions.worker = none := by
    rw [h.init.2.2.1]
    exact ⟨rfl, rfl⟩
  have hjobs : (S.transactionsOf h.start h.toTransactions).filterMap (·.submitted) =
      S.jobsOf h.start h.toTransactions := jobsOf_submitted h.run_toTransactions
  have hjobs₁ : (S.transactionsOf h.start h.toHistorical).filterMap (·.submitted) =
      S.jobsOf h.start h.toHistorical := jobsOf_submitted h.run_toHistorical
  rw [hevents] at hafter hanswered
  have hbarrier := transactions_flush_barrier hidle.1 hidle.2 hbefore hafter hanswered
    (·.countedAt provider accepted)
  rw [← hevents, hjobs, hjobs₁] at hbarrier
  have hgiven : (transactionTally provider (outcomeCounter accepted)).given
      (h.ended.flusher.sent.filterMap (·.ofAggregator)) =
        ((transactionEventsOf (h.ended.flusher.sent.filterMap (·.ofAggregator)) provider).map
          (·.counter (outcomeCounter accepted))).sum := rfl
  omega

/-- The eligible calls of the lookups answered while the proxy served are in the aggregates that
are sent, but for the calls of a `finish` still in progress then and the aggregates that the
channel of the reporter had no room for. -/
theorem lookups_delivered {config : HistoricalAnalyticsConfig}
    (hc : S.config.historicalAnalytics = some config) :
    ∃ a, h.served.historical = some a ∧
      h.served.sys.answered (fun cls _ => cls.historical.eligibleCalls) ≤
        (((h.ended.flusher.sent.filterMap (·.ofChannel)).filterMap (·.historical?)).map
          (·.counts.logicalRequestCount)).sum +
        (((S.lostOf h.start h.toHistorical).filterMap (·.historical?)).map
          (·.counts.logicalRequestCount)).sum + a.owed := by
  have hstart : h.start.historical = some (.start config S.hash S.startMs) := by
    rw [h.init.2.2.2.1, hc]
    rfl
  obtain ⟨a₁, ha₁, hserves⟩ := deployment_historical hc hstart h.serves
  obtain ⟨a₂, ha₂, hflushes⟩ := deployment_historical hc hstart h.run_toHistorical
  refine ⟨a₁, ha₁, ?_⟩
  have hall : (analytics config S.parser S.hash S.startMs).run (.start config S.hash S.startMs)
      (S.historicalOf h.start h.toHistorical) = some a₂ := hflushes
  have hanswered : (sentMessages config S.parser S.hash S.startMs
      (S.historicalOf h.start h.serving)).countP Message.isFlush <
      (flushCalls config S.parser S.hash S.startMs
        (S.historicalOf h.start h.toHistorical)).answered := h.historicalAnswered config hc
  have hflush : S.historicalFlush = [.historical .sendFlush] := by
    simp [Setup.historicalFlush, hc]
  have hrun := h.flushesHistorical
  rw [hflush] at hrun
  obtain ⟨d, hd, -⟩ := Option.bind_eq_some_iff.mp hrun
  have hevents : S.historicalOf h.start h.toHistorical =
      S.historicalOf h.start h.serving ++ .sendFlush :: S.historicalOf d h.flushingHistorical := by
    rw [toHistorical, Setup.historicalOf, System.trace_append _ h.serves, hflush,
      List.singleton_append, System.trace_cons _ hd]
    rfl
  rw [hevents] at hall hanswered
  have haccount : offered (S.historicalOf h.start h.serving) ≤ a₂.emittedLogical + a₁.owed :=
    analytics_flush_account hserves hall hanswered
  have hoffered : offered (S.historicalOf h.start h.serving) =
      h.served.sys.answered (fun cls _ => cls.historical.eligibleCalls) :=
    offered_lookups h.init h.serves
  rw [hoffered] at haccount
  have hperm := emitted_or_lost hc h.init h.run_toHistorical ha₂
  have hemitted : a₂.emittedLogical =
      ((h.historicalFlushed.flusher.accepted.filterMap (·.historical?)).map
        (·.counts.logicalRequestCount)).sum +
      (((S.lostOf h.start h.toHistorical).filterMap (·.historical?)).map
        (·.counts.logicalRequestCount)).sum := by
    rw [Analytics.emittedLogical, (hperm.map _).sum_eq, List.filterMap_append, List.map_append,
      List.sum_append]
  have hgrows := flushTask_grows ((deployment_flusher S).run h.flushesTransactions)
  obtain ⟨more, hmore⟩ := hgrows.accepted.trans h.reporter_delivers.1
  have hsent : ((h.historicalFlushed.flusher.accepted.filterMap (·.historical?)).map
        (·.counts.logicalRequestCount)).sum ≤
      (((h.ended.flusher.sent.filterMap (·.ofChannel)).filterMap (·.historical?)).map
        (·.counts.logicalRequestCount)).sum := by
    rw [← hmore]
    simp
  omega

end Shutdown

/-- When `main` is done with its flushes, what was counted before them has been posted: the calls of
every leg, the submissions but for those that the channel gave back, and the eligible calls of the
answered lookups but for what is still in a `finish` or did not get into the channel; and so has
every event that the channel took. -/
theorem shutdown_delivers (S : Setup) (h : Shutdown S) :
    (∀ key, (((S.legsOf h.start h.toTransactions).filter (·.key = key)).map (·.count)).sum ≤
      ((requestEventsOf (h.ended.flusher.sent.filterMap (·.ofAggregator)) key).map
        (·.count)).sum) ∧
    (∀ provider accepted,
      (S.jobsOf h.start h.toHistorical).countP (·.countedAt provider accepted) ≤
        ((transactionEventsOf (h.ended.flusher.sent.filterMap (·.ofAggregator)) provider).map
          (·.counter (outcomeCounter accepted))).sum +
          h.transactionsFlushed.transactions.refused.countP (·.countedAt provider accepted)) ∧
    (S.config.historicalAnalytics.isSome → ∃ a, h.served.historical = some a ∧
      h.served.sys.answered (fun cls _ => cls.historical.eligibleCalls) ≤
        (((h.ended.flusher.sent.filterMap (·.ofChannel)).filterMap (·.historical?)).map
          (·.counts.logicalRequestCount)).sum +
        (((S.lostOf h.start h.toHistorical).filterMap (·.historical?)).map
          (·.counts.logicalRequestCount)).sum + a.owed) ∧
    h.transactionsFlushed.flusher.accepted <+: h.ended.flusher.sent.filterMap (·.ofChannel) := by
  refine ⟨h.requests_delivered, h.submissions_delivered, ?_, h.reporter_delivers.1⟩
  intro hsome
  obtain ⟨config, hc⟩ := Option.isSome_iff_exists.mp hsome
  exact h.lookups_delivered hc

/-! A process that has answered a broadcast transaction and a lookup. -/

def servedBoth : List DeploymentEvent :=
  secondWins.map .proxy ++
    [.proxy (.arrive getTransaction.body), .proxy (.move 1 .snapshot), .proxy (.move 1 (.route 0)),
      .proxy (.move 1 .dispatch), .proxy (.move 1 (.answer ⟨.ok ⟨.ok, sendTransaction.body⟩, 20⟩)),
      .historical (.acquire 1 7), .historical (.send 1), .historical .reserveFlush]

def lookupsFlushed : List DeploymentEvent :=
  [.historical (.receive 7 7), .historical .process, .historical (.receive 8 8)] ++
    List.replicate 5 (.historical .swap) ++ [.historical .emit, .transactions .reserveFlush]

def submissionsFlushed : List DeploymentEvent :=
  [.transactions .receive, .transactions .record, .transactions .receive]

def reporterFlushed : List DeploymentEvent :=
  [.reporter .notify, .reporter .notified, .reporter (.drain 9 ⟨.same _, .same _⟩),
    .reporter .tryRecv, .reporter .tryRecv, .reporter (.posted true), .reporter .wake]

theorem shutdown_delivers_both :
    ∃ h : Shutdown broadcastingSetup, h.serving = servedBoth ∧
      1 ≤ ((requestEventsOf (h.ended.flusher.sent.filterMap (·.ofAggregator))
        ⟨"sendTransaction", "b", "ok"⟩).map (·.count)).sum ∧
      1 ≤ ((transactionEventsOf (h.ended.flusher.sent.filterMap (·.ofAggregator)) "b").map
        (·.counter (outcomeCounter true))).sum +
          h.transactionsFlushed.transactions.refused.countP (·.countedAt "b" true) := by
  let S := broadcastingSetup
  let run := fun es => (deployment S).run (.start S) es
  let toHistorical := servedBoth ++ .historical .sendFlush :: lookupsFlushed
  let toTransactions := toHistorical ++ .transactions .sendFlush :: submissionsFlushed
  have hends : (run (toTransactions ++ .reporter (.register 0) :: reporterFlushed)).any
      (fun d => decide (0 < d.flusher.completed.length)) = true := by
    decide +kernel
  have hlegs : (((S.legsOf (.start S) toTransactions).filter
      (·.key = ⟨"sendTransaction", "b", "ok"⟩)).map (·.count)).sum = 1 := by
    decide +kernel
  have hjobs : (S.jobsOf (.start S) toHistorical).countP (·.countedAt "b" true) = 1 := by
    decide +kernel
  obtain ⟨d, hd, hcompleted⟩ := (Option.any_eq_true _ _).mp hends
  have hd' : (deployment S).run (.start S)
    (toTransactions ++ .reporter (.register 0) :: reporterFlushed) = some d := hd
  rw [System.run_append] at hd'
  obtain ⟨d₃, h₃, h₄⟩ := Option.bind_eq_some_iff.mp hd'
  have h₃' := h₃
  rw [System.run_append] at h₃'
  obtain ⟨d₂, h₂, h₃'⟩ := Option.bind_eq_some_iff.mp h₃'
  have h₂' := h₂
  rw [System.run_append] at h₂'
  obtain ⟨d₁, h₁, h₂'⟩ := Option.bind_eq_some_iff.mp h₂'
  let h : Shutdown S := {
    start := .start S
    served := d₁
    historicalFlushed := d₂
    transactionsFlushed := d₃
    ended := d
    serving := servedBoth
    flushingHistorical := lookupsFlushed
    flushingTransactions := submissionsFlushed
    flushingReporter := reporterFlushed
    id := 0
    init := Deployment.start_init S
    serves := h₁
    flushesHistorical := h₂'
    historicalAnswered := by
      intro config hc
      obtain rfl := Option.some.inj hc
      decide +kernel
    flushesTransactions := h₃'
    transactionsAnswered := by decide +kernel
    flushesReporter := h₄
    unasked := by decide +kernel
    alone := by decide +kernel
    answered := List.ne_nil_of_length_pos (of_decide_eq_true hcompleted) }
  obtain ⟨hrequests, hsubmissions, -⟩ := shutdown_delivers S h
  exact ⟨h, rfl, hlegs.symm.le.trans (hrequests _), hjobs.symm.le.trans (hsubmissions "b" true)⟩

end RpcPlane
