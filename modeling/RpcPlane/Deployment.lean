import RpcPlane.FinishCalls
import RpcPlane.FlushLaw
import RpcPlane.HistoricalConservation
import RpcPlane.Projection
import RpcPlane.TransactionAnalytics

/-! The process as a whole: the proxy and what it records in, which is the metrics, the two
analytics and the reporter. A move of the proxy makes its calls on the others in the same step;
each of them goes on at its own pace. -/

namespace RpcPlane

/-- Counters by their labels, and the observations of histograms in order. -/
structure Metrics where
  requests : RequestKey → Nat := fun _ => 0
  duration : String × String → List ℚ := fun _ => []
  txSubmissions : String × Bool → Nat := fun _ => 0
  txDecode : String × String → Nat := fun _ => 0
  txComputeUnitLimit : String → List Nat := fun _ => []
  txComputeUnitPrice : String → List Nat := fun _ => []
  txPriorityFee : String → List Nat := fun _ => []

def Metrics.recordRequest (m : Metrics) (key : RequestKey) (latencyMs : ℚ) (count : Nat) : Metrics :=
  { m with
    requests := Function.update m.requests key (m.requests key + count)
    duration :=
      if key.status = "ok" then
        Function.update m.duration (key.method, key.provider)
          (m.duration (key.method, key.provider) ++ [latencyMs / 1000])
      else m.duration }

def Metrics.recordTransactionSubmission (m : Metrics) (provider : String) (accepted : Bool) :
    Metrics :=
  { m with
    txSubmissions :=
      Function.update m.txSubmissions (provider, accepted) (m.txSubmissions (provider, accepted) + 1) }

def Metrics.recordTransactionDecode (m : Metrics) (provider : String) (result : String)
    (sample : Option TransactionInfo) : Metrics :=
  { m with
    txDecode := Function.update m.txDecode (provider, result) (m.txDecode (provider, result) + 1)
    txComputeUnitLimit := Function.update m.txComputeUnitLimit provider
      (m.txComputeUnitLimit provider ++ sample.toList.map (·.cuLimit))
    txComputeUnitPrice := Function.update m.txComputeUnitPrice provider
      (m.txComputeUnitPrice provider ++ sample.toList.map (·.cuPriceMicroLamports.getD 0))
    txPriorityFee := Function.update m.txPriorityFee provider
      (m.txPriorityFee provider ++ sample.toList.map (·.requestedPriorityFeeLamports.getD 0)) }

/-- What the transaction analytics record of an event in the metrics. -/
def TransactionAnalytics.metered (decodeRequest : Body → Except DecodeError TransactionInfo)
    (s : TransactionAnalytics) (m : Metrics) : TransactionEvent → Metrics
  | .finish .batch _ acknowledging =>
    m.recordTransactionDecode (acknowledged acknowledging) DecodeResult.batchUnsupported.label none
  | .finish .single _ acknowledging =>
    m.recordTransactionSubmission (acknowledged acknowledging) acknowledging.isSome
  | .drop i =>
    match s.refused[i]? with
    | some job => m.recordTransactionDecode job.provider DecodeResult.queueDropped.label none
    | none => m
  | .record =>
    match s.worker with
    | some job =>
      m.recordTransactionDecode job.provider (decodeLabel (decodeRequest job.body)).label
        (if job.accepted then (decodeRequest job.body).toOption else none)
    | none => m
  | .request key latencyMs count => m.recordRequest key latencyMs count
  | _ => m

/-- The calls on the aggregator that an event of the transaction analytics makes. -/
def TransactionAnalytics.calls (decodeRequest : Body → Except DecodeError TransactionInfo)
    (s : TransactionAnalytics) : TransactionEvent → List AggCall
  | .finish .batch _ acknowledging =>
    [.transaction (acknowledged acknowledging) (.decode DecodeResult.batchUnsupported.label none)]
  | .drop i => s.refused[i]?.toList.map (fun job => .transaction job.provider job.droppedRecord)
  | .record =>
    s.worker.toList.map (fun job =>
      .transaction job.provider (job.recorded (decodeRequest job.body)))
  | .request key latencyMs count => [.record key latencyMs count]
  | .drain now order => [.drain now order]
  | _ => []

/-- The aggregates that an event makes the worker emit. -/
def Analytics.emits (config : HistoricalAnalyticsConfig) (s : Analytics) :
    AnalyticsEvent → List HistoricalAggregate
  | .emit =>
    match s.worker with
    | .flushing [] taken endMs => (s.core.flush taken endMs config.stateCapacity).2
    | _ => []
  | _ => []

/-- The calls on the aggregator that an event of the reporter makes. -/
def FlusherEvent.calls : FlusherEvent → List AggCall
  | .record key latencyMs count => [.record key latencyMs count]
  | .recordTransaction provider call => [.transaction provider call]
  | .drain now order => [.drain now order]
  | _ => []

/-- How the reporter takes a call on its aggregator; its drains are its own. -/
def AggCall.reported : AggCall → List FlusherEvent
  | .record key latencyMs count => [.record key latencyMs count]
  | .transaction provider call => [.recordTransaction provider call]
  | .drain _ _ => []

/-- The events of the analytics that no move of the proxy makes. -/
def TransactionEvent.own : TransactionEvent → Bool
  | .finish _ _ _ => false
  | .request _ _ _ => false
  | .drain _ _ => false
  | _ => true

def AnalyticsEvent.own : AnalyticsEvent → Bool
  | .finish _ _ => false
  | _ => true

/-- The events of the reporter besides those the analytics and the proxy make. -/
def FlusherEvent.own : FlusherEvent → Bool
  | .record _ _ _ => false
  | .recordTransaction _ _ => false
  | .emit (.historicalGetTransactionAggregate _) => false
  | _ => true

structure Setup where
  config : Config
  client : String → Bool
  reporting : ReportingConfig
  decodeRequest : Body → Except DecodeError TransactionInfo
  parser : ValueParser
  hash : Json → Fingerprint
  startMs : Nat

/-- The handles of `ProxyState`, and the task behind its reporter. -/
structure Deployment where
  sys : Sys
  metrics : Metrics := {}
  transactions : TransactionAnalytics
  historical : Option Analytics
  flusher : Flusher

inductive DeploymentEvent where
  | proxy (e : Event)
  | transactions (e : TransactionEvent)
  | historical (e : AnalyticsEvent)
  | reporter (e : FlusherEvent)

def DeploymentEvent.own (d : Deployment) : DeploymentEvent → Bool
  | .proxy _ => true
  | .transactions e => e.own
  | .historical e => e.own && d.historical.isSome
  | .reporter e => e.own

def RecordedLeg.key (leg : RecordedLeg) : RequestKey := ⟨leg.method, leg.provider, leg.outcome.label⟩

/-- `OutcomeRecorder::record` beside the health of the provider, then `finish_analytics`. -/
def RecordedLeg.request (leg : RecordedLeg) : TransactionEvent :=
  .request leg.key leg.latencyMs leg.count

def FinishCall.submission (call : FinishCall) : TransactionEvent :=
  .finish call.transaction call.request call.acknowledging

def FinishCall.lookup (call : FinishCall) : HistoricalCall :=
  ⟨call.historical, call.request, call.response, call.status, call.tips⟩

variable (S : Setup)

def Setup.sysEvents : DeploymentEvent → List Event
  | .proxy e => [e]
  | _ => []

def Setup.transactionEvents (d : Deployment) : DeploymentEvent → List TransactionEvent
  | .proxy e =>
    (d.sys.recorded S.config e).toList.map (·.request) ++
      (d.sys.finished S.config e).toList.map (·.submission)
  | .transactions e => [e]
  | .historical _ => []
  | .reporter (.drain now order) => [.drain now order]
  | .reporter _ => []

def Setup.historicalEvents (d : Deployment) : DeploymentEvent → List AnalyticsEvent
  | .proxy e =>
    (d.sys.finished S.config e).toList.map
      (fun call => .finish call.lookup S.config.routing.fullHistoryMethods)
  | .historical e => [e]
  | _ => []

def Setup.aggregates (d : Deployment) (e : AnalyticsEvent) : List HistoricalAggregate :=
  match S.config.historicalAnalytics, d.historical with
  | some config, some analytics => analytics.emits config e
  | _, _ => []

def Setup.flusherEvents (d : Deployment) : DeploymentEvent → List FlusherEvent
  | .reporter e => [e]
  | .historical e =>
    (S.aggregates d e).map (fun a => .emit (.historicalGetTransactionAggregate a))
  | e =>
    (S.transactionEvents d e).flatMap (fun te =>
      (d.transactions.calls S.decodeRequest te).flatMap AggCall.reported)

def Setup.metered (d : Deployment) (e : DeploymentEvent) : Metrics :=
  (S.transactionEvents d e).foldl (d.transactions.metered S.decodeRequest) d.metrics

/-- The historical analytics take events only when they are configured. -/
def Setup.runHistorical (historical : Option Analytics) (es : List AnalyticsEvent) :
    Option (Option Analytics) :=
  match S.config.historicalAnalytics, historical with
  | some config, some analytics =>
    ((RpcPlane.analytics config S.parser S.hash S.startMs).run analytics es).map some
  | _, _ => some historical

def Setup.step (d : Deployment) (e : DeploymentEvent) : Option Deployment :=
  if e.own d then do
    let sys ← (RpcPlane.proxy S.config S.client).run d.sys (sysEvents e)
    let transactions ← (transactionAnalytics S.decodeRequest S.startMs).run d.transactions
      (S.transactionEvents d e)
    let historical ← S.runHistorical d.historical (S.historicalEvents d e)
    let flusher ← (flushTask S.reporting S.startMs).run d.flusher (S.flusherEvents d e)
    some ⟨sys, S.metered d e, transactions, historical, flusher⟩
  else none

def deployment : System Deployment DeploymentEvent where
  init d := (proxy S.config S.client).init d.sys ∧ d.metrics = {} ∧
    d.transactions = { aggregation := ⟨{ windowStartMs := S.startMs }, []⟩ } ∧
    d.historical = S.config.historicalAnalytics.map (Analytics.start · S.hash S.startMs) ∧
    d.flusher = .start S.startMs
  step := S.step

def Deployment.start (S : Setup) : Deployment where
  sys := .start S.config
  transactions := { aggregation := ⟨{ windowStartMs := S.startMs }, []⟩ }
  historical := S.config.historicalAnalytics.map (Analytics.start · S.hash S.startMs)
  flusher := .start S.startMs

theorem Deployment.start_init (S : Setup) : (deployment S).init (.start S) :=
  ⟨Sys.start_init _ _, rfl, rfl, rfl, rfl⟩

/-! The components of a deployment go through runs of their own. -/

theorem flushTask_projects (config : ReportingConfig) (startMs : Nat) :
    (flushTask config startMs).Projects (aggregation startMs) (·.aggregation)
      (fun _ e => e.calls) where
  init s hs := by
    obtain rfl : s = .start startMs := hs
    rfl
  step s e t h := by
    cases Flusher.step_move h <;> rfl

theorem transactionAnalytics_projects
    (decodeRequest : Body → Except DecodeError TransactionInfo) (startMs : Nat) :
    (transactionAnalytics decodeRequest startMs).Projects (aggregation startMs) (·.aggregation)
      (TransactionAnalytics.calls decodeRequest) where
  init s hs := by
    obtain rfl : s = { aggregation := ⟨{ windowStartMs := startMs }, []⟩ } := hs
    rfl
  step s e t h := by
    have ht : s.step decodeRequest e = some t := h
    cases e with
    | finish cls body acknowledging =>
      obtain rfl := Option.some.inj ht
      cases cls with
      | none => rfl
      | batch => rfl
      | single =>
        simp only [TransactionAnalytics.finish]
        split <;> rfl
    | drop i =>
      simp only [TransactionAnalytics.step] at ht
      split at ht
      · rename_i job hi
        obtain rfl := Option.some.inj ht
        simp only [TransactionAnalytics.calls, hi]
        rfl
      · cases ht
    | reserveFlush =>
      obtain ⟨-, hu⟩ := eq_of_guard ht
      obtain rfl := Option.some.inj hu
      rfl
    | sendFlush =>
      obtain ⟨-, hu⟩ := eq_of_guard ht
      obtain rfl := Option.some.inj hu
      rfl
    | receive =>
      simp only [TransactionAnalytics.step] at ht
      split at ht
      · obtain rfl := Option.some.inj ht
        rfl
      · obtain rfl := Option.some.inj ht
        rfl
      · cases ht
    | record =>
      simp only [TransactionAnalytics.step] at ht
      split at ht
      · rename_i job hw
        obtain rfl := Option.some.inj ht
        simp only [TransactionAnalytics.calls, hw]
        rfl
      · cases ht
    | request key latencyMs count =>
      obtain rfl := Option.some.inj ht
      rfl
    | drain now order =>
      obtain rfl := Option.some.inj ht
      rfl

variable {S : Setup} {d d' : Deployment} {e : DeploymentEvent}

/-- A step of the whole, taken apart. -/
structure Setup.Step (S : Setup) (d : Deployment) (e : DeploymentEvent) (d' : Deployment) :
    Prop where
  own : e.own d = true
  sys : (proxy S.config S.client).run d.sys (Setup.sysEvents e) = some d'.sys
  transactions : (transactionAnalytics S.decodeRequest S.startMs).run d.transactions
    (S.transactionEvents d e) = some d'.transactions
  historical : S.runHistorical d.historical (S.historicalEvents d e) = some d'.historical
  flusher : (flushTask S.reporting S.startMs).run d.flusher (S.flusherEvents d e) = some d'.flusher
  metrics : d'.metrics = S.metered d e

theorem Setup.step_iff : S.step d e = some d' ↔ S.Step d e d' := by
  constructor
  · intro h
    obtain ⟨hown, h⟩ := eq_of_guard h
    obtain ⟨sys, hsys, h⟩ := Option.bind_eq_some_iff.mp h
    obtain ⟨transactions, htransactions, h⟩ := Option.bind_eq_some_iff.mp h
    obtain ⟨historical, hhistorical, h⟩ := Option.bind_eq_some_iff.mp h
    obtain ⟨flusher, hflusher, h⟩ := Option.bind_eq_some_iff.mp h
    obtain rfl := Option.some.inj h
    exact ⟨hown, hsys, htransactions, hhistorical, hflusher, rfl⟩
  · intro h
    rw [Setup.step, if_pos h.own, h.sys]
    simp only [Option.bind_eq_bind, Option.bind_some, h.transactions, h.historical, h.flusher,
      ← h.metrics]

theorem deployment_sys (S : Setup) : (deployment S).Projects (proxy S.config S.client) (·.sys)
    (fun _ => Setup.sysEvents) where
  init _ h := h.1
  step _ _ _ h := (Setup.step_iff.mp h).sys

theorem deployment_transactions (S : Setup) :
    (deployment S).Projects (transactionAnalytics S.decodeRequest S.startMs) (·.transactions)
      S.transactionEvents where
  init _ h := h.2.2.1
  step _ _ _ h := (Setup.step_iff.mp h).transactions

theorem deployment_flusher (S : Setup) :
    (deployment S).Projects (flushTask S.reporting S.startMs) (·.flusher) S.flusherEvents where
  init _ h := h.2.2.2.2
  step _ _ _ h := (Setup.step_iff.mp h).flusher

theorem deployment_historical {analyticsConfig : HistoricalAnalyticsConfig}
    (hc : S.config.historicalAnalytics = some analyticsConfig) {es : List DeploymentEvent}
    {a : Analytics} (ha : d.historical = some a) (h : (deployment S).run d es = some d') :
    ∃ a', d'.historical = some a' ∧
      (analytics analyticsConfig S.parser S.hash S.startMs).run a
        ((deployment S).trace S.historicalEvents d es) = some a' := by
  have hstep : ∀ (d : Deployment) e d' a, d.historical = some a → (deployment S).step d e = some d' →
      ∃ a', (analytics analyticsConfig S.parser S.hash S.startMs).run a (S.historicalEvents d e) =
        some a' ∧ d'.historical = some a' := by
    intro d e d' a ha ht
    have hh := (Setup.step_iff.mp ht).historical
    simp only [Setup.runHistorical, hc, ha] at hh
    obtain ⟨a', hrun, ha'⟩ := Option.map_eq_some_iff.mp hh
    exact ⟨a', hrun, ha'.symm⟩
  obtain ⟨a', hrun, ha'⟩ := System.run_trace S.historicalEvents hstep ha h
  exact ⟨a', ha', hrun⟩

theorem reported_calls {cs : List AggCall} (h : ∀ c ∈ cs, c.isDrain = false) :
    (cs.flatMap AggCall.reported).flatMap FlusherEvent.calls = cs := by
  induction cs with
  | nil => rfl
  | cons c cs ih =>
    have hrest := ih (fun c hc => h c (List.mem_cons_of_mem _ hc))
    rw [List.flatMap_cons, List.flatMap_append, hrest]
    cases c with
    | record key latencyMs count => rfl
    | transaction provider call => rfl
    | drain now order =>
      have hdrain := h _ List.mem_cons_self
      cases hdrain

section calls

variable {decodeRequest : Body → Except DecodeError TransactionInfo} {s t : TransactionAnalytics}
  {te : TransactionEvent}

/-- What others make the analytics do is the same in all their states. -/
theorem TransactionAnalytics.calls_of_not_own
    (decodeRequest : Body → Except DecodeError TransactionInfo) (h : te.own = false)
    (s t : TransactionAnalytics) : s.calls decodeRequest te = t.calls decodeRequest te := by
  cases te with
  | finish cls body acknowledging => cases cls <;> rfl
  | request key latencyMs count => rfl
  | drain now order => rfl
  | drop i => cases h
  | reserveFlush => cases h
  | sendFlush => cases h
  | receive => cases h
  | record => cases h

theorem TransactionAnalytics.trace_calls {startMs : Nat} {tes : List TransactionEvent}
    (h : ∀ te ∈ tes, te.own = false)
    (hrun : (transactionAnalytics decodeRequest startMs).run s tes = some t)
    (s₀ : TransactionAnalytics) :
    (transactionAnalytics decodeRequest startMs).trace (calls decodeRequest) s tes =
      tes.flatMap (s₀.calls decodeRequest) := by
  induction tes generalizing s with
  | nil => rfl
  | cons te tes ih =>
    obtain ⟨u, hu, hr⟩ := Option.bind_eq_some_iff.mp hrun
    have hfirst := calls_of_not_own decodeRequest (h te List.mem_cons_self) s s₀
    rw [System.trace_cons _ hu, hfirst, ih (fun te hte => h te (List.mem_cons_of_mem _ hte)) hr,
      List.flatMap_cons]

theorem TransactionAnalytics.calls_not_drain (h : ∀ now order, te ≠ .drain now order) :
    ∀ c ∈ s.calls decodeRequest te, c.isDrain = false := by
  intro c hc
  cases te with
  | drain now order => exact absurd rfl (h now order)
  | finish cls body acknowledging =>
    cases cls with
    | none => cases hc
    | batch =>
      obtain rfl := List.mem_singleton.mp hc
      rfl
    | single => cases hc
  | drop i =>
    obtain ⟨job, -, rfl⟩ := List.mem_map.mp hc
    rfl
  | record =>
    obtain ⟨job, -, rfl⟩ := List.mem_map.mp hc
    rfl
  | request key latencyMs count =>
    obtain rfl := List.mem_singleton.mp hc
    rfl
  | reserveFlush => cases hc
  | sendFlush => cases hc
  | receive => cases hc

end calls

theorem Setup.transactionEvents_proxy {e : Event} :
    ∀ te ∈ S.transactionEvents d (.proxy e),
      te.own = false ∧ ∀ now order, te ≠ .drain now order := by
  intro te hte
  rcases List.mem_append.mp hte with hte | hte
  · obtain ⟨leg, -, rfl⟩ := List.mem_map.mp hte
    exact ⟨rfl, by simp [RecordedLeg.request]⟩
  · obtain ⟨call, -, rfl⟩ := List.mem_map.mp hte
    exact ⟨rfl, by simp [FinishCall.submission]⟩

/-- In one step the analytics make all their calls from the state they are in. -/
theorem Setup.Step.calls_trace (h : S.Step d e d') :
    (transactionAnalytics S.decodeRequest S.startMs).trace
        (TransactionAnalytics.calls S.decodeRequest) d.transactions (S.transactionEvents d e) =
      (S.transactionEvents d e).flatMap (d.transactions.calls S.decodeRequest) := by
  have hone : ∀ te, S.transactionEvents d e = [te] →
      (transactionAnalytics S.decodeRequest S.startMs).trace
          (TransactionAnalytics.calls S.decodeRequest) d.transactions [te] =
        d.transactions.calls S.decodeRequest te := by
    intro te hte
    have hrun := h.transactions
    rw [hte] at hrun
    obtain ⟨t, ht, -⟩ := Option.bind_eq_some_iff.mp hrun
    exact System.trace_singleton _ ht
  cases e with
  | proxy e =>
    exact TransactionAnalytics.trace_calls (fun te hte => (transactionEvents_proxy te hte).1)
      h.transactions d.transactions
  | transactions te => simpa [Setup.transactionEvents] using hone te rfl
  | historical e => rfl
  | reporter e =>
    cases e with
    | drain now order => simpa [Setup.transactionEvents] using hone (.drain now order) rfl
    | _ => rfl

/-- The analytics and the reporter make the same calls on the aggregator that they share. -/
theorem Setup.Step.calls (h : S.Step d e d') :
    (S.transactionEvents d e).flatMap (d.transactions.calls S.decodeRequest) =
      (S.flusherEvents d e).flatMap FlusherEvent.calls := by
  have hreported : ∀ tes : List TransactionEvent, (∀ te ∈ tes, ∀ now order, te ≠ .drain now order) →
      (tes.flatMap (fun te =>
        (d.transactions.calls S.decodeRequest te).flatMap AggCall.reported)).flatMap
          FlusherEvent.calls = tes.flatMap (d.transactions.calls S.decodeRequest) := by
    intro tes htes
    rw [← List.flatMap_assoc]
    apply reported_calls
    intro c hc
    obtain ⟨te, hte, hc⟩ := List.mem_flatMap.mp hc
    exact TransactionAnalytics.calls_not_drain (htes te hte) c hc
  cases e with
  | proxy e => exact (hreported _ (fun te hte => (transactionEvents_proxy te hte).2)).symm
  | transactions te =>
    have hown : te.own = true := h.own
    refine (hreported [te] ?_).symm
    rintro te' hte' now order rfl
    obtain rfl := List.mem_singleton.mp hte'
    cases hown
  | historical e =>
    simp [Setup.transactionEvents, Setup.flusherEvents, List.flatMap_map, FlusherEvent.calls]
  | reporter e =>
    have hown : e.own = true := h.own
    cases e with
    | record key latencyMs count => cases hown
    | recordTransaction provider call => cases hown
    | drain now order => rfl
    | emit | notify | register | close | receive | disconnected | tick | notified | tryRecv | posted
      | wake => rfl

/-- The aggregator of the analytics is the one that the reporter drains. -/
theorem deployment_shared (h : (deployment S).Reachable d) :
    d.transactions.aggregation = d.flusher.aggregation := by
  apply System.invariant_reachable
    (I := fun d : Deployment => d.transactions.aggregation = d.flusher.aggregation) _ _ h
  · rintro d ⟨-, -, ht, -, hf⟩
    rw [ht, hf]
    rfl
  · intro d e d' hd ht
    have hstep := Setup.step_iff.mp ht
    have hleft := (transactionAnalytics_projects S.decodeRequest S.startMs).run hstep.transactions
    have hright := (flushTask_projects S.reporting S.startMs).run hstep.flusher
    rw [hstep.calls_trace, hstep.calls, hd] at hleft
    rw [System.trace_labels _ hstep.flusher] at hright
    exact Option.some.inj (hleft.symm.trans hright)

/-! Telemetry never holds up the proxy. -/

theorem FinishCall.lookup_counted {config : Config} {s : Sys} {e : Event} {call : FinishCall}
    (hs : ∀ r ∈ s.requests, r.Classed config) (h : s.finished config e = some call) :
    call.lookup.Counted config.routing.fullHistoryMethods := by
  cases e with
  | move i move =>
    obtain ⟨r, hr, hf⟩ := Option.bind_eq_some_iff.mp h
    obtain ⟨hcls, hctx⟩ := hs r (List.mem_of_getElem? hr)
    obtain ⟨hrequest, -, hhistorical⟩ := Phase.finished_of hctx hf
    have hlookup : call.lookup.cls = (requestClass config call.lookup.request).historical := by
      show call.historical = (requestClass config call.request).historical
      rw [hhistorical, hrequest, hcls]
    unfold HistoricalCall.Counted
    cases hc : call.lookup.cls with
    | none => trivial
    | single => trivial
    | batch n =>
      rw [hc] at hlookup
      unfold requestClass at hlookup
      cases hclassify : classifyRequest call.lookup.request config.routing.fullHistoryMethods with
      | none =>
        rw [hclassify] at hlookup
        cases hlookup
      | some cls =>
        rw [hclassify] at hlookup
        exact congrArg some hlookup.symm
  | tick | arrive | probe | reference => cases h

theorem Flusher.run_reported (config : ReportingConfig) (startMs : Nat) {s : Flusher}
    (hs : s.closed = false) (cs : List AggCall) :
    ∃ t, (flushTask config startMs).run s (cs.flatMap AggCall.reported) = some t ∧
      t.closed = false := by
  induction cs generalizing s with
  | nil => exact ⟨s, rfl, hs⟩
  | cons c cs ih =>
    rw [List.flatMap_cons]
    have hopen : ∀ call : AggCall, (s.recorded call).closed = false := fun call => hs
    cases c with
    | record key latencyMs count =>
      obtain ⟨t, ht, hc⟩ := ih (hopen (.record key latencyMs count))
      refine ⟨t, ?_, hc⟩
      have hstep : (flushTask config startMs).step s (.record key latencyMs count) =
          some (s.recorded (.record key latencyMs count)) := by
        simp [flushTask, step, hs]
      simpa [AggCall.reported, System.run, hstep] using ht
    | transaction provider call =>
      obtain ⟨t, ht, hc⟩ := ih (hopen (.transaction provider call))
      refine ⟨t, ?_, hc⟩
      have hstep : (flushTask config startMs).step s (.recordTransaction provider call) =
          some (s.recorded (.transaction provider call)) := by
        simp [flushTask, step, hs]
      simpa [AggCall.reported, System.run, hstep] using ht
    | drain now order => simpa [AggCall.reported] using ih hs

theorem TransactionAnalytics.run_of_not_own
    (decodeRequest : Body → Except DecodeError TransactionInfo) (startMs : Nat)
    {tes : List TransactionEvent} (h : ∀ te ∈ tes, te.own = false) (s : TransactionAnalytics) :
    ((transactionAnalytics decodeRequest startMs).run s tes).isSome := by
  induction tes generalizing s with
  | nil => rfl
  | cons te tes ih =>
    have hstep : ∃ t, (transactionAnalytics decodeRequest startMs).step s te = some t := by
      have hown := h te List.mem_cons_self
      cases te with
      | finish cls body acknowledging => exact ⟨_, rfl⟩
      | request key latencyMs count => exact ⟨_, rfl⟩
      | drain now order => exact ⟨_, rfl⟩
      | drop i => cases hown
      | reserveFlush => cases hown
      | sendFlush => cases hown
      | receive => cases hown
      | record => cases hown
    obtain ⟨t, ht⟩ := hstep
    rw [System.run, ht]
    exact ih (fun te hte => h te (List.mem_cons_of_mem _ hte)) t

theorem Setup.runHistorical_isSome {s : Sys} {e : Event} (historical : Option Analytics)
    (hs : ∀ r ∈ s.requests, r.Classed S.config) :
    (S.runHistorical historical ((s.finished S.config e).toList.map
      (fun call => .finish call.lookup S.config.routing.fullHistoryMethods))).isSome := by
  unfold runHistorical
  split
  · cases hf : s.finished S.config e with
    | none => rfl
    | some call =>
      have hcounted := FinishCall.lookup_counted hs hf
      simp [System.run, analytics, Analytics.step, hcounted]
  · rfl

theorem Setup.step_proxy {e : Event} {sys : Sys} (hs : ∀ r ∈ d.sys.requests, r.Classed S.config)
    (ho : d.flusher.closed = false) (ht : d.sys.step S.config S.client e = some sys) :
    ∃ d', S.step d (.proxy e) = some d' ∧ d'.sys = sys ∧ d'.flusher.closed = false := by
  have hsys : (proxy S.config S.client).run d.sys (sysEvents (.proxy e)) = some sys := by
    simp [sysEvents, System.run, proxy, ht]
  obtain ⟨transactions, htransactions⟩ := Option.isSome_iff_exists.mp
    (TransactionAnalytics.run_of_not_own S.decodeRequest S.startMs
      (fun te hte => (transactionEvents_proxy te hte).1) d.transactions)
  obtain ⟨historical, hhistorical⟩ := Option.isSome_iff_exists.mp
    (runHistorical_isSome d.historical hs)
  obtain ⟨flusher, hflusher, hopen⟩ := Flusher.run_reported S.reporting S.startMs ho
    ((S.transactionEvents d (.proxy e)).flatMap (d.transactions.calls S.decodeRequest))
  rw [List.flatMap_assoc] at hflusher
  exact ⟨⟨sys, S.metered d (.proxy e), transactions, historical, flusher⟩,
    step_iff.mpr ⟨rfl, hsys, htransactions, hhistorical, hflusher, rfl⟩, rfl, hopen⟩

/-- While the reporter is there, the proxy goes on in the deployment exactly as it would alone,
whatever its metrics, its analytics and its reporter are doing. -/
theorem deployment_never_blocks (S : Setup) (d : Deployment) (hd : (deployment S).Reachable d)
    (ho : d.flusher.closed = false) (es : List Event) :
    ((deployment S).run d (es.map .proxy)).map (·.sys) = (proxy S.config S.client).run d.sys es := by
  induction es generalizing d with
  | nil => rfl
  | cons e es ih =>
    rw [List.map_cons, System.run, System.run]
    have hs := proxy_classed ((deployment_sys S).reachable hd)
    cases ht : (proxy S.config S.client).step d.sys e with
    | none =>
      have hnone : (deployment S).step d (.proxy e) = none := by
        cases hstep : (deployment S).step d (.proxy e) with
        | none => rfl
        | some d' =>
          have hsys := (deployment_sys S).step d _ d' hstep
          simp [Setup.sysEvents, System.run, ht] at hsys
      rw [hnone]
      rfl
    | some sys =>
      obtain ⟨d', hstep, rfl, hopen⟩ := Setup.step_proxy hs ho ht
      have hstep' : (deployment S).step d (.proxy e) = some d' := hstep
      rw [hstep']
      exact ih d' (hd.step hstep') hopen

def broadcastingSetup : Setup where
  config := { broadcasting with historicalAnalytics := some {} }
  client := fun _ => true
  reporting := { endpoint := "http://collector" }
  decodeRequest := fun _ => .error .unparsed
  parser := ⟨Body.json, fun _ _ h => h⟩
  hash := fun _ => (0, 0)
  startMs := 0

theorem deployment_never_blocks_second_wins :
    let S := broadcastingSetup
    ((deployment S).run (.start S) (secondWins.map .proxy)).map (·.sys) =
        (proxy S.config S.client).run (.start S.config) secondWins ∧
      ((proxy S.config S.client).run (.start S.config) secondWins).isSome := by
  intro S
  have hsame := deployment_never_blocks S (.start S) ⟨_, [], Deployment.start_init S, rfl⟩ rfl secondWins
  exact ⟨hsame, by decide +kernel⟩

end RpcPlane
