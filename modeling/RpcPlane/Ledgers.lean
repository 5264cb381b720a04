import RpcPlane.Deployment

/-! What the proxy does is written down several times: in the counters of `Metrics`, in the
events that the reporter sends, in the windows of the analytics. In every deployment these
accounts agree, with each other and with what the requests did. -/

namespace RpcPlane

variable {S : Setup} {d₀ d d' : Deployment} {e : DeploymentEvent} {es : List DeploymentEvent}

/-! The moves of the proxy, seen from the deployment. -/

def Setup.legs (S : Setup) (d : Deployment) : DeploymentEvent → List RecordedLeg
  | .proxy e => (d.sys.recorded S.config e).toList
  | _ => []

def Setup.finishes (S : Setup) (d : Deployment) : DeploymentEvent → List FinishCall
  | .proxy e => (d.sys.finished S.config e).toList
  | _ => []

/-- The legs that the proxy has recorded in a run, and its calls of `finish_analytics`. -/
def Setup.legsOf (S : Setup) (d : Deployment) (es : List DeploymentEvent) : List RecordedLeg :=
  (recordedLegs S.config S.client d.sys (es.flatMap Setup.sysEvents)).map (·.2)

def Setup.finishesOf (S : Setup) (d : Deployment) (es : List DeploymentEvent) : List FinishCall :=
  RpcPlane.finishes S.config S.client d.sys (es.flatMap Setup.sysEvents)

theorem deployment_sys_trace {β : Type} (f : Sys → Event → List β)
    (hrun : (deployment S).run d₀ es = some d) :
    (proxy S.config S.client).trace f d₀.sys (es.flatMap Setup.sysEvents) =
      (deployment S).trace (fun d e => (Setup.sysEvents e).flatMap (f d.sys)) d₀ es := by
  have htrace := (deployment_sys S).trace f hrun
  rw [System.trace_labels _ hrun] at htrace
  rw [htrace]
  apply System.trace_congr _ hrun
  intro d e d' ht
  cases e with
  | proxy e =>
    have hstep : (proxy S.config S.client).step d.sys e = some d'.sys := by
      have hsys := (deployment_sys S).step d _ d' ht
      simpa [Setup.sysEvents, System.run] using hsys
    simp only [Setup.sysEvents, List.flatMap_singleton]
    exact System.trace_singleton f hstep
  | transactions e => rfl
  | historical e => rfl
  | reporter e => rfl

theorem legsOf_trace (hrun : (deployment S).run d₀ es = some d) :
    S.legsOf d₀ es = (deployment S).trace S.legs d₀ es := by
  rw [Setup.legsOf, recordedLegs, deployment_sys_trace _ hrun, System.map_trace]
  apply System.trace_congr _ hrun
  intro d e d' _
  cases e with
  | proxy e => simp [Setup.sysEvents, Setup.legs]
  | transactions e => rfl
  | historical e => rfl
  | reporter e => rfl

theorem finishesOf_trace (hrun : (deployment S).run d₀ es = some d) :
    S.finishesOf d₀ es = (deployment S).trace S.finishes d₀ es := by
  rw [Setup.finishesOf, RpcPlane.finishes, deployment_sys_trace _ hrun]
  apply System.trace_congr _ hrun
  intro d e d' _
  cases e with
  | proxy e => simp [Setup.sysEvents, Setup.finishes]
  | transactions e => rfl
  | historical e => rfl
  | reporter e => rfl

/-! Requests. -/

def TransactionEvent.requestFor (key : RequestKey) : TransactionEvent → Option (ℚ × Nat)
  | .request k latencyMs count => if k = key then some (latencyMs, count) else none
  | _ => none

def RecordedLeg.sample (leg : RecordedLeg) : ℚ × Nat := (leg.latencyMs, leg.count)

theorem transactionEvents_requests (hown : e.own d = true) (key : RequestKey) :
    (S.transactionEvents d e).filterMap (·.requestFor key) =
      ((S.legs d e).filter (·.key = key)).map (·.sample) := by
  cases e with
  | proxy e =>
    simp only [Setup.transactionEvents, Setup.legs, List.filterMap_append]
    have hfinish : ∀ calls : List FinishCall,
        (calls.map (·.submission)).filterMap (·.requestFor key) = [] := by
      intro calls
      simp [FinishCall.submission, TransactionEvent.requestFor]
    rw [hfinish, List.append_nil]
    cases d.sys.recorded S.config e with
    | none => rfl
    | some leg =>
      by_cases hk : leg.key = key
      · simp [RecordedLeg.request, TransactionEvent.requestFor, hk, RecordedLeg.sample]
      · simp [RecordedLeg.request, TransactionEvent.requestFor, hk]
  | transactions te =>
    cases te with
    | request key latencyMs count => cases hown
    | _ => rfl
  | historical e => rfl
  | reporter e => cases e <;> rfl

section requests

variable (decodeRequest : Body → Except DecodeError TransactionInfo)

theorem calls_requests (s : TransactionAnalytics) (te : TransactionEvent) (key : RequestKey) :
    (s.calls decodeRequest te).filterMap (·.requestFor key) = (te.requestFor key).toList := by
  cases te with
  | finish cls body acknowledging => cases cls <;> rfl
  | drop i => simp [TransactionAnalytics.calls, TransactionEvent.requestFor, AggCall.requestFor]
  | record => simp [TransactionAnalytics.calls, TransactionEvent.requestFor, AggCall.requestFor]
  | request k latencyMs count =>
    by_cases hk : k = key <;>
      simp [TransactionAnalytics.calls, TransactionEvent.requestFor, AggCall.requestFor, hk]
  | reserveFlush | sendFlush | receive | drain => rfl

theorem metered_requests (s : TransactionAnalytics) (m : Metrics) (te : TransactionEvent)
    (key : RequestKey) : (s.metered decodeRequest m te).requests key =
      m.requests key + ((te.requestFor key).toList.map (·.2)).sum := by
  cases te with
  | finish cls body acknowledging => cases cls <;> rfl
  | drop i =>
    simp only [TransactionAnalytics.metered]
    split <;> rfl
  | record =>
    simp only [TransactionAnalytics.metered]
    split <;> rfl
  | request k latencyMs count =>
    by_cases hk : k = key
    · simp [TransactionAnalytics.metered, Metrics.recordRequest, TransactionEvent.requestFor, hk]
    · simp [TransactionAnalytics.metered, Metrics.recordRequest, TransactionEvent.requestFor, hk,
        Function.update_of_ne (Ne.symm hk)]
  | reserveFlush | sendFlush | receive | drain => rfl

theorem metered_duration (s : TransactionAnalytics) (m : Metrics) (te : TransactionEvent)
    {key : RequestKey} (hok : key.status = "ok") :
    (s.metered decodeRequest m te).duration (key.method, key.provider) =
      m.duration (key.method, key.provider) ++ (te.requestFor key).toList.map (·.1 / 1000) := by
  have hnone : m.duration (key.method, key.provider) =
      m.duration (key.method, key.provider) ++ [] := (List.append_nil _).symm
  cases te with
  | finish cls body acknowledging => cases cls <;> exact hnone
  | drop i =>
    simp only [TransactionAnalytics.metered]
    split <;> exact hnone
  | record =>
    simp only [TransactionAnalytics.metered]
    split <;> exact hnone
  | request k latencyMs count =>
    by_cases hk : k = key
    · subst hk
      simp [TransactionAnalytics.metered, Metrics.recordRequest, TransactionEvent.requestFor, hok]
    · by_cases hstatus : k.status = "ok"
      · have hne : (k.method, k.provider) ≠ (key.method, key.provider) := by
          intro hsame
          obtain ⟨hmethod, hprovider⟩ := Prod.mk.inj hsame
          apply hk
          cases k
          cases key
          simp_all
        simp [TransactionAnalytics.metered, Metrics.recordRequest, TransactionEvent.requestFor, hk,
          hstatus, Function.update_of_ne (Ne.symm hne)]
      · simp [TransactionAnalytics.metered, Metrics.recordRequest, TransactionEvent.requestFor, hk,
          hstatus]
  | reserveFlush | sendFlush | receive | drain => exact hnone

end requests

theorem step_requests (h : S.Step d e d') (key : RequestKey) :
    d'.metrics.requests key =
      d.metrics.requests key + (((S.legs d e).filter (·.key = key)).map (·.count)).sum := by
  have hfold : ∀ (tes : List TransactionEvent) (m : Metrics),
      (tes.foldl (d.transactions.metered S.decodeRequest) m).requests key =
        m.requests key + ((tes.filterMap (·.requestFor key)).map (·.2)).sum := by
    intro tes
    induction tes with
    | nil => exact fun m => rfl
    | cons te tes ih =>
      intro m
      rw [List.foldl_cons, ih, metered_requests S.decodeRequest]
      cases hte : te.requestFor key <;> simp [hte, Nat.add_assoc]
  rw [h.metrics, Setup.metered, hfold, transactionEvents_requests h.own, List.map_map]
  rfl

theorem step_duration (h : S.Step d e d') {key : RequestKey} (hok : key.status = "ok") :
    d'.metrics.duration (key.method, key.provider) =
      d.metrics.duration (key.method, key.provider) ++
        ((S.legs d e).filter (·.key = key)).map (·.latencyMs / 1000) := by
  have hfold : ∀ (tes : List TransactionEvent) (m : Metrics),
      (tes.foldl (d.transactions.metered S.decodeRequest) m).duration (key.method, key.provider) =
        m.duration (key.method, key.provider) ++
          (tes.filterMap (·.requestFor key)).map (·.1 / 1000) := by
    intro tes
    induction tes with
    | nil => exact fun m => (List.append_nil _).symm
    | cons te tes ih =>
      intro m
      rw [List.foldl_cons, ih, metered_duration S.decodeRequest _ _ _ hok]
      cases hte : te.requestFor key <;> simp [hte]
  rw [h.metrics, Setup.metered, hfold, transactionEvents_requests h.own, List.map_map]
  rfl

/-- The calls on the aggregator that a run makes. -/
def Setup.aggCalls (S : Setup) (d : Deployment) (es : List DeploymentEvent) : List AggCall :=
  (deployment S).trace (fun d e => (S.flusherEvents d e).flatMap FlusherEvent.calls) d es

theorem deployment_aggregation (hrun : (deployment S).run d₀ es = some d) :
    (aggregation S.startMs).run d₀.flusher.aggregation (S.aggCalls d₀ es) =
      some d.flusher.aggregation := by
  have hproject := ((deployment_flusher S).comp (flushTask_projects S.reporting S.startMs)).run hrun
  have hcalls : (deployment S).trace (fun d e => (flushTask S.reporting S.startMs).trace
      (fun _ e => e.calls) d.flusher (S.flusherEvents d e)) d₀ es = S.aggCalls d₀ es := by
    apply System.trace_congr _ hrun
    intro d e d' ht
    exact System.trace_labels _ (Setup.step_iff.mp ht).flusher
  rwa [hcalls] at hproject

theorem deployment_agg_holds (hinit : (deployment S).init d₀)
    (hrun : (deployment S).run d₀ es = some d) :
    ∃ gave, AggHolds S.startMs (S.aggCalls d₀ es) d.flusher.aggregation gave := by
  have hagg := deployment_aggregation hrun
  have hstart : d₀.flusher.aggregation = ⟨{ windowStartMs := S.startMs }, []⟩ := by
    rw [hinit.2.2.2.2]
    rfl
  rw [hstart] at hagg
  exact aggregation_holds rfl hagg

theorem requestsOf_aggCalls (hrun : (deployment S).run d₀ es = some d) (key : RequestKey) :
    requestsOf (S.aggCalls d₀ es) key =
      ((S.legsOf d₀ es).filter (·.key = key)).map (·.sample) := by
  rw [legsOf_trace hrun, System.filter_trace, System.map_trace, requestsOf, Setup.aggCalls,
    System.filterMap_trace]
  apply System.trace_congr _ hrun
  intro d e d' ht
  have hstep := Setup.step_iff.mp ht
  rw [← transactionEvents_requests hstep.own key, ← hstep.calls, List.filterMap_flatMap,
    List.filterMap_eq_flatMap_toList]
  exact List.flatMap_congr (fun te _ => calls_requests S.decodeRequest d.transactions te key)

/-- What the reporter has given to `send_batch`, or holds in its batch, of its own aggregates. -/
def Flusher.aggregates (s : Flusher) : List TelemetryEvent := s.batched.filterMap (·.ofAggregator)

theorem requests_metered (hinit : (deployment S).init d₀)
    (hrun : (deployment S).run d₀ es = some d) (key : RequestKey) :
    d.metrics.requests key = (((S.legsOf d₀ es).filter (·.key = key)).map (·.count)).sum := by
  have htotal := System.total_add_eq (I := fun _ : Deployment => True)
    (f := fun d e => (((S.legs d e).filter (·.key = key)).map (·.count)).sum) (g := fun _ _ => 0)
    (φ := fun d => d.metrics.requests key) (fun _ _ _ _ _ => trivial)
    (fun d e d' _ ht => by rw [step_requests (Setup.step_iff.mp ht) key]; omega) trivial hrun
  have hzero : d₀.metrics.requests key = 0 := by rw [hinit.2.1]
  rw [System.total_zero] at htotal
  rw [legsOf_trace hrun, System.filter_trace, System.sum_trace]
  omega

theorem duration_metered (hinit : (deployment S).init d₀)
    (hrun : (deployment S).run d₀ es = some d) {key : RequestKey} (hok : key.status = "ok") :
    d.metrics.duration (key.method, key.provider) =
      ((S.legsOf d₀ es).filter (·.key = key)).map (·.latencyMs / 1000) := by
  have hextends := System.trace_of_extends
    (φ := fun d : Deployment => d.metrics.duration (key.method, key.provider))
    (fun d e d' ht => step_duration (Setup.step_iff.mp ht) hok) hrun
  have hnil : d₀.metrics.duration (key.method, key.provider) = [] := by rw [hinit.2.1]
  rw [hnil, List.nil_append] at hextends
  rw [hextends, legsOf_trace hrun, System.filter_trace, System.map_trace]

/-- In every run of a deployment the counter of a key is the calls of the legs recorded under it,
and the histogram holds their latencies. The same legs, in their order, are cut into windows, each
summed up by one event that the reporter sends or holds, and what its aggregator has yet to give
out, of which nothing is left when its task has ended. -/
theorem deployment_request_ledgers (S : Setup) (d₀ d : Deployment) (es : List DeploymentEvent)
    (hinit : (deployment S).init d₀) (hrun : (deployment S).run d₀ es = some d) (key : RequestKey) :
    let legs := (S.legsOf d₀ es).filter (·.key = key)
    let events := requestEventsOf d.flusher.aggregates key
    let pending := d.flusher.aggregation.state.pendingRequests key
    d.metrics.requests key = (legs.map (·.count)).sum ∧
    (key.status = "ok" →
      d.metrics.duration (key.method, key.provider) = legs.map (·.latencyMs / 1000)) ∧
    d.metrics.requests key = (events.map (·.count)).sum + pending.count ∧
    (∃ (windows : List (List (ℚ × Nat))) (rest : List (ℚ × Nat)),
      legs.map (·.sample) = windows.flatten ++ rest ∧ (∀ w ∈ windows, w ≠ []) ∧
      List.Forall₂ (fun e w => e = (Bucket.summary w).event key e.windowStartMs e.windowEndMs)
        events windows ∧ pending = Bucket.summary rest) ∧
    (d.flusher.phase = .ended → d.flusher.batch = [] ∧ pending = {}) := by
  intro legs events pending
  have hkeeps := flushTask_keeps ((deployment_flusher S).reachable ⟨d₀, es, hinit, hrun⟩)
  obtain ⟨gave, hholds⟩ := deployment_agg_holds hinit hrun
  obtain ⟨windows, rest, hitems, hne, hevents, hpending⟩ := hholds.requestWindows key
  rw [requestsOf_aggCalls hrun key] at hitems
  rw [← hkeeps.aggregator] at hevents
  have hcount := requests_metered hinit hrun key
  have hsum : (legs.map (·.count)).sum = (events.map (·.count)).sum + pending.count := by
    have hwindows := sum_windows (·.2) (fun e : RequestAggregate => e.count) hitems
      (hevents.imp (fun e w he => by rw [he]; rfl))
    have hrest : pending.count = (rest.map (·.2)).sum := congrArg Bucket.count hpending
    rw [List.map_map] at hwindows
    rw [hrest]
    exact hwindows
  refine ⟨hcount, duration_metered hinit hrun, hcount.trans hsum,
    ⟨windows, rest, hitems, hne, hevents, hpending⟩, ?_⟩
  intro hp
  have hfinal : d.flusher.phase.branch = some .final := by rw [hp]; rfl
  refine ⟨hkeeps.sent (by rw [hp]; decide), ?_⟩
  have hempty := (hkeeps.drained hfinal (by rw [hp]; decide)).1
  simp [pending, AggState.pendingRequests, hempty]

/-- After both legs are recorded the aggregator is drained. -/
def secondWinsDrained : List DeploymentEvent :=
  secondWins.map .proxy ++ [.reporter .tick, .reporter (.drain 9 ⟨.same _, .same _⟩)]

theorem deployment_request_ledgers_second_wins :
    let S := broadcastingSetup
    let key : RequestKey := ⟨"sendTransaction", "b", "ok"⟩
    ∃ d, (deployment S).run (.start S) secondWinsDrained = some d ∧
      1 = ((requestEventsOf d.flusher.aggregates key).map (·.count)).sum +
        (d.flusher.aggregation.state.pendingRequests key).count ∧
      d.metrics.duration ("sendTransaction", "b") =
        ((S.legsOf (.start S) secondWinsDrained).filter (·.key = key)).map (·.latencyMs / 1000) := by
  intro S key
  have hends : ((deployment S).run (.start S) secondWinsDrained).any
      (fun d => d.metrics.requests key == 1) = true := by
    decide +kernel
  obtain ⟨d, hd, hone⟩ := (Option.any_eq_true _ _).mp hends
  obtain ⟨-, hduration, hsum, -⟩ := deployment_request_ledgers S (.start S) d secondWinsDrained
    (Deployment.start_init S) hd key
  exact ⟨d, hd, (beq_iff_eq.mp hone).symm.trans hsum, hduration rfl⟩

end RpcPlane
