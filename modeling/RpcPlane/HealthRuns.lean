import RpcPlane.CircuitLaw
import RpcPlane.Potential
import RpcPlane.ProviderView
import RpcPlane.RateCap

/-! The health of a provider in the interleaved proxy is that of a run of its own outcomes:
no other provider and no order of the requests has a part in it. -/

namespace RpcPlane

/-- The state that `record` and `record_throttled` read and write. -/
def Inner.withoutSlots (g : Inner) : Inner := { g with slots := {}, rounds := {} }

/-- The calls of `record` and `record_throttled` on a provider. -/
def Sys.calls (config : Config) (client : String → Bool) (k : String) (s : Sys) (e : Event) :
    List RecordCall :=
  (s.ops config client k e).filterMap EntryOp.call?

def recordCalls (config : Config) (client : String → Bool) (k : String) (s : Sys)
    (es : List Event) : List RecordCall :=
  (proxy config client).trace (Sys.calls config client k) s es

section inner

variable (g : Inner) (now : Instant) (cfg : HealthConfig)

theorem Inner.pushSample_withoutSlots (sample : Sample) (latencyMs : ℚ) (update : Bool)
    (windowSecs : Nat) :
    (g.pushSample now sample latencyMs update windowSecs).withoutSlots =
      g.withoutSlots.pushSample now sample latencyMs update windowSecs := by
  cases sample <;> rfl

theorem applyCircuitTransitions_withoutSlots :
    (applyCircuitTransitions g now cfg).withoutSlots =
      applyCircuitTransitions g.withoutSlots now cfg := by
  have hrate : g.withoutSlots.hardErrorRate = g.hardErrorRate := rfl
  unfold applyCircuitTransitions
  rw [hrate]
  cases hc : g.circuit with
  | closed =>
    by_cases ho : cfg.circuitOpenFailures ≤ g.consecutiveFailures ∨
        cfg.circuitErrorThreshold < g.hardErrorRate
    · simp [Inner.withoutSlots, hc, ho]
    · simp [Inner.withoutSlots, hc, ho]
  | opened =>
    cases ha : g.circuitOpenedAt with
    | none => simp [Inner.withoutSlots, hc, ha]
    | some openedAt =>
      by_cases hcool : fromSecs cfg.circuitCooldownSecs ≤ now - openedAt
      · simp [Inner.withoutSlots, hc, ha, hcool]
      · simp [Inner.withoutSlots, hc, ha, hcool]
  | halfOpen =>
    cases hl : g.window.getLast?.map Prod.snd with
    | none => simp [Inner.withoutSlots, hc, hl]
    | some sample => cases sample <;> simp [Inner.withoutSlots, hc, hl]

theorem Inner.recordCall_withoutSlots (call : RecordCall) :
    (g.recordCall call cfg).withoutSlots = g.withoutSlots.recordCall call cfg := by
  unfold recordCall record recordThrottled pushResult
  cases call.sample with
  | success => simp only [applyCircuitTransitions_withoutSlots, pushSample_withoutSlots]
  | failure => simp only [applyCircuitTransitions_withoutSlots, pushSample_withoutSlots]
  | throttle => simp only [applyCircuitTransitions_withoutSlots, pushSample_withoutSlots]

end inner

/-- Operations at one time are, on the health record, a run of their calls. -/
theorem ProviderEntry.run_recordings (cfg : HealthConfig) {ops : List EntryOp} {now τ : Instant}
    (e : ProviderEntry) (h : ∀ op ∈ ops, op.At now) (hτ : τ ≤ now) :
    ∃ τ' ≤ now, (recordings cfg).run (τ, e.health.inner.withoutSlots) (ops.filterMap EntryOp.call?) =
      some (τ', (e.run cfg ops).health.inner.withoutSlots) := by
  induction ops generalizing e τ with
  | nil => exact ⟨τ, hτ, rfl⟩
  | cons op ops ih =>
    have hrest : ∀ o ∈ ops, o.At now := fun o ho => h o (List.mem_cons_of_mem _ ho)
    cases op with
    | peek t => exact ih (e.peeked t) hrest hτ
    | acquire t => exact ih (e.acquired t) hrest hτ
    | slots slots round => exact ih (e.updateSlotsInRound slots round) hrest hτ
    | call c =>
      have hc : c.time = now := h _ List.mem_cons_self
      obtain ⟨τ', hle, hrun⟩ := ih (e.mapInner (·.recordCall c cfg)) hrest hc.le
      refine ⟨τ', hle, ?_⟩
      have hstep : (recordings cfg).step (τ, e.health.inner.withoutSlots) c =
          some (c.time, (e.health.inner.recordCall c cfg).withoutSlots) := by
        rw [Inner.recordCall_withoutSlots]
        exact if_pos (hτ.trans hc.ge)
      have hcons : (EntryOp.call c :: ops).filterMap EntryOp.call? =
          c :: ops.filterMap EntryOp.call? := rfl
      rw [hcons, System.run, hstep]
      exact hrun

variable {config : Config} {client : String → Bool}

/-- The health of the provider `k` is the state of a run of `recordings`. -/
def Sys.Mirrors (k : String) (s : Sys) (x : Instant × Inner) : Prop :=
  x.1 ≤ s.now ∧ ∃ e, s.monitor.entry k = some e ∧ x.2 = e.health.inner.withoutSlots

theorem Sys.Mirrors.step {k : String} {s t : Sys} {x : Instant × Inner} {e : Event}
    (hm : s.Mirrors k x) (h : s.step config client e = some t) :
    ∃ y, (recordings config.health).run x (s.calls config client k e) = some y ∧ t.Mirrors k y := by
  obtain ⟨τ, g⟩ := x
  obtain ⟨hτ, entry, he, rfl⟩ := hm
  obtain ⟨τ', hle, hrun⟩ := entry.run_recordings config.health
    (s.ops_at config client k e) hτ
  have htakes := Sys.step_takes h k
  rw [Monitor.Takes, he] at htakes
  have hnow : s.now ≤ t.now := by
    rcases Sys.step_now h with ⟨ns, -, rfl⟩ | ⟨hnow, -⟩
    · exact Nat.le_add_right s.now ns
    · exact hnow.ge
  exact ⟨_, hrun, hle.trans hnow, _, htakes, rfl⟩

theorem proxy_mirrors (hv : config.validate = .ok ()) {name : String} {p : ProviderConfig}
    (hp : config.provider name = some p) {s₀ s : Sys} {es : List Event}
    (hinit : (proxy config client).init s₀) (hrun : (proxy config client).run s₀ es = some s) :
    ∃ x, (recordings config.health).run (0, {}) (recordCalls config client name s₀ es) = some x ∧
      s.Mirrors name x :=
  System.run_trace (Sys.calls config client name) (fun _ _ _ _ hm h => hm.step h)
    (⟨Nat.zero_le _, _, proxy_init_entry hv hinit hp, rfl⟩ : s₀.Mirrors name (0, {})) hrun

/-- In every run, the health of a provider is that of `record` and `record_throttled` called
with its own outcomes and probes one after the other, and so the law of the breaker holds of
it, however the requests interleave. -/
theorem proxy_health_of_own_calls (config : Config) (client : String → Bool)
    (hv : config.validate = .ok ()) (name : String) (p : ProviderConfig)
    (hp : config.provider name = some p) (s₀ s : Sys) (es : List Event)
    (hinit : (proxy config client).init s₀) (hrun : (proxy config client).run s₀ es = some s) :
    ∃ e τ, s.monitor.entry name = some e ∧ τ ≤ s.now ∧
      (recordings config.health).run (0, {}) (recordCalls config client name s₀ es) =
        some (τ, e.health.inner.withoutSlots) ∧
      (e.health.inner.circuit = .opened ↔ e.health.inner.circuitOpenedAt.isSome) ∧
      (∀ openedAt, e.health.inner.circuitOpenedAt = some openedAt →
        (openings config.health (recordCalls config client name s₀ es)).getLast? = some openedAt) ∧
      (0 < config.health.circuitOpenFailures → e.health.inner.circuit = .closed →
        e.health.inner.consecutiveFailures < config.health.circuitOpenFailures) := by
  obtain ⟨⟨τ, g⟩, hcalls, hτ, e, he, hg⟩ := proxy_mirrors hv hp hinit hrun
  obtain rfl : g = e.health.inner.withoutSlots := hg
  have hhistory : BreakerHistory config.health _ (τ, e.health.inner.withoutSlots) :=
    System.invariant_history (BreakerHistory.start config.health)
      (fun _ _ _ _ hr hi h => hi.step hr h) hcalls
  have hbelow : RecordInv config.health (τ, e.health.inner.withoutSlots) :=
    System.invariant_run (fun _ _ _ hi h => hi.step h) (RecordInv.start config.health) hcalls
  exact ⟨e, τ, he, hτ, hcalls, hhistory.timed, hhistory.last,
    fun hpos hclosed => hbelow.below hclosed hpos⟩

def oneStrike : Config where
  providers := [{ name := "a", url := "http://a" }]
  health := { circuitOpenFailures := 1 }

/-- A refused connection opens the circuit of a provider that is allowed no failure. -/
theorem proxy_health_of_own_calls_refused :
    let client : String → Bool := fun _ => true
    ∃ s e, (proxy oneStrike client).run (Sys.start oneStrike) loneRequest = some s ∧
      s.monitor.entry "a" = some e ∧ e.health.inner.circuit = .opened ∧
      e.health.inner.circuitOpenedAt.isSome := by
  intro client
  have hopen : ((proxy oneStrike client).run (Sys.start oneStrike) loneRequest).any
      (fun s => (s.monitor.entry "a").any (fun e => decide (e.health.inner.circuit = .opened))) = true := by
    decide +kernel
  obtain ⟨s, hs, he⟩ := (Option.any_eq_true _ _).mp hopen
  obtain ⟨e, he, hc⟩ := (Option.any_eq_true _ _).mp he
  obtain ⟨e', -, he', -, -, htimed, -⟩ := proxy_health_of_own_calls oneStrike client rfl "a" _ rfl
    (Sys.start oneStrike) s loneRequest (Sys.start_init _ _) hs
  obtain rfl : e = e' := Option.some.inj (he.symm.trans he')
  exact ⟨s, e, hs, he, of_decide_eq_true hc, htimed.mp (of_decide_eq_true hc)⟩

end RpcPlane
