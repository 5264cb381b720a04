import RpcPlane.AnalyticsLedgers
import RpcPlane.FlushBarrier

/-! What a delivered `flush_and_wait` has brought out: the totals of all that was recorded before
the call, and that a call which is alone is always in time. -/

namespace RpcPlane

/-! Totals that a drain brings out in full. -/

/-- The weight of the calls, and that of the events they end up in. -/
structure Tally (β γ : Type) where
  call : AggCall → Option β
  weight : β → Nat
  event : TelemetryEvent → Option γ
  count : γ → Nat
  drain : ∀ now order, call (.drain now order) = none
  balance : ∀ startMs calls s gave, AggHolds startMs calls s gave → s.state.IsEmpty →
    ((calls.filterMap call).map weight).sum = ((s.events.filterMap event).map count).sum

variable {β γ : Type} (M : Tally β γ)

def Tally.recorded (calls : List AggCall) : Nat := ((calls.filterMap M.call).map M.weight).sum

def Tally.given (events : List TelemetryEvent) : Nat := ((events.filterMap M.event).map M.count).sum

theorem Tally.recorded_append (xs ys : List AggCall) :
    M.recorded (xs ++ ys) = M.recorded xs + M.recorded ys := by
  simp [recorded]

theorem Tally.recorded_mono {xs ys : List AggCall} (h : xs <+: ys) :
    M.recorded xs ≤ M.recorded ys := by
  obtain ⟨zs, rfl⟩ := h
  rw [M.recorded_append]
  exact Nat.le_add_right _ _

theorem Tally.given_mono {xs ys : List TelemetryEvent} (h : xs <+: ys) :
    M.given xs ≤ M.given ys := by
  obtain ⟨zs, rfl⟩ := h
  simp [given]

theorem Tally.recorded_drains {calls : List AggCall} (h : ∀ c ∈ calls, c.isDrain = true) :
    M.recorded calls = 0 := by
  have hnone : calls.filterMap M.call = [] := by
    apply List.filterMap_eq_nil_iff.mpr
    intro c hc
    have hdrain := h c hc
    cases c with
    | drain now order => exact M.drain now order
    | record key latencyMs count => cases hdrain
    | transaction provider call => cases hdrain
  rw [recorded, hnone]
  rfl

theorem AggState.pendingRequests_of_isEmpty {s : AggState} (h : s.IsEmpty) (key : RequestKey) :
    s.pendingRequests key = {} := by
  rw [pendingRequests, h.1]
  rfl

theorem AggState.pendingTransactions_of_isEmpty {s : AggState} (h : s.IsEmpty)
    (provider : String) : s.pendingTransactions provider = {} := by
  rw [pendingTransactions, h.2]
  rfl

theorem AggHolds.request_sum {startMs : Nat} {calls : List AggCall} {s : Aggregation}
    {gave : List Gave} (h : AggHolds startMs calls s gave) (key : RequestKey) :
    ((requestsOf calls key).map (·.2)).sum =
      ((requestEventsOf s.events key).map (·.count)).sum + (s.state.pendingRequests key).count := by
  obtain ⟨windows, rest, hitems, -, hevents, hpending⟩ := h.requestWindows key
  have hrest : (s.state.pendingRequests key).count = (rest.map (·.2)).sum :=
    congrArg Bucket.count hpending
  rw [hrest]
  apply sum_windows (·.2) (fun e : RequestAggregate => e.count) hitems
  refine hevents.imp (fun e w he => ?_)
  rw [he]
  rfl

def requestTally (key : RequestKey) : Tally (ℚ × Nat) RequestAggregate where
  call := (·.requestFor key)
  weight := (·.2)
  event := (·.requestFor key)
  count := (·.count)
  drain _ _ := rfl
  balance startMs calls s gave h he := by
    have hsum := h.request_sum key
    rw [AggState.pendingRequests_of_isEmpty he] at hsum
    exact hsum

def transactionTally (provider : String) (c : TransactionCounter) :
    Tally TransactionRecord TransactionSubmit where
  call := (·.transactionFor provider)
  weight := (·.counts c)
  event := (·.transactionFor provider)
  count := (·.counter c)
  drain _ _ := rfl
  balance startMs calls s gave h he := by
    have hsum := h.counter_sum provider c
    rw [AggState.pendingTransactions_of_isEmpty he] at hsum
    have hzero : TransactionBucket.counter {} c = 0 := by
      cases c with
      | decoded r => cases r <;> rfl
      | accepted => rfl
      | rejected => rfl
    rw [hzero, Nat.add_zero] at hsum
    exact hsum

section drains

variable {startMs : Nat} {calls more : List AggCall} {a b : Aggregation}

theorem aggregation_drains (h : (aggregation startMs).run a calls = some b) :
    a.drains <+: b.drains ∧ b.drains.length = a.drains.length + calls.countP (·.isDrain) := by
  induction calls generalizing a with
  | nil =>
    obtain rfl : a = b := by simpa [System.run] using h
    exact ⟨List.prefix_rfl, rfl⟩
  | cons c calls ih =>
    obtain ⟨hbegins, hlength⟩ := ih h
    cases c with
    | record key latencyMs count =>
      refine ⟨hbegins, ?_⟩
      rw [List.countP_cons_of_neg (by simp [AggCall.isDrain])]
      exact hlength
    | transaction provider call =>
      refine ⟨hbegins, ?_⟩
      rw [List.countP_cons_of_neg (by simp [AggCall.isDrain])]
      exact hlength
    | drain now order =>
      refine ⟨(List.prefix_append _ _).trans hbegins, ?_⟩
      rw [hlength, List.countP_cons]
      simp only [Aggregation.after, AggCall.isDrain, List.length_append, List.length_singleton,
        if_true]
      omega

theorem mem_recordWindows (n : Nat) (xs ys : List AggCall) {c : AggCall} (hc : c.isDrain = false) :
    n + xs.countP (·.isDrain) ∈ recordWindows n (xs ++ c :: ys) := by
  induction xs generalizing n with
  | nil => simp [recordWindows, hc]
  | cons x xs ih =>
    by_cases hx : x.isDrain = true
    · have hn : n + 1 + xs.countP (·.isDrain) = n + (xs.countP (·.isDrain) + 1) := by omega
      simpa [recordWindows, hx, hn] using ih (n + 1)
    · simpa [recordWindows, hx] using Or.inr (ih n)

/-- A list of calls ends in drains, after its last record if it has one. -/
theorem calls_cases (calls : List AggCall) : (∀ c ∈ calls, c.isDrain = true) ∨
    ∃ xs c ys, calls = xs ++ c :: ys ∧ c.isDrain = false ∧ ∀ d ∈ ys, d.isDrain = true := by
  induction calls with
  | nil => exact Or.inl (fun c hc => by cases hc)
  | cons c calls ih =>
    rcases ih with hall | ⟨xs, d, ys, rfl, hd, hys⟩
    · cases hc : c.isDrain with
      | true =>
        left
        intro d hd
        rcases List.mem_cons.mp hd with rfl | hd
        · exact hc
        · exact hall d hd
      | false => exact Or.inr ⟨[], c, calls, rfl, hc, hall⟩
    · exact Or.inr ⟨c :: xs, d, ys, rfl, hd, hys⟩

/-- When the drain that closes the window of each record has been given out, so have the records. -/
theorem Tally.delivered {events : List TelemetryEvent}
    (hrun : (aggregation startMs).run ⟨{ windowStartMs := startMs }, []⟩ (calls ++ more) = some b)
    (h : ∀ k ∈ recordWindows 0 calls, k < b.drains.length ∧
      (b.drains.take (k + 1)).flatMap (·.events) <+: events) :
    M.recorded calls ≤ M.given events := by
  rcases calls_cases calls with hdrains | ⟨xs, c, ys, rfl, hc, hys⟩
  · rw [M.recorded_drains hdrains]
    exact Nat.zero_le _
  · obtain ⟨hlt, hevents⟩ := h _ (mem_recordWindows 0 xs ys hc)
    rw [Nat.zero_add] at hlt hevents
    have hnone : (⟨{ windowStartMs := startMs }, []⟩ : Aggregation).drains.length = 0 := rfl
    have htotal := (aggregation_drains hrun).2
    rw [List.append_assoc, List.countP_append, List.cons_append,
      List.countP_cons_of_neg (by simp [hc])] at htotal
    have hpositive : 0 < (ys ++ more).countP (·.isDrain) := by
      omega
    -- the first drain after the last record closes its window
    have hsome : ((ys ++ more).find? (·.isDrain)).isSome := by
      rw [List.find?_isSome]
      exact List.countP_pos_iff.mp hpositive
    obtain ⟨d, hd⟩ := Option.isSome_iff_exists.mp hsome
    obtain ⟨hdrain, as, bs, hsplit, has⟩ := List.find?_eq_some_iff_append.mp hd
    cases d with
    | record key latencyMs count => cases hdrain
    | transaction provider call => cases hdrain
    | drain now order =>
      have hcalls : xs ++ c :: ys ++ more = (xs ++ c :: as ++ [.drain now order]) ++ bs := by
        rw [List.append_assoc, List.cons_append, hsplit]
        simp
      rw [hcalls, System.run_append] at hrun
      obtain ⟨m, hm, hrest⟩ := Option.bind_eq_some_iff.mp hrun
      have hlater := (aggregation_drains hrest).1
      have hcount : as.countP (·.isDrain) = 0 := by
        apply List.countP_eq_zero.mpr
        intro d hd
        simpa using has d hd
      have hlength : m.drains.length = xs.countP (·.isDrain) + 1 := by
        have hlen := (aggregation_drains hm).2
        have hone : [AggCall.drain now order].countP (·.isDrain) = 1 := rfl
        rw [List.countP_append, List.countP_append, List.countP_cons_of_neg (by simp [hc]), hcount,
          hone] at hlen
        omega
      have hdrains : m.drains = b.drains.take (xs.countP (·.isDrain) + 1) := by
        rw [← hlength]
        exact List.prefix_iff_eq_take.mp hlater
      obtain ⟨gave, hholds⟩ := aggregation_holds rfl hm
      have hempty : m.state.IsEmpty := by
        rw [System.run_snoc] at hm
        obtain ⟨n, -, hn⟩ := Option.bind_eq_some_iff.mp hm
        obtain rfl := Option.some.inj hn
        exact ⟨rfl, rfl⟩
      have hbalance := M.balance startMs _ m gave hholds hempty
      have hgiven : M.recorded (xs ++ c :: as ++ [.drain now order]) ≤ M.given events := by
        refine le_trans (le_of_eq hbalance) (M.given_mono ?_)
        rw [Aggregation.events, hdrains]
        exact hevents
      refine le_trans ?_ hgiven
      have hys0 := M.recorded_drains hys
      have hleft : M.recorded (xs ++ c :: ys) = M.recorded (xs ++ [c]) := by
        have hcut : xs ++ c :: ys = (xs ++ [c]) ++ ys := by simp
        rw [hcut, M.recorded_append, hys0, Nat.add_zero]
      rw [hleft]
      apply M.recorded_mono
      exact ⟨as ++ [.drain now order], by simp⟩

end drains

/-! The histories of the task, and a `flush_and_wait` that is the only one. -/

section alone

variable {config : ReportingConfig} {startMs : Nat} {s t : Flusher} {e : FlusherEvent}
  {calls : List AggCall} {events : List FlusherEvent}

theorem Flusher.Logs.step_calls (h : s.Logs startMs calls) (hs : s.step config e = some t) :
    t.Logs startMs (calls ++ e.calls) := by
  cases Flusher.step_move hs with
  | record ho => exact h.recorded rfl rfl
  | recordTransaction ho => exact h.recorded rfl rfl
  | drain hp => exact h.collected
  | dropped =>
    show s.Logs startMs (calls ++ [])
    rw [List.append_nil]
    exact h
  | emitted | notify | register | close | received | receivedFull | disconnected | tick | notified |
    tried | nothing | hand | posted | wake =>
    show Flusher.Logs startMs _ (calls ++ [])
    rw [List.append_nil]
    exact ⟨h.run, h.windows, h.drains⟩

theorem flushTask_logs_run (hrun : (flushTask config startMs).run (.start startMs) events = some s) :
    s.Logs startMs (events.flatMap FlusherEvent.calls) := by
  refine System.invariant_history
    (I := fun events s => Flusher.Logs startMs s (events.flatMap FlusherEvent.calls)) ?_ ?_ hrun
  · exact ⟨rfl, rfl, rfl⟩
  · intro events s e t _ h ht
    rw [List.flatMap_append, List.flatMap_singleton]
    exact h.step_calls ht

theorem flushTask_grows (hrun : (flushTask config startMs).run s events = some t) : s.Grows t := by
  refine System.invariant_run (I := fun t => s.Grows t) ?_ (.refl s) hrun
  intro u e t hgrown ht
  have hlast := Flusher.step_grows ht
  exact ⟨hgrown.recorded.trans hlast.recorded, hgrown.drains.trans hlast.drains,
    hgrown.accepted.trans hlast.accepted, hgrown.sent.trans hlast.sent⟩

def FlusherEvent.registers : FlusherEvent → Bool
  | .register _ => true
  | _ => false

/-- The events by which a flush can be asked for. -/
def FlusherEvent.signals : FlusherEvent → Bool
  | .register _ => true
  | .notify => true
  | _ => false

theorem Flusher.timely_of_not_registers (s : Flusher) (h : e.registers = false) : s.Timely e := by
  cases e with
  | register id => cases h
  | emit | record | recordTransaction | notify | close | receive | disconnected | tick | notified |
    drain | tryRecv | posted | wake => trivial

/-- As long as nobody asks for a flush, the task is not at one and has nobody to wake. -/
structure Flusher.Unasked (s : Flusher) : Prop where
  permit : s.permit = false
  branch : s.phase.branch ≠ some .flush
  waiters : s.waiters = []
  completed : s.completed = []

theorem Branch.afterSend_branch {b : Branch} (h : b ≠ .flush) : b.afterSend.branch ≠ some .flush := by
  cases b with
  | flush => exact absurd rfl h
  | received => decide
  | tick => decide
  | final => decide

theorem Flusher.Unasked.step (h : s.Unasked) (he : e.signals = false)
    (hs : s.step config e = some t) : t.Unasked := by
  have hne : ∀ b, s.phase.branch = some b → b ≠ .flush := by
    rintro b hb rfl
    exact h.branch hb
  cases Flusher.step_move hs with
  | notify => cases he
  | register ho => cases he
  | notified hp =>
    obtain ⟨⟨-, hpermit⟩, -⟩ := eq_of_guard hs
    rw [h.permit] at hpermit
    cases hpermit
  | emitted ho => exact ⟨h.permit, h.branch, h.waiters, h.completed⟩
  | dropped => exact h
  | record ho => exact ⟨h.permit, h.branch, h.waiters, h.completed⟩
  | recordTransaction ho => exact ⟨h.permit, h.branch, h.waiters, h.completed⟩
  | close => exact ⟨h.permit, h.branch, h.waiters, h.completed⟩
  | received hp hq => exact ⟨h.permit, h.branch, h.waiters, h.completed⟩
  | receivedFull hp hq =>
    exact ⟨h.permit, by simp [Flusher.hand, FlushPhase.branch], h.waiters, h.completed⟩
  | disconnected hp hq hc =>
    exact ⟨h.permit, by simp [FlushPhase.branch], h.waiters, h.completed⟩
  | tick hp => exact ⟨h.permit, by simp [FlushPhase.branch], h.waiters, h.completed⟩
  | drain hp =>
    rw [hp] at hne
    refine ⟨h.permit, ?_, h.waiters, h.completed⟩
    intro hb
    exact hne _ hb rfl
  | tried hp hq => exact ⟨h.permit, h.branch, h.waiters, h.completed⟩
  | nothing hp hq hb =>
    rw [hp] at hne
    exact ⟨h.permit, Branch.afterSend_branch (hne _ rfl), h.waiters, h.completed⟩
  | hand hp hq =>
    rw [hp] at hne
    refine ⟨h.permit, ?_, h.waiters, h.completed⟩
    intro hb
    exact hne _ hb rfl
  | posted hp =>
    rw [hp] at hne
    exact ⟨h.permit, Branch.afterSend_branch (hne _ rfl), h.waiters, h.completed⟩
  | @wake b hp =>
    refine ⟨h.permit, ?_, rfl, ?_⟩
    · by_cases hb : b = .final <;> simp [hb, FlushPhase.branch]
    · simp [h.completed, h.waiters]

theorem Flusher.Unasked.run (h : s.Unasked) (he : ∀ e ∈ events, e.signals = false)
    (hrun : (flushTask config startMs).run s events = some t) : t.Unasked := by
  have hstep : ∀ u e t, Flusher.Unasked u → e.signals = false →
      (flushTask config startMs).step u e = some t → t.Unasked :=
    fun u e t hu he ht => hu.step he ht
  exact System.invariant_of_meets hstep h (System.meets_of_labels he s) hrun

theorem Flusher.Barrier.run (h : s.Keeps ∧ s.Barrier) (he : ∀ e ∈ events, e.registers = false)
    (hrun : (flushTask config startMs).run s events = some t) : t.Keeps ∧ t.Barrier := by
  refine System.invariant_of_meets (I := fun s => Flusher.Keeps s ∧ s.Barrier) ?_ h
    (System.meets_of_labels he s) hrun
  intro u e t hu he ht
  have htimely := u.timely_of_not_registers he
  exact ⟨hu.1.step ht, hu.2.step hu.1 htimely ht⟩

/-- Nobody is woken who has not registered. -/
theorem Flusher.waiters_step (he : e.registers = false) (hs : s.step config e = some t) :
    ∀ w ∈ t.waiters ++ t.completed, w ∈ s.waiters ++ s.completed := by
  intro w hw
  cases Flusher.step_move hs with
  | register ho => cases he
  | @wake b hp =>
    have hmem : w ∈ s.completed ++ s.waiters := hw
    have hperm : (s.completed ++ s.waiters).Perm (s.waiters ++ s.completed) := List.perm_append_comm
    exact hperm.subset hmem
  | emitted | dropped | record | recordTransaction | notify | close | received | receivedFull |
    disconnected | tick | notified | drain | tried | nothing | hand | posted => exact hw

theorem Flusher.waiters_run (he : ∀ e ∈ events, e.registers = false)
    (hrun : (flushTask config startMs).run s events = some t) :
    ∀ w ∈ t.waiters ++ t.completed, w ∈ s.waiters ++ s.completed := by
  refine System.invariant_of_meets
    (I := fun t => ∀ w ∈ t.waiters ++ t.completed, w ∈ s.waiters ++ s.completed) ?_
    (fun w hw => hw) (System.meets_of_labels he s) hrun
  intro u e t hu he ht w hw
  exact hu w (waiters_step he ht w hw)

/-- What is before a delivered call in the run has been sent. -/
theorem Flusher.Delivered.before {es₁ es₂ : List FlusherEvent} {s₁ : Flusher} {id : Nat}
    (h₁ : (flushTask config startMs).run (.start startMs) es₁ = some s₁)
    (hrun : (flushTask config startMs).run (.start startMs) (es₁ ++ .register id :: es₂) = some s)
    (h : s.Delivered ⟨id, s₁.recordedIn.length, s₁.accepted.length⟩) :
    s₁.accepted <+: s.sent.filterMap (·.ofChannel) ∧ ∀ {β γ : Type} (M : Tally β γ),
      M.recorded (es₁.flatMap FlusherEvent.calls) ≤ M.given (s.sent.filterMap (·.ofAggregator)) := by
  have hrest := hrun
  rw [System.run_append, h₁, Option.bind_some] at hrest
  have hgrown := flushTask_grows hrest
  obtain ⟨hrecords, haccepted⟩ := h
  refine ⟨?_, ?_⟩
  · have htaken : s.accepted.take s₁.accepted.length <+: s.sent.filterMap (·.ofChannel) := haccepted
    rwa [← List.prefix_iff_eq_take.mp hgrown.accepted] at htaken
  · intro β γ M
    have htaken : ∀ k ∈ s.recordedIn.take s₁.recordedIn.length, k < s.aggregation.drains.length ∧
        (s.aggregation.drains.take (k + 1)).flatMap (·.events) <+: s.sent.filterMap (·.ofAggregator) :=
      hrecords
    rw [← List.prefix_iff_eq_take.mp hgrown.recorded, (flushTask_logs_run h₁).windows] at htaken
    have hlogs := (flushTask_logs_run hrun).run
    rw [List.flatMap_append] at hlogs
    exact M.delivered hlogs htaken

/-- The only `flush_and_wait` of a run delivers everything before it. -/
theorem flush_alone_delivers {es₁ es₂ : List FlusherEvent} {s₁ : Flusher} {id : Nat}
    (h₁ : (flushTask config startMs).run (.start startMs) es₁ = some s₁)
    (hquiet : ∀ e ∈ es₁, e.signals = false)
    (h₂ : (flushTask config startMs).run s₁ (.register id :: es₂) = some s)
    (halone : ∀ e ∈ es₂, e.registers = false) (hdone : s.completed ≠ []) :
    s₁.accepted <+: s.sent.filterMap (·.ofChannel) ∧ ∀ {β γ : Type} (M : Tally β γ),
      M.recorded (es₁.flatMap FlusherEvent.calls) ≤ M.given (s.sent.filterMap (·.ofAggregator)) := by
  obtain ⟨s₂, hstep, hrun⟩ := Option.bind_eq_some_iff.mp h₂
  have hreg : s₁.step config (.register id) = some s₂ := hstep
  have hunasked : s₁.Unasked :=
    Flusher.Unasked.run ⟨rfl, by simp [Flusher.start, FlushPhase.branch], rfl, rfl⟩ hquiet h₁
  have hsilent : ∀ e ∈ es₁, e.registers = false := by
    intro e he
    have hsignals := hquiet e he
    cases e with
    | register id => cases hsignals
    | emit | record | recordTransaction | notify | close | receive | disconnected | tick |
      notified | drain | tryRecv | posted | wake => rfl
  obtain ⟨hkeeps, hbarrier⟩ := Flusher.Barrier.run ⟨.start startMs, .start startMs⟩ hsilent h₁
  have htimely : s₁.Timely (.register id) := fun hb => absurd hb hunasked.branch
  have hstart := And.intro (hkeeps.step hreg) (hbarrier.step hkeeps htimely hreg)
  obtain ⟨-, hdelivered⟩ := Flusher.Barrier.run hstart halone hrun
  have hs₂ := (eq_of_refusal hreg).2
  have honly : ∀ w ∈ s.completed, w = ⟨id, s₁.recordedIn.length, s₁.accepted.length⟩ := by
    intro w hw
    have hmem := Flusher.waiters_run halone hrun w (List.mem_append_right _ hw)
    obtain rfl := Option.some.inj hs₂
    simpa [hunasked.waiters, hunasked.completed] using hmem
  obtain ⟨w, hw⟩ := List.exists_mem_of_ne_nil _ hdone
  obtain rfl := honly w hw
  have hall : (flushTask config startMs).run (.start startMs) (es₁ ++ .register id :: es₂) =
      some s := by
    rw [System.run_append, h₁]
    exact h₂
  exact Flusher.Delivered.before h₁ hall (hdelivered.delivered _ hw)

end alone

/-! Every `flush_and_wait` that registers in time. -/

section timely

variable {config : ReportingConfig} {startMs : Nat} {s t : Flusher} {e : FlusherEvent}
  {events : List FlusherEvent} {w : Waiter}

/-- The run up to the call of `w`, and the counts that the call took there. -/
def Waiter.RegisteredIn (w : Waiter) (config : ReportingConfig) (startMs : Nat)
    (events : List FlusherEvent) : Prop :=
  ∃ es₁ es₂ s₁, events = es₁ ++ .register w.id :: es₂ ∧
    (flushTask config startMs).run (.start startMs) es₁ = some s₁ ∧
    w = ⟨w.id, s₁.recordedIn.length, s₁.accepted.length⟩

theorem flushTask_registered (hrun : (flushTask config startMs).run (.start startMs) events = some s) :
    ∀ w ∈ s.waiters ++ s.completed, w.RegisteredIn config startMs events := by
  refine System.invariant_history (I := fun events s => ∀ w ∈ Flusher.waiters s ++ s.completed,
    w.RegisteredIn config startMs events) (by simp [Flusher.start]) ?_ hrun
  intro events s e t hprior hregistered ht w hw
  have hold : ∀ w ∈ s.waiters ++ s.completed, w.RegisteredIn config startMs (events ++ [e]) := by
    intro w hw
    obtain ⟨es₁, es₂, s₁, he, h₁, hcounts⟩ := hregistered w hw
    exact ⟨es₁, es₂ ++ [e], s₁, by rw [he, List.append_assoc, List.cons_append], h₁, hcounts⟩
  by_cases he : e.registers = false
  · exact hold w (Flusher.waiters_step he ht w hw)
  · cases e with
    | register id =>
      obtain rfl := Option.some.inj (eq_of_refusal ht).2
      have hcases : w ∈ s.waiters ++ s.completed ∨
          w = ⟨id, s.recordedIn.length, s.accepted.length⟩ := by
        simp only [List.append_assoc, List.mem_append, List.mem_singleton] at hw ⊢
        tauto
      rcases hcases with hmem | rfl
      · exact hold w hmem
      · exact ⟨events, [], s, rfl, hprior, rfl⟩
    | emit | record | recordTransaction | notify | close | receive | disconnected | tick |
      notified | drain | tryRecv | posted | wake => exact absurd rfl he

/-- The totals of these calls are in the events that have been sent. -/
def Flusher.BroughtOut (s : Flusher) (calls : List AggCall) : Prop :=
  (∀ key, ((requestsOf calls key).map (·.2)).sum ≤
    ((requestEventsOf (s.sent.filterMap (·.ofAggregator)) key).map (·.count)).sum) ∧
  ∀ provider c, ((transactionsOf calls provider).map (·.counts c)).sum ≤
    ((transactionEventsOf (s.sent.filterMap (·.ofAggregator)) provider).map (·.counter c)).sum

/-- In every run whose calls all register in time, a completed call has been sent everything
that came before it: the drains that close the windows of its records with all their events, so
that the totals of the records are in what was sent, and the events that the channel accepted. -/
theorem flush_and_wait_delivers (config : ReportingConfig) (startMs : Nat) (s₀ s : Flusher)
    (events : List FlusherEvent) (hinit : (flushTask config startMs).init s₀)
    (hrun : (flushTask config startMs).run s₀ events = some s)
    (hmeets : (flushTask config startMs).Meets Flusher.Timely s₀ events) :
    ∀ w ∈ s.completed, s.Delivered w ∧ ∃ es₁ es₂ s₁, events = es₁ ++ .register w.id :: es₂ ∧
      (flushTask config startMs).run s₀ es₁ = some s₁ ∧
      s₁.accepted <+: s.sent.filterMap (·.ofChannel) ∧
      s.BroughtOut (es₁.flatMap FlusherEvent.calls) := by
  obtain rfl : s₀ = .start startMs := hinit
  obtain ⟨-, hbarrier⟩ := Flusher.Barrier.meets ⟨.start startMs, .start startMs⟩ hmeets hrun
  intro w hw
  have hdelivered := hbarrier.delivered w hw
  obtain ⟨es₁, es₂, s₁, rfl, h₁, hcounts⟩ :=
    flushTask_registered hrun w (List.mem_append_right _ hw)
  rw [hcounts] at hdelivered
  have hsent := Flusher.Delivered.before h₁ hrun hdelivered
  rw [← hcounts] at hdelivered
  refine ⟨hdelivered, es₁, es₂, s₁, rfl, h₁, hsent.1, ?_, ?_⟩
  · intro key
    exact hsent.2 (requestTally key)
  · intro provider c
    exact hsent.2 (transactionTally provider c)

/-- The same two calls and records as below, the second call after the first has completed. -/
theorem flush_and_wait_delivers_in_turn :
    let config : ReportingConfig := { endpoint := "http://collector" }
    let key : RequestKey := ⟨"getSlot", "helius", "ok"⟩
    let order : DrainOrder := ⟨.same _, .same _⟩
    let events : List FlusherEvent := [.record key 20 1, .register 1, .notify, .notified,
      .drain 5 order, .tryRecv, .posted true, .wake, .record key 30 2,
      .emit (.divergence "getSlot" [] "first"), .register 2, .notify, .notified, .drain 9 order,
      .tryRecv, .tryRecv, .posted true, .wake]
    ∃ s, (flushTask config 0).run (.start 0) events = some s ∧
      s.completed = [⟨1, 1, 0⟩, ⟨2, 2, 1⟩] ∧
      ((requestEventsOf (s.sent.filterMap (·.ofAggregator)) key).map (·.count)) = [1, 2] ∧
      ∀ w ∈ s.completed, s.Delivered w ∧ ∃ es₁ es₂ s₁, events = es₁ ++ .register w.id :: es₂ ∧
        (flushTask config 0).run (.start 0) es₁ = some s₁ ∧
        s₁.accepted <+: s.sent.filterMap (·.ofChannel) ∧
        s.BroughtOut (es₁.flatMap FlusherEvent.calls) := by
  intro config key order events
  have hmeets : (flushTask config 0).Meets Flusher.Timely (.start 0) events := by decide
  have hrun : ∃ s, (flushTask config 0).run (.start 0) events = some s ∧
      s.completed = [⟨1, 1, 0⟩, ⟨2, 2, 1⟩] ∧
      ((requestEventsOf (s.sent.filterMap (·.ofAggregator)) key).map (·.count)) = [1, 2] :=
    ⟨_, rfl, rfl, rfl⟩
  obtain ⟨s, hs, hcompleted, hcounts⟩ := hrun
  exact ⟨s, hs, hcompleted, hcounts, flush_and_wait_delivers config 0 (.start 0) s events rfl hs hmeets⟩

/-- The second call registers while the first flush is sending, and completes with it; what was
recorded just before is still in the aggregator. -/
theorem flush_and_wait_during_send :
    let config : ReportingConfig := { endpoint := "http://collector" }
    let key : RequestKey := ⟨"getSlot", "helius", "ok"⟩
    let events : List FlusherEvent := [.record key 20 1, .register 1, .notify, .notified,
      .drain 5 ⟨.same _, .same _⟩, .tryRecv, .record key 30 1, .register 2, .notify, .posted true,
      .wake]
    ∃ s, (flushTask config 0).run (.start 0) events = some s ∧
      ⟨2, 2, 0⟩ ∈ s.completed ∧ ¬ s.Delivered ⟨2, 2, 0⟩ := by
  intro config key events
  refine ⟨_, rfl, List.mem_cons_of_mem _ List.mem_cons_self, ?_⟩
  intro h
  have hdrained := (h.1 1 (List.mem_cons_of_mem _ List.mem_cons_self)).1
  exact absurd hdrained (by decide)

end timely

end RpcPlane
