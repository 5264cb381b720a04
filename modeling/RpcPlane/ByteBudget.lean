import RpcPlane.HistoricalConservation

/-! The byte budget of the historical analyzer: permits are free or held by a live job, and the
jobs that wait or are processed stay within `max_queued_bytes`. -/

namespace RpcPlane

/-! Units held, and bytes of the jobs that wait or are processed. -/

def FinishPhase.units : FinishPhase → Nat
  | .acquired job => job.units
  | .refused job => job.units
  | _ => 0

def Message.units : Message → Nat
  | .analyze job => job.units
  | .flush => 0

def Worker.units : Worker → Nat
  | .processing job => job.units
  | _ => 0

/-- The units of all live jobs. -/
def Analytics.unitsHeld (s : Analytics) : Nat :=
  (s.finishing.map FinishPhase.units).sum + (s.queue.map Message.units).sum + s.worker.units

def HistoricalJob.bytes (job : HistoricalJob) : Nat :=
  job.request.bytes.length + job.response.bytes.length

def Message.bytes : Message → Nat
  | .analyze job => job.job.bytes
  | .flush => 0

def Worker.bytes : Worker → Nat
  | .processing job => job.job.bytes
  | _ => 0

/-- The request and response bytes of all jobs that are queued or being processed. -/
def Analytics.bytesHeld (s : Analytics) : Nat := (s.queue.map Message.bytes).sum + s.worker.bytes

/-! A job's units cover its bytes. -/

def QueuedJob.Covered (job : QueuedJob) : Prop := job.job.bytes ≤ queueByteUnit * job.units

def FinishPhase.Covered : FinishPhase → Prop
  | .admitted call units => call.jobBytes ≤ queueByteUnit * units
  | .acquired job => job.Covered
  | .refused job => job.Covered
  | _ => True

def Message.Covered : Message → Prop
  | .analyze job => job.Covered
  | .flush => True

def Worker.Covered : Worker → Prop
  | .processing job => job.Covered
  | _ => True

theorem jobUnits_covers (n : Nat) : n ≤ queueByteUnit * jobUnits n := by
  unfold jobUnits queueByteUnit
  omega

theorem HistoricalCall.admit_ok {config : HistoricalAnalyticsConfig} {call : HistoricalCall}
    {units : Nat} (h : call.admit config = .ok units) : units = jobUnits call.jobBytes := by
  unfold HistoricalCall.admit at h
  split_ifs at h
  exact (Except.ok.inj h).symm

theorem FinishPhase.entered_units (config : HistoricalAnalyticsConfig) (call : HistoricalCall) :
    (FinishPhase.entered config call).units = 0 := by
  unfold entered
  split
  · rfl
  · split <;> rfl

theorem FinishPhase.entered_covered (config : HistoricalAnalyticsConfig) (call : HistoricalCall) :
    (FinishPhase.entered config call).Covered := by
  unfold entered
  split
  · trivial
  · split
    · trivial
    · rename_i units hadmits
      rw [HistoricalCall.admit_ok hadmits]
      exact jobUnits_covers call.jobBytes

/-- The permits are where they should be, and every job has enough of them. -/
structure Analytics.Budgeted (total : Nat) (s : Analytics) : Prop where
  permits : s.permits + s.unitsHeld = total
  finishing : ∀ phase ∈ s.finishing, phase.Covered
  queue : ∀ m ∈ s.queue, m.Covered
  worker : s.worker.Covered

theorem Analytics.setPhase_units {s : Analytics} {i : Nat} {phase : FinishPhase}
    (h : s.finishing[i]? = some phase) (next : FinishPhase) :
    (s.setPhase i next).unitsHeld + phase.units = s.unitsHeld + next.units := by
  have hsum := sum_map_set FinishPhase.units h next
  simp only [unitsHeld, setPhase]
  omega

theorem Analytics.setPhase_same_units {s : Analytics} {i : Nat} {phase next : FinishPhase}
    (h : s.finishing[i]? = some phase) (hu : next.units = phase.units) :
    (s.setPhase i next).unitsHeld = s.unitsHeld := by
  have hset := setPhase_units h next
  omega

theorem Analytics.pushed_units (s : Analytics) (m : Message) :
    Analytics.unitsHeld { s with queue := s.queue ++ [m] } = s.unitsHeld + m.units := by
  simp only [unitsHeld, List.map_append, List.sum_append, List.map_singleton, List.sum_singleton]
  omega

section budget

variable {config : HistoricalAnalyticsConfig} {parser : ValueParser} {s t : Analytics}
  {e : AnalyticsEvent} {total : Nat}

/-- Each step moves units between the semaphore and a job, or from one job's place to the next. -/
theorem Analytics.Move.units (hm : s.Move config parser e t) :
    t.permits + t.unitsHeld = s.permits + s.unitsHeld := by
  cases hm with
  | @finish call listed hc =>
    have hnew := FinishPhase.entered_units config call
    simp only [unitsHeld, List.map_append, List.sum_append, List.map_singleton, List.sum_singleton, hnew]
    omega
  | @acquire i now call units hp hu =>
    have hset := setPhase_units (s := { s with permits := s.permits - units }) hp
      (.acquired ⟨call.job now, units⟩)
    simp only [FinishPhase.units, unitsHeld, setPhase] at hset ⊢
    omega
  | exhaust hp hu => exact congrArg _ (setPhase_same_units hp rfl)
  | @send i job hp hs =>
    have hset := setPhase_units (s := { s with queue := s.queue ++ [Message.analyze job] }) hp .returned
    have hpush := s.pushed_units (.analyze job)
    simp only [FinishPhase.units, Message.units, unitsHeld, setPhase] at hset hpush ⊢
    omega
  | refuse hp hs => exact congrArg _ (setPhase_same_units hp rfl)
  | @release i job hp =>
    have hset := setPhase_units (s := { s with permits := s.permits + job.units }) hp
      (.dropping .queueFull job.job.cls.eligibleCalls)
    simp only [FinishPhase.units, unitsHeld, setPhase] at hset ⊢
    omega
  | @countLogical i reason logical hp =>
    exact congrArg _ (setPhase_same_units (s := s.fetchAdd .droppedLogical logical) hp rfl)
  | @countReason i reason hp =>
    exact congrArg _ (setPhase_same_units (s := s.fetchAdd reason.counter 1) hp rfl)
  | reserveFlush => rfl
  | sendFlush => exact congrArg _ (s.pushed_units .flush)
  | receive hw hq =>
    simp only [unitsHeld, hw, hq, Worker.units, List.map_cons, List.sum_cons, Message.units]
    omega
  | receiveFlush hw hq =>
    simp only [unitsHeld, startFlush, hw, hq, Worker.units, List.map_cons, List.sum_cons, Message.units]
    omega
  | process hw =>
    simp only [unitsHeld, hw, Worker.units]
    omega
  | tick hw => simp only [unitsHeld, startFlush, hw, Worker.units]
  | swap hw => simp only [unitsHeld, hw, Worker.units]
  | emit hw => simp only [unitsHeld, hw, Worker.units]

theorem Analytics.Budgeted.move (h : s.Budgeted total) (hm : s.Move config parser e t) :
    t.Budgeted total := by
  have hpermits : t.permits + t.unitsHeld = total := hm.units.trans h.permits
  refine ⟨hpermits, ?_, ?_, ?_⟩
  · have hset : ∀ i : Nat, ∀ next : FinishPhase, next.Covered →
        ∀ p ∈ s.finishing.set i next, p.Covered := by
      intro i next hnext p hp
      rcases List.mem_or_eq_of_mem_set hp with hold | rfl
      · exact h.finishing p hold
      · exact hnext
    cases hm with
    | @finish call listed hc =>
      intro p hp
      rcases List.mem_append.mp hp with hold | hnew
      · exact h.finishing p hold
      · rw [List.mem_singleton.mp hnew]
        exact FinishPhase.entered_covered config call
    | @acquire i now call units hp hu =>
      have hcall : call.jobBytes ≤ queueByteUnit * units := h.finishing _ (List.mem_of_getElem? hp)
      exact hset _ _ hcall
    | @refuse i job hp hs =>
      have hjob : job.Covered := h.finishing _ (List.mem_of_getElem? hp)
      exact hset _ _ hjob
    | exhaust hp hu => exact hset _ _ trivial
    | send hp hs => exact hset _ _ trivial
    | release hp => exact hset _ _ trivial
    | countLogical hp => exact hset _ _ trivial
    | countReason hp => exact hset _ _ trivial
    | _ => exact h.finishing
  · have hpush : ∀ m : Message, m.Covered → ∀ m' ∈ s.queue ++ [m], m'.Covered := by
      intro m hm m' hmem
      rcases List.mem_append.mp hmem with hold | hnew
      · exact h.queue m' hold
      · rw [List.mem_singleton.mp hnew]
        exact hm
    cases hm with
    | @send i job hp hs =>
      have hjob : job.Covered := h.finishing _ (List.mem_of_getElem? hp)
      exact hpush (.analyze job) hjob
    | sendFlush => exact hpush .flush trivial
    | receive hw hq => exact fun m hmem => h.queue m (hq ▸ List.mem_cons_of_mem _ hmem)
    | receiveFlush hw hq => exact fun m hmem => h.queue m (hq ▸ List.mem_cons_of_mem _ hmem)
    | _ => exact h.queue
  · cases hm with
    | @receive now endMs job rest hw hq =>
      have hjob : (Message.analyze job).Covered := h.queue _ (hq ▸ List.mem_cons_self)
      exact hjob
    | receiveFlush hw hq => trivial
    | process hw => trivial
    | tick hw => trivial
    | swap hw => trivial
    | emit hw => trivial
    | _ => exact h.worker

theorem Analytics.Budgeted.start (hash : Json → Fingerprint) (nowMs : Nat) :
    (Analytics.start config hash nowMs).Budgeted (max (config.maxQueuedBytes / queueByteUnit) 1) where
  permits := rfl
  finishing := by simp [Analytics.start]
  queue := by simp [Analytics.start]
  worker := trivial

theorem Analytics.Budgeted.run {hash : Json → Fingerprint} {nowMs : Nat}
    {events : List AnalyticsEvent}
    (h : (analytics config parser hash nowMs).run (.start config hash nowMs) events = some s) :
    s.Budgeted (max (config.maxQueuedBytes / queueByteUnit) 1) :=
  System.invariant_run (fun _ _ _ hi hstep => hi.move (step_move hstep)) (.start hash nowMs) h

theorem Analytics.Budgeted.bytes (h : s.Budgeted total) : s.bytesHeld ≤ queueByteUnit * total := by
  have hqueue : ∀ q : List Message, (∀ m ∈ q, m.Covered) →
      (q.map Message.bytes).sum ≤ queueByteUnit * (q.map Message.units).sum := by
    intro q hq
    induction q with
    | nil => simp
    | cons m q ih =>
      have hm : m.bytes ≤ queueByteUnit * m.units := by
        have hcovered := hq m List.mem_cons_self
        cases m with
        | analyze job => exact hcovered
        | flush => exact Nat.zero_le _
      have hrest := ih (fun m' hm' => hq m' (List.mem_cons_of_mem _ hm'))
      rw [List.map_cons, List.map_cons, List.sum_cons, List.sum_cons, Nat.mul_add]
      omega
  have hworker : s.worker.bytes ≤ queueByteUnit * s.worker.units := by
    have hcovered := h.worker
    cases hw : s.worker with
    | processing job =>
      rw [hw] at hcovered
      exact hcovered
    | idle => exact Nat.zero_le _
    | flushing remaining taken endMs => exact Nat.zero_le _
  have hsum := hqueue s.queue h.queue
  have hpermits := h.permits
  have hheld : (s.queue.map Message.units).sum + s.worker.units ≤ total := by
    unfold unitsHeld at hpermits
    omega
  calc s.bytesHeld ≤ queueByteUnit * ((s.queue.map Message.units).sum + s.worker.units) := by
        rw [Nat.mul_add, bytesHeld]
        omega
    _ ≤ queueByteUnit * total := Nat.mul_le_mul_left _ hheld

end budget

/-- Over every interleaving: permits and held units add up to the budget, the jobs that are
queued or processed stay within `max_queued_bytes`, and a job that ends, refused by the queue
or processed, gives back what it holds. -/
theorem historical_byte_budget {config : Config} {h : HistoricalAnalyticsConfig}
    (hv : config.validate = .ok ()) (hh : config.historicalAnalytics = some h) (parser : ValueParser)
    (hash : Json → Fingerprint) (nowMs : Nat) (events : List AnalyticsEvent) (s : Analytics)
    (hrun : (analytics h parser hash nowMs).run (.start h hash nowMs) events = some s) :
    s.permits + s.unitsHeld = (Analytics.start h hash nowMs).permits ∧
      s.bytesHeld ≤ h.maxQueuedBytes ∧
      (∀ i job, s.finishing[i]? = some (.refused job) →
        ∃ t, s.step h parser (.release i) = some t ∧ t.permits = s.permits + job.units ∧
          t.unitsHeld + job.units = s.unitsHeld) ∧
      ∀ job, s.worker = .processing job →
        ∃ t, s.step h parser .process = some t ∧ t.permits = s.permits + job.units ∧
          t.unitsHeld + job.units = s.unitsHeld := by
  have hbudget := Analytics.Budgeted.run hrun
  have hmin := (Config.validate_historical hv hh).maxQueuedBytes
  refine ⟨hbudget.permits, ?_, ?_, ?_⟩
  · have hbytes := hbudget.bytes
    unfold queueByteUnit at hbytes
    omega
  · intro i job hp
    have hstep : s.step h parser (.release i) =
        some (Analytics.setPhase { s with permits := s.permits + job.units } i
          (.dropping .queueFull job.job.cls.eligibleCalls)) := by
      simp only [Analytics.step, hp]
    have hunits := (Analytics.step_move hstep).units
    refine ⟨_, hstep, rfl, ?_⟩
    simp only [Analytics.setPhase] at hunits ⊢
    omega
  · intro job hw
    have hstep : s.step h parser .process =
        some { s with
          core := s.core.process parser job.job
          permits := s.permits + job.units
          worker := .idle } := by
      simp only [Analytics.step, hw]
    have hunits := (Analytics.step_move hstep).units
    refine ⟨_, hstep, rfl, ?_⟩
    simp only at hunits ⊢
    omega

def sameHash (_ : Json) : Fingerprint := toLex (0, 0)

def analyzed (h : HistoricalAnalyticsConfig) : Config where
  providers := [{ name := "helius", url := "https://helius" }]
  reporting := some { endpoint := "https://reports" }
  historicalAnalytics := some h

/-- `getTransaction` of one signature and a null result, with white space after each. -/
def lookupOf (request response : Nat) : HistoricalCall where
  cls := .single
  request := .object
    (utf8Bytes "\"method\":\"getTransaction\",\"params\":[\"5VER\"]\x7d" ++
      List.replicate request 0x20)
    [(⟨"method", false⟩, .str ⟨"getTransaction", false⟩),
      (⟨"params", false⟩, .arr [.str ⟨"5VER", false⟩])]
  response := .object (utf8Bytes "\"result\":null\x7d" ++ List.replicate response 0x20)
    [(⟨"result", false⟩, .null)]
  status := 200
  tips := {}

theorem lookupOf_bytes (request response : Nat) :
    (lookupOf request response).jobBytes = request + response + 60 := by
  have hrequest : (utf8Bytes "\"method\":\"getTransaction\",\"params\":[\"5VER\"]\x7d").length = 44 := by
    decide
  have hresponse : (utf8Bytes "\"result\":null\x7d").length = 14 := by decide
  simp only [HistoricalCall.jobBytes, lookupOf, Body.object, List.length_cons, List.length_append,
    List.length_replicate, hrequest, hresponse]
  omega

theorem HistoricalCall.job_bytes (call : HistoricalCall) (now : Instant) :
    (call.job now).bytes = call.jobBytes := rfl

theorem lookupOf_entered {config : HistoricalAnalyticsConfig} (request response : Nat)
    (h : request + response + 60 ≤ config.maxJobBytes) (hlt : request + response < 2 ^ 32) :
    FinishPhase.entered config (lookupOf request response) =
      .admitted (lookupOf request response) (jobUnits (request + response + 60)) := by
  have hunits : ¬ 2 ^ 32 ≤ jobUnits (request + response + 60) := by
    unfold jobUnits queueByteUnit
    omega
  have hsingle : (lookupOf request response).cls.eligibleCalls = 1 := rfl
  rw [FinishPhase.entered, hsingle, if_neg Nat.one_ne_zero, HistoricalCall.admit, lookupOf_bytes,
    if_neg (by omega), if_neg (by omega), if_neg hunits]

def oneSlot : HistoricalAnalyticsConfig :=
  { queueCapacity := 1, maxQueuedBytes := 40960, maxJobBytes := 20480 }

/-- One job with the worker, one in the queue and one that the queue has refused: nine of ten
units are held. The refused job gives back two units when it ends, the worker's job three. -/
theorem historical_byte_budget_three_jobs :
    ∃ s job, (analytics oneSlot documents sameHash 0).run (.start oneSlot sameHash 0)
        [.finish (lookupOf 9000 940) [], .acquire 0 7, .send 0, .receive 8 8,
          .finish (lookupOf 6000 6229) [], .acquire 1 8, .send 1,
          .finish (lookupOf 0 8000) [], .acquire 2 9, .send 2] = some s ∧
      s.permits = 1 ∧ s.permits + s.unitsHeld = 10 ∧ s.bytesHeld = 22289 ∧ s.bytesHeld ≤ 40960 ∧
      s.finishing[2]? = some (.refused ⟨job, 2⟩) ∧
      (∃ t, s.step oneSlot documents (.release 2) = some t ∧ t.permits = 3 ∧ t.unitsHeld = 7) ∧
      ∃ t, s.step oneSlot documents .process = some t ∧ t.permits = 4 ∧ t.unitsHeld = 6 := by
  have hfirst : FinishPhase.entered oneSlot (lookupOf 9000 940) = .admitted (lookupOf 9000 940) 3 :=
    lookupOf_entered 9000 940 (by decide) (by decide)
  have hsecond : FinishPhase.entered oneSlot (lookupOf 6000 6229) =
      .admitted (lookupOf 6000 6229) 4 := lookupOf_entered 6000 6229 (by decide) (by decide)
  have hthird : FinishPhase.entered oneSlot (lookupOf 0 8000) = .admitted (lookupOf 0 8000) 2 :=
    lookupOf_entered 0 8000 (by decide) (by decide)
  have hcounted : ∀ a b, (lookupOf a b).Counted [] := fun _ _ => trivial
  let s : Analytics :=
    { Analytics.start oneSlot sameHash 0 with
      permits := 1
      queue := [.analyze ⟨(lookupOf 6000 6229).job 8, 4⟩]
      worker := .processing ⟨(lookupOf 9000 940).job 7, 3⟩
      finishing := [.returned, .returned, .refused ⟨(lookupOf 0 8000).job 9, 2⟩] }
  have hrun : (analytics oneSlot documents sameHash 0).run (.start oneSlot sameHash 0)
      [.finish (lookupOf 9000 940) [], .acquire 0 7, .send 0, .receive 8 8,
        .finish (lookupOf 6000 6229) [], .acquire 1 8, .send 1,
        .finish (lookupOf 0 8000) [], .acquire 2 9, .send 2] = some s := by
    simp only [System.run, analytics, Analytics.step, hcounted, hfirst, hsecond, hthird, if_true,
      Option.bind_some]
    rfl
  have hv : (analyzed oneSlot).validate = .ok () := rfl
  obtain ⟨htotal, hbytes, hrefused, hworker⟩ :=
    historical_byte_budget hv rfl documents sameHash 0 _ s hrun
  have htotal : s.permits + s.unitsHeld = 10 := htotal
  have hpermits : s.permits = 1 := rfl
  have hheld : s.unitsHeld = 9 := by omega
  have hsizes : s.bytesHeld = 22289 := by
    simp [s, Analytics.bytesHeld, Message.bytes, Worker.bytes, HistoricalCall.job_bytes,
      lookupOf_bytes]
  refine ⟨s, (lookupOf 0 8000).job 9, hrun, hpermits, htotal, hsizes, hbytes, rfl, ?_, ?_⟩
  · obtain ⟨t, ht, hfree, hunits⟩ := hrefused 2 _ rfl
    rw [hheld] at hunits
    exact ⟨t, ht, hfree, Nat.add_right_cancel hunits⟩
  · obtain ⟨t, ht, hfree, hunits⟩ := hworker _ rfl
    rw [hheld] at hunits
    exact ⟨t, ht, hfree, Nat.add_right_cancel hunits⟩

/-! A `finish` call by itself. -/

/-- No job is queued, processed or with a `finish` call. -/
structure Analytics.NoJob (s : Analytics) : Prop where
  finishing : ∀ phase ∈ s.finishing, ∀ job, phase ≠ .acquired job ∧ phase ≠ .refused job
  queue : ∀ m ∈ s.queue, m = Message.flush
  worker : ∀ job, s.worker ≠ .processing job

theorem Analytics.NoJob.unitsHeld {s : Analytics} (h : s.NoJob) : s.unitsHeld = 0 := by
  have hfinishing : (s.finishing.map FinishPhase.units).sum = 0 := by
    apply List.sum_eq_zero
    intro n hn
    obtain ⟨phase, hphase, rfl⟩ := List.mem_map.mp hn
    have hno := h.finishing phase hphase
    cases phase with
    | acquired job => exact absurd rfl (hno job).1
    | refused job => exact absurd rfl (hno job).2
    | _ => rfl
  have hqueue : (s.queue.map Message.units).sum = 0 := by
    apply List.sum_eq_zero
    intro n hn
    obtain ⟨m, hm, rfl⟩ := List.mem_map.mp hn
    rw [h.queue m hm]
    rfl
  have hworker : s.worker.units = 0 := by
    cases hw : s.worker with
    | processing job => exact absurd hw (h.worker job)
    | _ => rfl
  rw [Analytics.unitsHeld, hfinishing, hqueue, hworker]

section finish

variable {config : HistoricalAnalyticsConfig} {parser : ValueParser} {hash : Json → Fingerprint}
  {nowMs : Nat} {s : Analytics} {call : HistoricalCall} {listed : List String}
  {finishing : List FinishPhase}

/-- The call runs through and its job is at the end of the queue; no counter has changed. -/
def Analytics.Accepts (config : HistoricalAnalyticsConfig) (parser : ValueParser)
    (hash : Json → Fingerprint) (nowMs : Nat) (s : Analytics) (call : HistoricalCall)
    (listed : List String) (now : Instant) : Prop :=
  ∃ t units, (analytics config parser hash nowMs).run s
      [.finish call listed, .acquire s.finishing.length now, .send s.finishing.length] = some t ∧
    t.queue = s.queue ++ [Message.analyze ⟨call.job now, units⟩] ∧ t.quality = s.quality

theorem HistoricalCall.admit_iff (hsize : call.jobBytes ≤ config.maxJobBytes) :
    call.admit config = .ok (jobUnits call.jobBytes) ↔
      call.jobBytes ≤ queueByteUnit * (2 ^ 32 - 1) := by
  have hunits : jobUnits call.jobBytes < 2 ^ 32 ↔ call.jobBytes ≤ queueByteUnit * (2 ^ 32 - 1) := by
    unfold jobUnits queueByteUnit
    omega
  rw [← hunits, HistoricalCall.admit]
  by_cases hbig : 2 ^ 64 ≤ call.jobBytes
  · have hlarge : ¬ jobUnits call.jobBytes < 2 ^ 32 := by
      unfold jobUnits queueByteUnit
      omega
    rw [if_pos hbig]
    exact iff_of_false (by simp) hlarge
  · rw [if_neg hbig, if_neg (by omega)]
    by_cases hlarge : 2 ^ 32 ≤ jobUnits call.jobBytes
    · rw [if_pos hlarge]
      exact iff_of_false (by simp) (by omega)
    · rw [if_neg hlarge]
      exact iff_of_true rfl (by omega)

theorem Analytics.acquire_last (units : Nat) (now : Instant)
    (h : s.finishing = finishing ++ [.admitted call units]) :
    s.step config parser (.acquire finishing.length now) =
      if units ≤ s.permits then
        some (Analytics.setPhase { s with permits := s.permits - units } finishing.length
          (.acquired ⟨call.job now, units⟩))
      else some (s.setPhase finishing.length (.dropping .byteBudgetExhausted call.cls.eligibleCalls)) := by
  have hlast : s.finishing[finishing.length]? = some (.admitted call units) := by simp [h]
  simp only [Analytics.step, hlast]

theorem Analytics.send_acquired {i : Nat} {held : QueuedJob}
    (h : s.finishing[i]? = some (.acquired held)) :
    s.step config parser (.send i) =
      if s.hasSlot config then
        some (Analytics.setPhase { s with queue := s.queue ++ [Message.analyze held] } i .returned)
      else some (s.setPhase i (.refused held)) := by
  simp only [Analytics.step, h]

theorem Analytics.stuck_of_dropping {i n : Nat} {reason : HistoricalAnalyzerDropReason}
    (h : s.finishing[i]? = some (.dropping reason n)) (now : Instant) :
    s.step config parser (.acquire i now) = none ∧ s.step config parser (.send i) = none := by
  simp only [Analytics.step, h, and_self]

theorem Analytics.accepts_iff (hc : call.Counted listed) (hel : 0 < call.cls.eligibleCalls)
    (now : Instant) :
    s.Accepts config parser hash nowMs call listed now ↔
      ∃ units, call.admit config = .ok units ∧ units ≤ s.permits ∧ s.hasSlot config = true := by
  let s₁ : Analytics := { s with finishing := s.finishing ++ [.entered config call] }
  have hstart : s.step config parser (.finish call listed) = some s₁ := if_pos hc
  have hsome : ¬ call.cls.eligibleCalls = 0 := by omega
  unfold Analytics.Accepts
  simp only [System.run, analytics, hstart, Option.bind_some]
  cases hadmits : call.admit config with
  | error reason =>
    have hentered : FinishPhase.entered config call = .dropping reason call.cls.eligibleCalls := by
      rw [FinishPhase.entered, if_neg hsome, hadmits]
    have hlast : s₁.finishing[s.finishing.length]? =
        some (.dropping reason call.cls.eligibleCalls) := by
      simp [s₁, hentered]
    have hstuck : s₁.step config parser (.acquire s.finishing.length now) = none :=
      (stuck_of_dropping hlast now).1
    simp [hstuck]
  | ok units =>
    have hentered : FinishPhase.entered config call = .admitted call units := by
      rw [FinishPhase.entered, if_neg hsome, hadmits]
    have hlast : s₁.finishing = s.finishing ++ [.admitted call units] := by
      simp only [s₁, hentered]
    have hacquire : s₁.step config parser (.acquire s.finishing.length now) = _ :=
      acquire_last units now hlast
    by_cases hu : units ≤ s.permits
    · rw [if_pos hu] at hacquire
      let s₂ : Analytics := Analytics.setPhase { s₁ with permits := s.permits - units }
        s.finishing.length (.acquired ⟨call.job now, units⟩)
      have hheld : s₂.finishing[s.finishing.length]? = some (.acquired ⟨call.job now, units⟩) := by
        simp [s₂, Analytics.setPhase, hlast]
      have hslot : s₂.hasSlot config = s.hasSlot config := rfl
      rw [hacquire, Option.bind_some, send_acquired hheld, hslot]
      cases hs : s.hasSlot config with
      | true =>
        refine iff_of_true ⟨_, units, rfl, rfl, rfl⟩ ⟨units, rfl, hu, rfl⟩
      | false =>
        refine iff_of_false ?_ (by simp)
        rintro ⟨t, units', ht, hqueue, -⟩
        obtain rfl := Option.some.inj ht
        have hlen := congrArg List.length hqueue
        simp [s₂, s₁, Analytics.setPhase] at hlen
    · rw [if_neg hu] at hacquire
      let s₂ : Analytics := s₁.setPhase s.finishing.length
        (.dropping .byteBudgetExhausted call.cls.eligibleCalls)
      have hphase : s₂.finishing[s.finishing.length]? =
          some (.dropping .byteBudgetExhausted call.cls.eligibleCalls) := by
        simp [s₂, Analytics.setPhase, hlast]
      rw [hacquire, Option.bind_some, (stuck_of_dropping hphase now).2]
      refine iff_of_false ?_ ?_
      · rintro ⟨t, units', ht, -⟩
        cases ht
      · rintro ⟨units', he, hle, -⟩
        obtain rfl := Except.ok.inj he
        exact hu hle

end finish

/-- With no other job around, a job within the limit is accepted exactly when its bytes fit the
budget rounded down to whole units, its units fit 32 bits, and flush requests have left a slot. -/
theorem finish_accepts_iff {config : Config} {h : HistoricalAnalyticsConfig}
    (hv : config.validate = .ok ()) (hh : config.historicalAnalytics = some h) (parser : ValueParser)
    (hash : Json → Fingerprint) (nowMs : Nat) (events : List AnalyticsEvent) (s : Analytics)
    (hrun : (analytics h parser hash nowMs).run (.start h hash nowMs) events = some s)
    (hno : s.NoJob) {call : HistoricalCall} {listed : List String} (hc : call.Counted listed)
    (hel : 0 < call.cls.eligibleCalls) (hsize : call.jobBytes ≤ h.maxJobBytes) (now : Instant) :
    s.Accepts h parser hash nowMs call listed now ↔
      call.jobBytes ≤ queueByteUnit * (h.maxQueuedBytes / queueByteUnit) ∧
        call.jobBytes ≤ queueByteUnit * (2 ^ 32 - 1) ∧ s.hasSlot h = true := by
  have hmin := (Config.validate_historical hv hh).maxQueuedBytes
  have hpermits : s.permits = h.maxQueuedBytes / queueByteUnit := by
    have hbudget := (Analytics.Budgeted.run hrun).permits
    have hheld := hno.unitsHeld
    unfold queueByteUnit at hbudget ⊢
    omega
  have hunits : jobUnits call.jobBytes ≤ s.permits ↔
      call.jobBytes ≤ queueByteUnit * (h.maxQueuedBytes / queueByteUnit) := by
    rw [hpermits]
    unfold jobUnits queueByteUnit at *
    omega
  rw [Analytics.accepts_iff hc hel now, ← hunits, ← HistoricalCall.admit_iff hsize]
  constructor
  · rintro ⟨units, hadmits, hle, hslot⟩
    obtain rfl := HistoricalCall.admit_ok hadmits
    exact ⟨hle, hadmits, hslot⟩
  · rintro ⟨hle, hadmits, hslot⟩
    exact ⟨_, hadmits, hle, hslot⟩

/-- A budget of four units and almost another. -/
def fourUnits : HistoricalAnalyticsConfig :=
  { queueCapacity := 2, maxQueuedBytes := 20000, maxJobBytes := 20000 }

/-- One job has been processed and a flush waits in the queue. A call that fills the four
units to the last byte is accepted. -/
theorem finish_accepts_four_units :
    ∃ s, (analytics fourUnits documents sameHash 0).run (.start fourUnits sameHash 0)
        [.finish (lookupOf 9000 940) [], .acquire 0 7, .send 0, .receive 8 8, .process,
          .reserveFlush, .sendFlush] = some s ∧
      s.queue.length = 1 ∧ (lookupOf 10000 6324).jobBytes = 16384 ∧
      s.Accepts fourUnits documents sameHash 0 (lookupOf 10000 6324) [] 9 := by
  have hentered : FinishPhase.entered fourUnits (lookupOf 9000 940) =
      .admitted (lookupOf 9000 940) 3 := lookupOf_entered 9000 940 (by decide) (by decide)
  have hcounted : ∀ a b, (lookupOf a b).Counted [] := fun _ _ => trivial
  let s : Analytics :=
    { Analytics.start fourUnits sameHash 0 with
      queue := [.flush]
      finishing := [.returned]
      core := (Analytics.start fourUnits sameHash 0).core.process documents
        ((lookupOf 9000 940).job 7) }
  have hrun : (analytics fourUnits documents sameHash 0).run (.start fourUnits sameHash 0)
      [.finish (lookupOf 9000 940) [], .acquire 0 7, .send 0, .receive 8 8, .process,
        .reserveFlush, .sendFlush] = some s := by
    simp only [System.run, analytics, Analytics.step, hcounted, hentered, if_true,
      Option.bind_some]
    rfl
  have hno : s.NoJob := by
    refine ⟨?_, ?_, ?_⟩
    · intro phase hp job
      rw [List.mem_singleton.mp hp]
      simp
    · exact fun m hm => List.mem_singleton.mp hm
    · exact fun job hw => by cases hw
  have hv : (analyzed fourUnits).validate = .ok () := rfl
  have hbytes : (lookupOf 10000 6324).jobBytes = 16384 := lookupOf_bytes 10000 6324
  have haccepts := finish_accepts_iff hv rfl documents sameHash 0 _ s hrun hno
    (hcounted 10000 6324) (by decide) (by rw [hbytes]; decide) 9
  refine ⟨s, hrun, rfl, hbytes, haccepts.mpr ⟨?_, ?_, rfl⟩⟩
  · rw [hbytes]
    decide
  · rw [hbytes]
    decide

/-- A budget of one unit and almost another. -/
def oddBudget : HistoricalAnalyticsConfig := { maxQueuedBytes := 8191, maxJobBytes := 8191 }

/-- A request of `n + 1` bytes with an empty response. -/
def spacedCall (n : Nat) : HistoricalCall :=
  ⟨.single, .object (List.replicate n 0x20) [], emptyCall.response, 200, {}⟩

theorem spacedCall_bytes (n : Nat) : (spacedCall n).jobBytes = n + 1 := by
  simp [HistoricalCall.jobBytes, spacedCall, emptyCall, Body.object]

def twoUnitCall : HistoricalCall := spacedCall 4096

/-- The call is within `max_job_bytes`, needs two units of one, and is dropped with no other job
around. -/
theorem two_unit_call_dropped :
    (analyzed oddBudget).validate = .ok () ∧ twoUnitCall.jobBytes = 4097 ∧
      twoUnitCall.jobBytes ≤ oddBudget.maxJobBytes ∧
      (Analytics.start oddBudget sameHash 0).NoJob ∧
      ¬ (Analytics.start oddBudget sameHash 0).Accepts oddBudget
        documents sameHash 0 twoUnitCall [] 7 ∧
      ((analytics oddBudget documents sameHash 0).run
        (.start oddBudget sameHash 0)
        [.finish twoUnitCall [], .acquire 0 7, .countLogical 0, .countReason 0]).map
          (fun s => s.quality .byteBudget) = some 1 := by
  have hbytes : twoUnitCall.jobBytes = 4097 := spacedCall_bytes 4096
  have hadmits : twoUnitCall.admit oddBudget = .ok 2 := by
    unfold HistoricalCall.admit
    simp [hbytes, oddBudget, jobUnits, queueByteUnit]
  have hcounted : twoUnitCall.Counted [] := trivial
  have hentered : FinishPhase.entered oddBudget twoUnitCall = .admitted twoUnitCall 2 := by
    rw [FinishPhase.entered, if_neg (by decide), hadmits]
  refine ⟨rfl, hbytes, by rw [hbytes]; decide, ?_, ?_, ?_⟩
  · exact ⟨by simp [Analytics.start], by simp [Analytics.start], by simp [Analytics.start]⟩
  · rw [Analytics.accepts_iff hcounted (by decide)]
    rintro ⟨units, hunits, hle, -⟩
    obtain rfl : 2 = units := Except.ok.inj (hadmits.symm.trans hunits)
    exact absurd hle (by decide)
  · simp only [System.run, analytics, Analytics.step, hcounted, hentered, if_true, Option.bind_some]
    rfl

end RpcPlane
