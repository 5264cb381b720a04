import RpcPlane.WindowLaw

/-! Logical requests across the windows: what a job adds to them, and what a flush moves
into aggregates. -/

namespace RpcPlane

def totalLogical (ws : Windows) : Nat :=
  (HistoricalCommitment.all.map (fun c => (ws c).logicalRequestCount)).sum

theorem totalLogical_set {ws : Windows} {c : HistoricalCommitment} {w : HistoricalWindow} {n : Nat}
    (h : w.logicalRequestCount = (ws c).logicalRequestCount + n) :
    totalLogical (ws.set c w) = totalLogical ws + n := by
  cases c <;> simp [totalLogical, HistoricalCommitment.all, Windows.set, h] <;> omega

theorem HistoricalWindow.evicted_logical (w : HistoricalWindow)
    (reason : HistoricalStateEvictionReason) (entry : StateEntry) :
    (w.evicted reason entry).logicalRequestCount = w.logicalRequestCount := by
  unfold evicted
  split <;> rfl

theorem totalLogical_stable (n : Nat) : EvictionStable (fun ws => totalLogical ws = n) := by
  intro ws c reason entry h
  have hset := totalLogical_set (n := 0) ((ws c).evicted_logical reason entry)
  rw [hset]
  exact h

theorem HistoricalWindow.observed_logical (w : HistoricalWindow) (previous : Option Lifecycle)
    (found : Bool) (now : Instant) :
    (w.observed previous found now).logicalRequestCount = w.logicalRequestCount := by
  unfold observed
  split <;> rfl

theorem HistoricalWindow.slotAge_logical (w : HistoricalWindow) (slot tip : Option Nat) :
    (w.slotAge slot tip).logicalRequestCount = w.logicalRequestCount := by
  unfold slotAge
  split
  · split <;> rfl
  · rfl

theorem SingleUpdate.logical {f : HistoricalWindow → HistoricalWindow} (hf : SingleUpdate f)
    (w : HistoricalWindow) : (f w).logicalRequestCount = w.logicalRequestCount + 1 := by
  cases hf with
  | rpcError => rfl
  | parseError => rfl
  | null previous now => exact HistoricalWindow.observed_logical _ previous false now
  | found slot tip previous now =>
    rw [HistoricalWindow.observed_logical, HistoricalWindow.slotAge_logical]
    rfl

theorem foldl_unsupported_total {α : Type} (commitment : α → HistoricalCommitment) (l : List α)
    (core : AnalyzerCore) :
    totalLogical (l.foldl (fun core a => core.countUnsupported (commitment a)) core).windows =
      totalLogical core.windows + l.length := by
  induction l generalizing core with
  | nil => rfl
  | cons a rest ih =>
    have hone : totalLogical (core.countUnsupported (commitment a)).windows =
        totalLogical core.windows + 1 := totalLogical_set rfl
    rw [List.foldl_cons, ih, hone, List.length_cons]
    omega

/-! The batch calls that a `Value` shows are among those that `classify_request` counted. -/

theorem callsMethod_of_isGetTransaction {call : Json} (h : isGetTransaction call = true) :
    call.CallsMethod "getTransaction" := by
  have hget : (call.valueGet "method").bind Json.asStr = some "getTransaction" := by
    simpa [isGetTransaction] using h
  obtain ⟨v, hv, hs⟩ := Option.bind_eq_some_iff.mp hget
  cases call with
  | obj members =>
    obtain ⟨m, hm, rfl⟩ := Option.map_eq_some_iff.mp hv
    have hkey : m.1.text = "method" := by simpa using List.find?_some hm
    have hmem : m ∈ members := List.mem_reverse.mp (List.mem_of_find?_eq_some hm)
    cases hj : m.2 with
    | str s =>
      rw [hj] at hs
      exact ⟨members, rfl, m, hmem, hkey, s, hj, Option.some.inj hs⟩
    | _ => simp [hj, Json.asStr] at hs
  | _ => simp [Json.valueGet] at hv

theorem filter_length_le_count {items : List Json} {arr : List (Option String)}
    (h : items.mapM readMethod = some arr) :
    (items.filter isGetTransaction).length ≤ (arr.filterMap id).count "getTransaction" := by
  induction items generalizing arr with
  | nil => simp
  | cons item rest ih =>
    rw [List.mapM_cons] at h
    obtain ⟨m, hm, h⟩ := Option.bind_eq_some_iff.mp h
    obtain ⟨ms, hms, h⟩ := Option.bind_eq_some_iff.mp h
    obtain rfl : m :: ms = arr := by simpa using h
    have hrest := ih hms
    by_cases hg : isGetTransaction item = true
    · have hsome : (readMethod item).isSome = true := by simp [hm]
      have hread := readMethod_of_callsMethod (callsMethod_of_isGetTransaction hg) hsome
      obtain rfl : m = some "getTransaction" := Option.some.inj (hm.symm.trans hread)
      rw [List.filter_cons_of_pos hg, List.filterMap_cons_some (by rfl), List.count_cons_self,
        List.length_cons]
      omega
    · cases m with
      | none => simpa [hg] using hrest
      | some name =>
        rw [List.filter_cons_of_neg hg, List.filterMap_cons_some (by rfl), List.count_cons]
        omega

theorem classifyBatch_historical {methods listed : List String} {cls : RequestClass} {n : Nat}
    (h : classifyBatch methods listed = some cls) (hn : cls.historical = .batch n) :
    n = methods.count "getTransaction" := by
  unfold classifyBatch at h
  dsimp only at h
  by_cases hu : (uniqueMethods methods).isEmpty = true
  · simp [hu] at h
  · rw [if_neg hu] at h
    obtain rfl := Option.some.inj h
    by_cases hz : 0 < methods.count "getTransaction"
    · simpa [hz] using hn.symm
    · simp [hz] at hn

theorem batchCalls_length_le (parser : ValueParser) {request : Body} {listed : List String} {n : Nat}
    (h : (classifyRequest request listed).map (·.historical) = some (.batch n)) :
    (batchCalls parser request).length ≤ n := by
  obtain ⟨cls, hcls, hn⟩ := Option.map_eq_some_iff.mp h
  unfold batchCalls
  split
  · rename_i items hparse
    have hjson := parser.agrees request _ hparse
    rw [classifyRequest_not_obj hjson rfl] at hcls
    obtain ⟨arr, harr, hbatch⟩ := Option.bind_eq_some_iff.mp hcls
    rw [classifyBatch_historical hbatch hn]
    exact filter_length_le_count harr
  · exact Nat.zero_le n

/-- A batch job carries at least the calls that its request shows. -/
def HistoricalJob.Bounded (parser : ValueParser) (job : HistoricalJob) : Prop :=
  ∀ n, job.cls = .batch n → (batchCalls parser job.request).length ≤ n

/-- A job is counted in the windows as often as it has eligible calls. -/
theorem process_total (core : AnalyzerCore) {parser : ValueParser} {job : HistoricalJob}
    (h : job.Bounded parser) : totalLogical (core.process parser job).windows =
      totalLogical core.windows + job.cls.eligibleCalls := by
  have hexpire : totalLogical (core.expire job.observedAt).windows = totalLogical core.windows :=
    (totalLogical_stable _).expire job.observedAt rfl
  rw [← hexpire]
  unfold AnalyzerCore.process
  cases hcls : job.cls with
  | none => rfl
  | single =>
    exact (totalLogical_stable _).processSingle
      (fun c f hf => totalLogical_set (hf.logical _)) parser job
  | batch n =>
    have hle := h n hcls
    have hcalls := foldl_unsupported_total commitmentFromRequest (batchCalls parser job.request)
      (core.expire job.observedAt)
    have hrest := foldl_unsupported_total id
      (List.replicate (n - (batchCalls parser job.request).length) HistoricalCommitment.unknown)
      ((batchCalls parser job.request).foldl
        (fun core call => core.countUnsupported (commitmentFromRequest call))
        (core.expire job.observedAt))
    rw [hcalls, List.length_replicate] at hrest
    have hn : HistoricalRequestClass.eligibleCalls (.batch n) = n := rfl
    rw [hn]
    refine hrest.trans ?_
    omega

/-! What a flush moves. -/

theorem sum_map_filterMap {α β : Type} (f : α → Option β) (g : β → Nat) (l : List α) :
    ((l.filterMap f).map g).sum = (l.map (fun a => ((f a).map g).getD 0)).sum := by
  induction l with
  | nil => rfl
  | cons a rest ih => cases ha : f a <;> simp [ha, ih]

section flush

variable (core : AnalyzerCore) (quality : QualityCounts) (endMs configuredCapacity : Nat)

theorem counters_zero {quality : QualityCounts} (h : QualityCounts.present quality = false)
    (k : QualityCounter) : quality k = 0 := by
  have hz : (QualityCounter.all.map quality).sum = 0 := by
    simpa [QualityCounts.present] using h
  simp only [QualityCounter.all, List.map_cons, List.map_nil, List.sum_cons, List.sum_nil] at hz
  cases k <;> omega

/-- The turn of one window: its logical requests are in the event or still in the window,
and the dropped ones go with the unknown window. -/
theorem takeEvent_logical (c : HistoricalCommitment) :
    ((core.takeEvent quality endMs configuredCapacity c).map (·.counts.logicalRequestCount)).getD 0 +
        ((core.flush quality endMs configuredCapacity).1.windows c).logicalRequestCount =
      (core.windows c).logicalRequestCount +
        if c = .unknown then quality .droppedLogical else 0 := by
  have hwindow : (core.flush quality endMs configuredCapacity).1.windows c =
      if (core.takeEvent quality endMs configuredCapacity c).isSome then {} else core.windows c := rfl
  rw [hwindow]
  unfold AnalyzerCore.takeEvent
  dsimp only
  by_cases hu : c = .unknown
  · subst hu
    by_cases hskip : ((core.windows .unknown).isEmpty && !(true && QualityCounts.present quality)) = true
    · have hnone : QualityCounts.present quality = false := by
        simp only [Bool.and_eq_true, Bool.not_eq_true', Bool.true_and] at hskip
        exact hskip.2
      have hz := counters_zero hnone .droppedLogical
      simp only [beq_self_eq_true, if_pos hskip]
      simp [hz]
    · simp only [beq_self_eq_true, if_neg hskip]
      simp
  · have hu' : (c == HistoricalCommitment.unknown) = false := by simpa using hu
    simp only [hu', Bool.false_and, Bool.not_false, Bool.and_true, hu, if_false]
    by_cases he : (core.windows c).isEmpty = true
    · simp [he]
    · simp [he]

theorem flush_logical :
    ((core.flush quality endMs configuredCapacity).2.map (·.counts.logicalRequestCount)).sum +
        totalLogical (core.flush quality endMs configuredCapacity).1.windows =
      totalLogical core.windows + quality .droppedLogical := by
  have hturn := takeEvent_logical core quality endMs configuredCapacity
  have hp := hturn .processed
  have hc := hturn .confirmed
  have hf := hturn .finalized
  have hu := hturn .unknown
  have hevents : (core.flush quality endMs configuredCapacity).2 =
      HistoricalCommitment.all.filterMap (core.takeEvent quality endMs configuredCapacity) := rfl
  rw [hevents, sum_map_filterMap]
  simp only [totalLogical, HistoricalCommitment.all, List.map_cons, List.map_nil, List.sum_cons,
    List.sum_nil, reduceCtorEq, if_false, if_true] at *
  omega

end flush

end RpcPlane
