import RpcPlane.AggregatorLaw
import RpcPlane.OrderStatistic
import Mathlib.Algebra.Order.Floor.Div
import Mathlib.GroupTheory.GroupAction.Ring

/-! The percentiles of the transaction events are nearest ranks of the recorded samples. -/

namespace RpcPlane

inductive SampleKind where
  | cuLimit
  | cuPrice
  | fee
  deriving DecidableEq

structure Percentiles where
  p50 : Nat
  p90 : Nat
  p95 : Nat
  deriving DecidableEq

def TransactionInfo.sample (info : TransactionInfo) : SampleKind → Nat
  | .cuLimit => info.cuLimit
  | .cuPrice => info.cuPriceMicroLamports.getD 0
  | .fee => info.requestedPriorityFeeLamports.getD 0

def TransactionBucket.samples (b : TransactionBucket) : SampleKind → List Nat
  | .cuLimit => b.cuLimits
  | .cuPrice => b.cuPrices
  | .fee => b.fees

def TransactionSubmit.percentiles (e : TransactionSubmit) : SampleKind → Percentiles
  | .cuLimit => ⟨e.cuLimitP50, e.cuLimitP90, e.cuLimitP95⟩
  | .cuPrice =>
    ⟨e.cuPriceMicroLamportsP50, e.cuPriceMicroLamportsP90, e.cuPriceMicroLamportsP95⟩
  | .fee => ⟨e.requestedPriorityFeeLamportsP50, e.requestedPriorityFeeLamportsP90,
      e.requestedPriorityFeeLamportsP95⟩

def samplesOf (records : List TransactionRecord) (kind : SampleKind) : List Nat :=
  (records.flatMap (·.samples)).map (·.sample kind)

def percentilesOf (samples : List Nat) : Percentiles :=
  let sorted := samples.mergeSort (· ≤ ·)
  ⟨percentileU64 sorted 50, percentileU64 sorted 90, percentileU64 sorted 95⟩

structure NearestRanks (samples : List Nat) (ps : Percentiles) : Prop where
  nearest : samples ≠ [] → IsLeast (ranked samples (50 * samples.length ⌈/⌉ 100)) ps.p50 ∧
    IsLeast (ranked samples (90 * samples.length ⌈/⌉ 100)) ps.p90 ∧
    IsLeast (ranked samples (95 * samples.length ⌈/⌉ 100)) ps.p95
  recorded : samples ≠ [] → ps.p50 ∈ samples ∧ ps.p90 ∈ samples ∧ ps.p95 ∈ samples
  empty : samples = [] → ps = ⟨0, 0, 0⟩
  ordered : ps.p50 ≤ ps.p90 ∧ ps.p90 ≤ ps.p95

/-- The rank is from 1 to the number of samples, so the clamp changes nothing. -/
theorem rank_bounds {p n : Nat} (hp : 1 ≤ p) (hmax : p ≤ 100) (hn : 0 < n) :
    0 < p * n ⌈/⌉ 100 ∧ p * n ⌈/⌉ 100 ≤ n := by
  have hle : p * n ≤ 100 * n := Nat.mul_le_mul_right n hmax
  have hpos : 0 < p * n := Nat.mul_pos hp hn
  rw [Nat.ceilDiv_eq_add_pred_div]
  omega

theorem percentileU64_sorted {sorted : List Nat} {p : Nat} (hs : sorted.Pairwise (· ≤ ·))
    (hne : sorted ≠ []) (hp : 1 ≤ p) (hmax : p ≤ 100) :
    IsLeast (ranked sorted (p * sorted.length ⌈/⌉ 100)) (percentileU64 sorted p) := by
  have hlen : 0 < sorted.length := List.length_pos_iff.mpr hne
  have hempty : sorted.isEmpty = false := List.isEmpty_eq_false_iff.mpr hne
  have hrank : (p * sorted.length + 99) / 100 = p * sorted.length ⌈/⌉ 100 := by
    rw [Nat.ceilDiv_eq_add_pred_div]
    rfl
  obtain ⟨hpos, hle⟩ := rank_bounds hp hmax hlen
  have hk : p * sorted.length ⌈/⌉ 100 - 1 < sorted.length := by omega
  have hclamp : min (p * sorted.length ⌈/⌉ 100 - 1) (sorted.length - 1) =
      p * sorted.length ⌈/⌉ 100 - 1 := by omega
  have hleast := getElem_isLeast_ranked hs hk
  rw [Nat.sub_add_cancel hpos] at hleast
  unfold percentileU64
  simp only [hempty, Bool.false_eq_true, if_false, hrank, hclamp]
  rw [List.getD_eq_getElem?_getD, List.getElem?_eq_getElem hk, Option.getD_some]
  exact hleast

theorem percentileU64_nearest {samples : List Nat} {p : Nat} (hne : samples ≠ []) (hp : 1 ≤ p)
    (hmax : p ≤ 100) : IsLeast (ranked samples (p * samples.length ⌈/⌉ 100))
      (percentileU64 (samples.mergeSort (· ≤ ·)) p) := by
  have hperm := List.mergeSort_perm samples (· ≤ ·)
  have hsorted : samples.mergeSort (· ≤ ·) ≠ [] := by
    intro h
    rw [h] at hperm
    exact hne hperm.nil_eq.symm
  have hleast := percentileU64_sorted (mergeSort_sorted samples) hsorted hp hmax
  rwa [ranked_perm hperm, hperm.length_eq] at hleast

theorem percentileU64_mono {samples : List Nat} {p q : Nat} (hne : samples ≠ []) (hp : 1 ≤ p)
    (hpq : p ≤ q) (hmax : q ≤ 100) : percentileU64 (samples.mergeSort (· ≤ ·)) p ≤
      percentileU64 (samples.mergeSort (· ≤ ·)) q := by
  have hrank : p * samples.length ⌈/⌉ 100 ≤ q * samples.length ⌈/⌉ 100 := by
    have hle : p * samples.length ≤ q * samples.length := Nat.mul_le_mul_right _ hpq
    rw [Nat.ceilDiv_eq_add_pred_div, Nat.ceilDiv_eq_add_pred_div]
    omega
  exact (percentileU64_nearest hne (hp.trans hpq) hmax).mono
    (percentileU64_nearest hne hp (hpq.trans hmax)) (ranked_anti hrank)

theorem percentilesOf_nearest (samples : List Nat) :
    NearestRanks samples (percentilesOf samples) := by
  by_cases hne : samples = []
  · subst hne
    have hzero : percentilesOf [] = ⟨0, 0, 0⟩ := by simp [percentilesOf, percentileU64]
    rw [hzero]
    exact ⟨fun h => absurd rfl h, fun h => absurd rfl h, fun _ => rfl, le_refl 0, le_refl 0⟩
  · have h50 := percentileU64_nearest (p := 50) hne (by omega) (by omega)
    have h90 := percentileU64_nearest (p := 90) hne (by omega) (by omega)
    have h95 := percentileU64_nearest (p := 95) hne (by omega) (by omega)
    refine ⟨fun _ => ⟨h50, h90, h95⟩, fun _ => ⟨h50.1.1, h90.1.1, h95.1.1⟩,
      fun h => absurd h hne, ?_, ?_⟩
    · exact percentileU64_mono hne (by omega) (by omega) (by omega)
    · exact percentileU64_mono hne (by omega) (by omega) (by omega)

theorem percentilesOf_perm {l m : List Nat} (h : l.Perm m) : percentilesOf l = percentilesOf m := by
  unfold percentilesOf
  rw [mergeSort_eq_of_perm h]

theorem TransactionBucket.event_percentiles (b : TransactionBucket) (provider : String)
    (windowStart now : Nat) (kind : SampleKind) :
    (b.event provider windowStart now).percentiles kind = percentilesOf (b.samples kind) := by
  cases kind <;> rfl

theorem TransactionBucket.Summarises.samples {b : TransactionBucket}
    {window : List TransactionRecord} (h : b.Summarises window) (kind : SampleKind) :
    b.samples kind = samplesOf window kind := by
  cases kind with
  | cuLimit => exact h.cuLimits
  | cuPrice => exact h.cuPrices
  | fee => exact h.fees

/-! Reordering the calls between two drains. -/

def recordInto (b : Option TransactionBucket) (r : TransactionRecord) : Option TransactionBucket :=
  some ((b.getD {}).record r)

theorem samples_record (b : TransactionBucket) (r : TransactionRecord) (kind : SampleKind) :
    (b.record r).samples kind = b.samples kind ++ samplesOf [r] kind := by
  obtain ⟨hlimits, hprices, hfees⟩ := b.samples_record r
  unfold samplesOf
  rw [List.flatMap_singleton]
  cases kind with
  | cuLimit => exact hlimits
  | cuPrice => exact hprices
  | fee => exact hfees

theorem samplesOf_append (rs rs' : List TransactionRecord) (kind : SampleKind) :
    samplesOf (rs ++ rs') kind = samplesOf rs kind ++ samplesOf rs' kind := by
  simp [samplesOf]

theorem samplesOf_perm {rs rs' : List TransactionRecord} (h : rs'.Perm rs) (kind : SampleKind) :
    (samplesOf rs' kind).Perm (samplesOf rs kind) := by
  unfold samplesOf
  exact (h.flatMap_right _).map _

theorem foldl_recordInto {rs : List TransactionRecord} (b : Option TransactionBucket)
    (hne : rs ≠ []) : ∃ b', rs.foldl recordInto b = some b' ∧
      ∀ kind, b'.samples kind = (b.getD {}).samples kind ++ samplesOf rs kind := by
  induction rs using List.reverseRecOn with
  | nil => exact absurd rfl hne
  | append_singleton rs r ih =>
    rw [List.foldl_append, List.foldl_cons, List.foldl_nil]
    refine ⟨_, rfl, ?_⟩
    intro kind
    rw [samples_record, samplesOf_append]
    by_cases hrs : rs = []
    · subst hrs
      rfl
    · obtain ⟨b', hb', hsamples⟩ := ih hrs
      rw [hb', Option.getD_some, hsamples kind, List.append_assoc]

theorem foldl_recordInto_perm {rs rs' : List TransactionRecord} (h : rs'.Perm rs)
    (b : Option TransactionBucket) (kind : SampleKind) :
    (rs'.foldl recordInto b).map (fun b => percentilesOf (b.samples kind)) =
      (rs.foldl recordInto b).map (fun b => percentilesOf (b.samples kind)) := by
  by_cases hne : rs = []
  · subst hne
    rw [h.eq_nil]
  · have hne' : rs' ≠ [] := by
      intro he
      rw [he] at h
      exact hne h.nil_eq.symm
    obtain ⟨c, hc, hsamples⟩ := foldl_recordInto b hne
    obtain ⟨c', hc', hsamples'⟩ := foldl_recordInto b hne'
    have hperm := samplesOf_perm h kind
    rw [hc, hc', Option.map_some, Option.map_some, hsamples, hsamples',
      percentilesOf_perm (hperm.append_left _)]

/-- Between two drains each provider's bucket collects its own records. -/
theorem foldl_window (s : Aggregation) {window : List AggCall}
    (h : ∀ c ∈ window, c.isDrain = false) :
    (window.foldl Aggregation.after s).drains = s.drains ∧
      (window.foldl Aggregation.after s).state.windowStartMs = s.state.windowStartMs ∧
      ∀ provider, (window.foldl Aggregation.after s).state.txBuckets.lookup provider =
        (transactionsOf window provider).foldl recordInto (s.state.txBuckets.lookup provider) := by
  induction window using List.reverseRecOn with
  | nil => exact ⟨rfl, rfl, fun _ => rfl⟩
  | append_singleton window call ih =>
    have hcall : call.isDrain = false := h call (by simp)
    obtain ⟨hdrains, hstart, hlookup⟩ := ih (fun c hc => h c (List.mem_append_left _ hc))
    rw [List.foldl_append, List.foldl_cons, List.foldl_nil]
    cases call with
    | record key latencyMs count =>
      refine ⟨hdrains, hstart, ?_⟩
      intro provider
      rw [transactionsOf_other window (fun _ => rfl)]
      exact hlookup provider
    | transaction p r =>
      refine ⟨hdrains, hstart, ?_⟩
      intro provider
      have hrecords : transactionsOf (window ++ [.transaction p r]) provider =
          if provider = p then transactionsOf window provider ++ [r]
          else transactionsOf window provider :=
        congrFun (transactionsOf_record window p r) provider
      rw [hrecords]
      show (AList.insert p _ _).lookup provider = _
      by_cases hp : provider = p
      · subst hp
        rw [AList.lookup_insert, if_pos rfl, List.foldl_append, ← hlookup provider]
        rfl
      · rw [AList.lookup_insert_ne hp, if_neg hp]
        exact hlookup provider
    | drain now order => exact absurd hcall (by simp [AggCall.isDrain])

theorem drain_events (s : AggState) (now : Nat) (order : DrainOrder) (provider : String) :
    transactionEventsOf (s.drain now order).1 provider =
      (s.txBuckets.lookup provider).toList.map
        (fun b => b.event provider s.windowStartMs now) := by
  have hgave := Gave.transactionEvents
    ⟨s.windowStartMs, now, s.requestEntries order, s.transactionEntries order⟩ provider
  have hat := entries_at s.txBuckets order.transactions provider
  rw [← hat, List.map_map]
  exact hgave

theorem Aggregation.after_resume (s : Aggregation) (drains : List Drained) (call : AggCall) :
    (⟨s.state, drains ++ s.drains⟩ : Aggregation).after call =
      ⟨(s.after call).state, drains ++ (s.after call).drains⟩ := by
  cases call with
  | record key latencyMs count => rfl
  | transaction provider r => rfl
  | drain now order =>
    show (⟨_, drains ++ s.drains ++ [_]⟩ : Aggregation) = ⟨_, drains ++ (s.drains ++ [_])⟩
    rw [List.append_assoc]
    rfl

/-- What has been given out does not change what is given out later. -/
theorem foldl_resume (state : AggState) (drains : List Drained) (calls : List AggCall) :
    calls.foldl Aggregation.after ⟨state, drains⟩ =
      ⟨(calls.foldl Aggregation.after ⟨state, []⟩).state,
        drains ++ (calls.foldl Aggregation.after ⟨state, []⟩).drains⟩ := by
  induction calls using List.reverseRecOn with
  | nil => rw [List.foldl_nil, List.foldl_nil, List.append_nil]
  | append_singleton calls call ih =>
    rw [List.foldl_append, List.foldl_append, List.foldl_cons, List.foldl_nil, List.foldl_cons,
      List.foldl_nil, ih, Aggregation.after_resume]

theorem aggregation_run (startMs : Nat) (s : Aggregation) (calls : List AggCall) :
    (aggregation startMs).run s calls = some (calls.foldl Aggregation.after s) := by
  induction calls generalizing s with
  | nil => rfl
  | cons call calls ih => exact ih (s.after call)

theorem transactionEventsOf_append (events events' : List TelemetryEvent) (provider : String) :
    transactionEventsOf (events ++ events') provider =
      transactionEventsOf events provider ++ transactionEventsOf events' provider :=
  List.filterMap_append

theorem events_through_drain (s : Aggregation) {window : List AggCall}
    (h : ∀ c ∈ window, c.isDrain = false) (now : Nat) (order : DrainOrder) (after : List AggCall)
    (provider : String) (kind : SampleKind) :
    (transactionEventsOf ((window ++ .drain now order :: after).foldl Aggregation.after s).events
        provider).map (·.percentiles kind) =
      (transactionEventsOf s.events provider).map (·.percentiles kind) ++
      (((transactionsOf window provider).foldl recordInto (s.state.txBuckets.lookup provider)).map
        (fun b => percentilesOf (b.samples kind))).toList ++
      (transactionEventsOf (after.foldl Aggregation.after ⟨{ windowStartMs := now }, []⟩).events
        provider).map (·.percentiles kind) := by
  obtain ⟨hdrains, -, hlookup⟩ := foldl_window s h
  generalize hu : window.foldl Aggregation.after s = u at hdrains hlookup
  have hstep : u.after (.drain now order) =
      ⟨{ windowStartMs := now },
        s.drains ++ [⟨u.state.windowStartMs, now, (u.state.drain now order).1⟩]⟩ := by
    rw [← hdrains]
    rfl
  rw [List.foldl_append, List.foldl_cons, hu, hstep, foldl_resume]
  simp only [Aggregation.events, List.flatMap_append, List.flatMap_singleton,
    transactionEventsOf_append, List.map_append, drain_events, hlookup provider]
  congr 2
  cases (transactionsOf window provider).foldl recordInto (s.state.txBuckets.lookup provider) with
  | none => rfl
  | some b => simp [TransactionBucket.event_percentiles]

/-- `windows` are the records that each event of a provider stands for, in the order of the
events; `window'` is a stretch between two drains recorded in another order. -/
theorem nearest_rank_percentiles (startMs : Nat) (s₀ : Aggregation)
    (hinit : (aggregation startMs).init s₀) :
    (∀ samples : List Nat, samples ≠ [] → ∀ p, 1 ≤ p → p ≤ 100 →
      IsLeast (ranked samples (p * samples.length ⌈/⌉ 100))
        (percentileU64 (samples.mergeSort (· ≤ ·)) p)) ∧
      (∀ calls s, (aggregation startMs).run s₀ calls = some s → ∀ provider,
        ∃ windows rest : List _, transactionsOf calls provider = windows.flatten ++ rest ∧
          List.Forall₂ (fun e w => ∀ kind, NearestRanks (samplesOf w kind) (e.percentiles kind) ∧
            ∀ samples, samples.Perm (samplesOf w kind) → percentilesOf samples = e.percentiles kind)
            (transactionEventsOf s.events provider) windows) ∧
      ∀ before window window' after now order order' s s',
        (∀ c ∈ window, c.isDrain = false) → window'.Perm window →
        (aggregation startMs).run s₀ (before ++ (window ++ .drain now order :: after)) = some s →
        (aggregation startMs).run s₀ (before ++ (window' ++ .drain now order' :: after)) = some s' →
        ∀ provider kind,
          (transactionEventsOf s'.events provider).map (·.percentiles kind) =
            (transactionEventsOf s.events provider).map (·.percentiles kind) := by
  refine ⟨?_, ?_, ?_⟩
  · intro samples hne p hp hmax
    exact percentileU64_nearest hne hp hmax
  · intro calls s hrun provider
    obtain ⟨gave, h⟩ := aggregation_holds hinit hrun
    obtain ⟨windows, rest, hitems, -, hevents, -⟩ := h.transactionWindows provider
    refine ⟨windows, rest, hitems, hevents.imp ?_⟩
    rintro e w ⟨b, hb, he⟩ kind
    have hpercentiles : e.percentiles kind = percentilesOf (samplesOf w kind) := by
      rw [he, b.event_percentiles, hb.samples]
    rw [hpercentiles]
    exact ⟨percentilesOf_nearest _, fun samples hperm => percentilesOf_perm hperm⟩
  · intro before window window' after now order order' s s' hwindow hperm hrun hrun' provider kind
    have hwindow' : ∀ c ∈ window', c.isDrain = false :=
      fun c hc => hwindow c (hperm.mem_iff.mp hc)
    have hrecords : (transactionsOf window' provider).Perm (transactionsOf window provider) :=
      hperm.filterMap _
    rw [aggregation_run, List.foldl_append] at hrun hrun'
    rw [← Option.some.inj hrun, ← Option.some.inj hrun', events_through_drain _ hwindow,
      events_through_drain _ hwindow', foldl_recordInto_perm hrecords]

/-- A decode of one transaction that asks for `limit` compute units. -/
def decodeOf (limit : Nat) : AggCall :=
  .transaction "helius" (.decode "parsed" (some
    { cuLimit := limit, cuLimitDefaulted := false, cuPriceMicroLamports := some (limit * 10),
      requestedPriorityFeeLamports := some (limit * 100), numInstructions := 1,
      numSignatures := 1, isVersioned := false }))

theorem nearest_rank_percentiles_four :
    IsLeast (ranked [400, 100, 300, 200] 2) 200 ∧
      ∃ s s', (aggregation 0).run ⟨{ windowStartMs := 0 }, []⟩
          [decodeOf 100, decodeOf 400, .drain 7 ⟨.same _, .same _⟩] = some s ∧
        (aggregation 0).run ⟨{ windowStartMs := 0 }, []⟩
          [decodeOf 400, decodeOf 100, .drain 7 ⟨.same _, .same _⟩] = some s' ∧
        (transactionEventsOf s'.events "helius").map (·.percentiles .cuLimit) =
          (transactionEventsOf s.events "helius").map (·.percentiles .cuLimit) := by
  have hlaw := nearest_rank_percentiles 0 ⟨{ windowStartMs := 0 }, []⟩ rfl
  constructor
  · have hperm : [400, 100, 300, 200].Perm [100, 200, 300, 400] := by decide
    have hsorted : [100, 200, 300, 400].Pairwise (· ≤ ·) := by decide
    have hmedian : percentileU64 ([400, 100, 300, 200].mergeSort (· ≤ ·)) 50 = 200 := by
      rw [mergeSort_eq_of_perm hperm, List.mergeSort_eq_self (· ≤ ·) hsorted]
      rfl
    have hleast := hlaw.1 [400, 100, 300, 200] (by decide) 50 (by decide) (by decide)
    rwa [hmedian] at hleast
  · have hwindow : ∀ c ∈ [decodeOf 100, decodeOf 400], c.isDrain = false := by
      simp [decodeOf, AggCall.isDrain]
    exact ⟨_, _, rfl, rfl, hlaw.2.2 [] [decodeOf 100, decodeOf 400] [decodeOf 400, decodeOf 100] []
      7 ⟨.same _, .same _⟩ ⟨.same _, .same _⟩ _ _ hwindow (List.Perm.swap _ _ _) rfl rfl
      "helius" .cuLimit⟩

end RpcPlane
