import RpcPlane.HotReload

/-! What a token bucket lets through: never more than what it held and what has accrued since,
whatever peeks and rate changes come between. -/

namespace RpcPlane

inductive BucketOp
  | tryAcquire
  | hasCapacity
  | reconfigure (maxRps : Nat)

/-- An operation on a bucket, with the time that it reads. -/
structure BucketCall where
  time : Instant
  op : BucketOp

def BucketCall.isPeek (c : BucketCall) : Bool :=
  match c.op with
  | .hasCapacity => true
  | _ => false

def TokenBucket.after (b : TokenBucket) (c : BucketCall) : TokenBucket :=
  match c.op with
  | .tryAcquire => (b.tryAcquire c.time).2
  | .hasCapacity => (b.hasCapacity c.time).2
  | .reconfigure maxRps => b.reconfigure maxRps c.time

/-- What `try_acquire` returns, for a call of it. -/
def TokenBucket.answer (b : TokenBucket) (c : BucketCall) : Option Bool :=
  match c.op with
  | .tryAcquire => some (b.tryAcquire c.time).1
  | _ => none

def TokenBucket.run (b : TokenBucket) (calls : List BucketCall) : TokenBucket :=
  calls.foldl TokenBucket.after b

/-- The results of the `try_acquire` calls, in their order. -/
def TokenBucket.results : TokenBucket → List BucketCall → List Bool
  | _, [] => []
  | b, c :: calls => (b.answer c).toList ++ (b.after c).results calls

/-- The number of successful `try_acquire` calls. -/
def TokenBucket.acquired (b : TokenBucket) (calls : List BucketCall) : Nat :=
  (b.results calls).count true

/-- The tokens held at a time, those that have accrued by then included. -/
def TokenBucket.heldAt (b : TokenBucket) (now : Instant) : ℚ := (b.refill now).tokens

def TimeOrdered (start : Instant) (calls : List BucketCall) : Prop :=
  (start :: calls.map BucketCall.time).Pairwise (· ≤ ·)

/-- Rate times length, over the pieces of `[s, t]` between the reconfigurations. -/
def accrued (rate : ℚ) (s t : Instant) : List BucketCall → ℚ
  | [] => rate * seconds (t - s)
  | c :: calls =>
    match c.op with
    | .reconfigure maxRps => rate * seconds (c.time - s) + accrued maxRps c.time t calls
    | _ => accrued rate s t calls

/-! Refilling. -/

theorem seconds_add (m n : Nat) : seconds (m + n) = seconds m + seconds n := by
  unfold seconds
  rw [Nat.cast_add, add_div]

theorem seconds_mono {m n : Nat} (h : m ≤ n) : seconds m ≤ seconds n := by
  obtain ⟨k, rfl⟩ := Nat.exists_eq_add_of_le h
  rw [seconds_add]
  exact le_add_of_nonneg_right (seconds_nonneg k)

attribute [ext] TokenBucket

section refill

variable (b : TokenBucket) (now : Instant)

@[simp] theorem TokenBucket.refill_capacity : (b.refill now).capacity = b.capacity := by
  unfold refill
  split <;> rfl

@[simp] theorem TokenBucket.refill_rate : (b.refill now).rate = b.rate := by
  unfold refill
  split <;> rfl

theorem TokenBucket.refill_last : (b.refill now).last = max b.last now := by
  by_cases h : b.last < now
  · rw [refill, if_pos h, max_eq_right h.le]
  · rw [refill, if_neg h, max_eq_left (not_lt.mp h)]

/-- The time that has passed may be zero or less: then nothing is added. -/
theorem TokenBucket.refill_tokens :
    (b.refill now).tokens = min (b.tokens + seconds (now - b.last) * b.rate) b.capacity := by
  by_cases h : b.last < now
  · rw [refill, if_pos h]
  · have hpassed : now - b.last = 0 := Nat.sub_eq_zero_of_le (not_lt.mp h)
    have hzero : seconds 0 = 0 := by simp [seconds]
    rw [refill, if_neg h, hpassed, hzero, zero_mul, add_zero, min_eq_left b.tokens_le]

end refill

theorem passed_split (last : Nat) {s t : Nat} (h : s ≤ t) :
    t - last = (s - last) + (t - max last s) := by
  omega

/-- A refill in between creates no token and loses none. -/
theorem TokenBucket.refill_refill (b : TokenBucket) {s t : Instant} (h : s ≤ t) :
    (b.refill s).refill t = b.refill t := by
  have hlast : ((b.refill s).refill t).last = (b.refill t).last := by
    simp only [refill_last, max_assoc, max_eq_right h]
  have htokens : ((b.refill s).refill t).tokens = (b.refill t).tokens := by
    have hrest : 0 ≤ seconds (t - max b.last s) * b.rate := mul_nonneg (seconds_nonneg _) b.rate_nonneg
    simp only [refill_tokens, refill_last, refill_rate, refill_capacity]
    rw [passed_split b.last h, seconds_add, add_mul, ← add_assoc, min_add, min_assoc,
      min_eq_right (le_add_of_nonneg_right hrest)]
  apply TokenBucket.ext htokens _ _ hlast <;> simp

/-! The bound. -/

section bound

variable {b : TokenBucket} {c : BucketCall} {s t : Instant}

theorem TokenBucket.heldAt_nonneg (b : TokenBucket) (now : Instant) : 0 ≤ b.heldAt now :=
  (b.refill now).tokens_nonneg

theorem TokenBucket.heldAt_le_capacity (b : TokenBucket) (now : Instant) : b.heldAt now ≤ b.capacity :=
  (b.refill now).tokens_le.trans_eq (b.refill_capacity now)

theorem TokenBucket.heldAt_le (b : TokenBucket) (h : s ≤ t) :
    b.heldAt t ≤ b.heldAt s + b.rate * seconds (t - s) := by
  have hpassed : seconds (t - max b.last s) ≤ seconds (t - s) :=
    seconds_mono (Nat.sub_le_sub_left (le_max_right b.last s) t)
  calc b.heldAt t = ((b.refill s).refill t).tokens := by rw [b.refill_refill h, heldAt]
    _ ≤ (b.refill s).tokens + seconds (t - max b.last s) * b.rate := by
        rw [refill_tokens, refill_last, refill_rate]
        exact min_le_left _ _
    _ ≤ b.heldAt s + b.rate * seconds (t - s) := by
        rw [heldAt, mul_comm b.rate]
        exact add_le_add_right (mul_le_mul_of_nonneg_right hpassed b.rate_nonneg) _

theorem TokenBucket.heldAt_of_last (h : t ≤ b.last) : b.heldAt t = b.tokens := by
  have hno : ¬ b.last < t := not_lt.mpr h
  rw [heldAt, refill, if_neg hno]

theorem TokenBucket.after_last : (b.after c).last = max b.last c.time := by
  unfold after
  cases c.op with
  | tryAcquire =>
    unfold tryAcquire
    by_cases h : 1 ≤ (b.refill c.time).tokens
    · simp [h, refill_last]
    · simp [h, refill_last]
  | hasCapacity => exact b.refill_last c.time
  | reconfigure maxRps => exact b.refill_last c.time

theorem TokenBucket.answer_add_heldAt_le :
    (((b.answer c).toList.count true : Nat) : ℚ) + (b.after c).heldAt c.time ≤ b.heldAt c.time := by
  have hlast : c.time ≤ (b.after c).last := b.after_last (c := c) ▸ le_max_right _ _
  rw [heldAt_of_last hlast, heldAt]
  unfold answer after
  cases c.op with
  | tryAcquire =>
    unfold tryAcquire
    by_cases h : 1 ≤ (b.refill c.time).tokens
    · simp [h]
    · simp [h]
  | hasCapacity => simp [hasCapacity]
  | reconfigure maxRps => simp [reconfigure]

theorem TokenBucket.after_rate :
    (∃ maxRps, c.op = .reconfigure maxRps ∧ (b.after c).rate = maxRps) ∨
      (∀ maxRps, c.op ≠ .reconfigure maxRps) ∧ (b.after c).rate = b.rate := by
  unfold after
  cases c.op with
  | tryAcquire =>
    refine .inr ⟨by simp, ?_⟩
    unfold tryAcquire
    by_cases h : 1 ≤ (b.refill c.time).tokens
    · simp [h]
    · simp [h]
  | hasCapacity => exact .inr ⟨by simp, b.refill_rate c.time⟩
  | reconfigure maxRps => exact .inl ⟨maxRps, rfl, rfl⟩

theorem TimeOrdered.uncons {calls : List BucketCall} (ho : TimeOrdered s (c :: calls)) :
    s ≤ c.time ∧ TimeOrdered c.time calls ∧ ∀ c' ∈ calls, c.time ≤ c'.time := by
  obtain ⟨hs, hrest⟩ := List.pairwise_cons.mp ho
  refine ⟨hs c.time (by simp), hrest, ?_⟩
  intro c' hc'
  exact (List.pairwise_cons.mp hrest).1 c'.time (List.mem_map_of_mem hc')

theorem accrued_split (rate : ℚ) (calls : List BucketCall) {u : Instant} (hs : s ≤ u) (ht : u ≤ t)
    (hu : ∀ c ∈ calls, u ≤ c.time) :
    accrued rate s t calls = rate * seconds (u - s) + accrued rate u t calls := by
  have hsplit : ∀ v : Instant, u ≤ v →
      rate * seconds (v - s) = rate * seconds (u - s) + rate * seconds (v - u) := by
    intro v hv
    rw [← mul_add, ← seconds_add, add_comm, Nat.sub_add_sub_cancel hv hs]
  induction calls with
  | nil => exact hsplit t ht
  | cons c calls ih =>
    have hrest := ih (fun c' hc' => hu c' (List.mem_cons_of_mem _ hc'))
    have hc := hsplit c.time (hu c List.mem_cons_self)
    unfold accrued
    cases c.op with
    | reconfigure maxRps => simp only [hc, add_assoc]
    | _ => exact hrest

theorem accrued_cons (hs : s ≤ c.time) (ht : c.time ≤ t) {calls : List BucketCall}
    (hc : ∀ c' ∈ calls, c.time ≤ c'.time) :
    accrued b.rate s t (c :: calls) =
      b.rate * seconds (c.time - s) + accrued (b.after c).rate c.time t calls := by
  rcases b.after_rate (c := c) with ⟨maxRps, hop, hrate⟩ | ⟨hop, hrate⟩
  · rw [hrate, accrued, hop]
  · rw [hrate, ← accrued_split b.rate calls hs ht hc, accrued]
    split
    · exact absurd ‹_› (hop _)
    · rfl

/-- Tokens taken and tokens held at the end: all of them were held at the start or accrued. -/
theorem TokenBucket.acquired_add_heldAt_le (b : TokenBucket) (calls : List BucketCall)
    (ho : TimeOrdered s calls) (hst : s ≤ t) (ht : ∀ c ∈ calls, c.time ≤ t) :
    (b.acquired calls : ℚ) + (b.run calls).heldAt t ≤ b.heldAt s + accrued b.rate s t calls := by
  induction calls generalizing b s with
  | nil =>
    have hheld := b.heldAt_le hst
    simpa [acquired, results, run, accrued] using hheld
  | cons c calls ih =>
    obtain ⟨hsc, hrest, hnext⟩ := ho.uncons
    have hct : c.time ≤ t := ht c List.mem_cons_self
    have htail := ih (b.after c) hrest hct (fun c' hc' => ht c' (List.mem_cons_of_mem _ hc'))
    have hstep := b.answer_add_heldAt_le (c := c)
    have hwait := b.heldAt_le hsc
    have hcount : b.acquired (c :: calls) =
        (b.answer c).toList.count true + (b.after c).acquired calls := by
      rw [acquired, results, List.count_append, acquired]
    have hrun : b.run (c :: calls) = (b.after c).run calls := rfl
    rw [hcount, hrun, accrued_cons hsc hct hnext, Nat.cast_add]
    linarith

theorem accrued_constant {rate : ℚ} {calls : List BucketCall} (ho : TimeOrdered s calls) (hst : s ≤ t)
    (ht : ∀ c ∈ calls, c.time ≤ t)
    (hr : ∀ c ∈ calls, ∀ maxRps, c.op = .reconfigure maxRps → (maxRps : ℚ) = rate) :
    accrued rate s t calls = rate * seconds (t - s) := by
  induction calls generalizing s with
  | nil => rfl
  | cons c calls ih =>
    obtain ⟨hsc, hrest, hnext⟩ := ho.uncons
    have hct : c.time ≤ t := ht c List.mem_cons_self
    have htail := ih hrest hct (fun c' hc' => ht c' (List.mem_cons_of_mem _ hc'))
      (fun c' hc' => hr c' (List.mem_cons_of_mem _ hc'))
    have hsum : rate * seconds (c.time - s) + accrued rate c.time t calls = rate * seconds (t - s) := by
      rw [htail, ← mul_add, ← seconds_add, add_comm, Nat.sub_add_sub_cancel hct hsc]
    have hc := hr c List.mem_cons_self
    unfold accrued
    cases hop : c.op with
    | reconfigure maxRps =>
      simp only [hc maxRps hop]
      exact hsum
    | _ => exact (accrued_split rate calls hsc hct hnext).trans hsum

/-- The burst is one second of the rate. -/
theorem TokenBucket.run_capacity (h : b.capacity = b.rate) (calls : List BucketCall) :
    (b.run calls).capacity = (b.run calls).rate := by
  induction calls generalizing b with
  | nil => exact h
  | cons c calls ih =>
    have hafter : (b.after c).capacity = (b.after c).rate := by
      unfold after
      cases c.op with
      | tryAcquire =>
        unfold tryAcquire
        by_cases hone : 1 ≤ (b.refill c.time).tokens
        · simp [hone, h]
        · simp [hone, h]
      | hasCapacity => simp [hasCapacity, h]
      | reconfigure maxRps => rfl
    exact ih hafter

end bound

/-! Peeks. -/

section peeks

variable {b b' : TokenBucket} {c : BucketCall}

/-- A call reads the bucket as it is after its refill. -/
theorem TokenBucket.call_congr (h : b.refill c.time = b'.refill c.time) :
    b.answer c = b'.answer c ∧ b.after c = b'.after c := by
  unfold answer after
  cases c.op with
  | tryAcquire => simp only [tryAcquire, h, and_self]
  | hasCapacity => simp only [hasCapacity, h, and_self]
  | reconfigure maxRps => simp only [reconfigure, h, and_self]

theorem TokenBucket.isPeek_after (h : c.isPeek = true) : b.answer c = none ∧ b.after c = b.refill c.time := by
  unfold BucketCall.isPeek at h
  unfold answer after
  cases hop : c.op with
  | hasCapacity => exact ⟨rfl, rfl⟩
  | _ => simp [hop] at h

/-- Two buckets that a refill makes equal answer alike, the one with the peeks and the other
without them. -/
theorem TokenBucket.results_filter_peeks {start : Instant} {calls : List BucketCall}
    (ho : TimeOrdered start calls) (h : ∀ c ∈ calls, b.refill c.time = b'.refill c.time) :
    b.results calls = b'.results (calls.filter (!·.isPeek)) := by
  induction calls generalizing b b' start with
  | nil => rfl
  | cons c calls ih =>
    obtain ⟨-, hrest, htimes⟩ := ho.uncons
    have hc := h c List.mem_cons_self
    have hcalls : ∀ c' ∈ calls, b.refill c'.time = b'.refill c'.time :=
      fun c' hc' => h c' (List.mem_cons_of_mem _ hc')
    cases hpeek : c.isPeek with
    | true =>
      obtain ⟨hanswer, hafter⟩ := isPeek_after (b := b) hpeek
      have hnext : ∀ c' ∈ calls, (b.refill c.time).refill c'.time = b'.refill c'.time := by
        intro c' hc'
        rw [b.refill_refill (htimes c' hc'), hcalls c' hc']
      rw [List.filter_cons_of_neg (by simp [hpeek]), results, hanswer, hafter]
      exact ih hrest hnext
    | false =>
      obtain ⟨hanswer, hafter⟩ := call_congr hc
      rw [List.filter_cons_of_pos (by simp [hpeek]), results, results, hanswer, hafter]
      exact congrArg _ (ih hrest (fun _ _ => rfl))

end peeks

/-- In any interval a bucket lets through what it held and what accrued, at a constant rate no
more than one second's burst above the rate, and no peek changes what is let through. -/
theorem token_bucket_law (maxRps : Nat) (start : Instant) (calls : List BucketCall)
    (ho : TimeOrdered start calls) :
    let b := TokenBucket.new maxRps start
    (0 ≤ (b.run calls).tokens ∧ (b.run calls).tokens ≤ (b.run calls).capacity) ∧
      (∀ (before during after : List BucketCall) (s t : Instant), calls = before ++ during ++ after →
        (∀ c ∈ before, c.time ≤ s) → s ≤ t → (∀ c ∈ during, s ≤ c.time ∧ c.time ≤ t) →
          ((b.run before).acquired during : ℚ) ≤
              (b.run before).heldAt s + accrued (b.run before).rate s t during ∧
            ∀ rate : ℚ, (b.run before).rate = rate →
              (∀ c ∈ during, ∀ newRps : Nat, c.op = .reconfigure newRps → (newRps : ℚ) = rate) →
                ((b.run before).acquired during : ℚ) ≤ rate + rate * seconds (t - s)) ∧
      ∀ others : List BucketCall, TimeOrdered start others →
        others.filter (!·.isPeek) = calls.filter (!·.isPeek) → b.results others = b.results calls := by
  intro b
  refine ⟨⟨(b.run calls).tokens_nonneg, (b.run calls).tokens_le⟩, ?_, ?_⟩
  · intro before during after s t hcalls hbefore hst hduring
    have hinside : TimeOrdered s during := by
      refine List.pairwise_cons.mpr ⟨?_, ?_⟩
      · intro time htime
        obtain ⟨c, hc, rfl⟩ := List.mem_map.mp htime
        exact (hduring c hc).1
      · have hsub : List.Sublist (during.map BucketCall.time) (calls.map BucketCall.time) := by
          rw [hcalls, List.append_assoc]
          exact ((List.sublist_append_left during after).trans
            (List.sublist_append_right before (during ++ after))).map _
        exact (List.pairwise_cons.mp ho).2.sublist hsub
    have hle : ∀ c ∈ during, c.time ≤ t := fun c hc => (hduring c hc).2
    have hbound : ((b.run before).acquired during : ℚ) ≤
        (b.run before).heldAt s + accrued (b.run before).rate s t during := by
      have hsum := (b.run before).acquired_add_heldAt_le during hinside hst hle
      have hend := ((b.run before).run during).heldAt_nonneg t
      linarith
    refine ⟨hbound, ?_⟩
    intro rate hrate hconst
    have hburst := (b.run before).heldAt_le_capacity s
    rw [b.run_capacity rfl before, hrate] at hburst
    rw [hrate, accrued_constant hinside hst hle hconst] at hbound
    exact hbound.trans (add_le_add_left hburst _)
  · intro others hothers hsame
    rw [TokenBucket.results_filter_peeks hothers (fun _ _ => rfl),
      TokenBucket.results_filter_peeks ho (fun _ _ => rfl), hsame]

/-- Two calls spend the burst, and after half a second at two tokens a second there is one more. -/
def burstCalls : List BucketCall :=
  [⟨0, .tryAcquire⟩, ⟨0, .tryAcquire⟩, ⟨250000000, .hasCapacity⟩, ⟨500000000, .tryAcquire⟩]

theorem token_bucket_law_burst :
    (TokenBucket.new 2 0).results burstCalls = [true, true, true] ∧
      ((TokenBucket.new 2 0).acquired burstCalls : ℚ) ≤ 2 + 2 * seconds 500000000 := by
  have ho : TimeOrdered 0 burstCalls := by simp [TimeOrdered, burstCalls]
  have hlaw := (token_bucket_law 2 0 burstCalls ho).2.1 [] burstCalls [] 0 500000000 rfl
    (by simp) (by decide) (by simp [burstCalls])
  exact ⟨by decide +kernel, hlaw.2 2 rfl (by simp [burstCalls])⟩

end RpcPlane
