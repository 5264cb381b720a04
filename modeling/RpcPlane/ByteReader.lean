import Mathlib.Data.List.Basic
import Mathlib.Data.Nat.Digits.Defs
import Mathlib.Data.Vector.Basic
import Mathlib.Tactic.Ring

/-! Reading an input from a position: a cursor that cannot leave its input, readers that may
fail, what a reader makes of a word that comes next, and little-endian numbers. -/

namespace RpcPlane

/-- A position in an input, never past its end. -/
structure Cursor (τ : Type) where
  bytes : List τ
  pos : Nat
  inside : pos ≤ bytes.length

variable {τ ε α β κ ι : Type}

def Cursor.new (bytes : List τ) : Cursor τ := ⟨bytes, 0, Nat.zero_le _⟩

def Cursor.remaining (c : Cursor τ) : Nat := c.bytes.length - c.pos

def Cursor.rest (c : Cursor τ) : List τ := c.bytes.drop c.pos

def Cursor.advance (c : Cursor τ) (n : Nat) : Cursor τ :=
  ⟨c.bytes, min (c.pos + n) c.bytes.length, Nat.min_le_right _ _⟩

abbrev Reader (τ ε α : Type) := StateT (Cursor τ) (Except ε) α

namespace Reader

def fail (e : ε) : Reader τ ε α := fun _ => .error e

def ofExcept (x : Except ε α) : Reader τ ε α := fun c => x.map (·, c)

/-- The next `len` elements; the end of the read is a 64-bit position. -/
def takeOr (short : ε) (len : Nat) : Reader τ ε (List τ) := fun c =>
  if 2 ^ 64 ≤ c.pos + len then .error short
  else if h : c.pos + len ≤ c.bytes.length then
    .ok (c.rest.take len, ⟨c.bytes, c.pos + len, h⟩)
  else .error short

def remaining : Reader τ ε Nat := fun c => .ok (c.remaining, c)

/-- A loop over `keys` that carries a value. -/
def each (keys : List κ) (body : κ → β → Reader τ ε β) (b : β) : Reader τ ε β :=
  match keys with
  | [] => pure b
  | k :: rest => do
    let b ← body k b
    each rest body b

end Reader

open Reader

theorem Cursor.rest_length (c : Cursor τ) : c.rest.length = c.remaining := by
  simp [rest, remaining]

@[simp] theorem Cursor.new_rest (bytes : List τ) : (Cursor.new bytes).rest = bytes := rfl

theorem Cursor.advance_rest (c : Cursor τ) (n : Nat) : (c.advance n).rest = c.rest.drop n := by
  simp only [rest, advance, List.drop_drop]
  by_cases h : c.pos + n ≤ c.bytes.length
  · rw [min_eq_left h]
  · rw [min_eq_right (by omega), List.drop_eq_nil_of_le (le_refl _),
      List.drop_eq_nil_of_le (by omega)]

theorem Cursor.advance_advance (c : Cursor τ) (m n : Nat) :
    (c.advance m).advance n = c.advance (m + n) := by
  simp only [advance, Cursor.mk.injEq, true_and]
  omega

@[simp] theorem Cursor.advance_zero (c : Cursor τ) : c.advance 0 = c := by
  have h := c.inside
  cases c
  simp only [advance, Nat.add_zero, Cursor.mk.injEq, true_and] at *
  omega

/-! What a composition does once its first part has ended. -/

theorem ok_bind {x : Except ε α} {a : α} (h : x = .ok a) (f : α → Except ε β) :
    (x >>= f) = f a := by
  subst h
  rfl

theorem Reader.bind_of_ok {p : Reader τ ε α} {c c' : Cursor τ} {a : α} (h : p c = .ok (a, c'))
    (f : α → Reader τ ε β) : (p >>= f) c = f a c' :=
  ok_bind h (fun ac => f ac.1 ac.2)

theorem Reader.bind_error {p : Reader τ ε α} {c : Cursor τ} {e : ε} (h : p c = .error e)
    (f : α → Reader τ ε β) : (p >>= f) c = .error e := by
  change (p c >>= fun ac => f ac.1 ac.2) = _
  rw [h]
  rfl

/-! Inversion: what a reader that succeeds has done. -/

theorem Reader.bind_ok {p : Reader τ ε α} {f : α → Reader τ ε β} {c c' : Cursor τ} {b : β} :
    (p >>= f) c = .ok (b, c') ↔ ∃ a c₁, p c = .ok (a, c₁) ∧ f a c₁ = .ok (b, c') := by
  change (p c >>= fun ac => f ac.1 ac.2) = _ ↔ _
  cases hp : p c with
  | error e => simp [bind, Except.bind]
  | ok ac =>
    obtain ⟨a, c₁⟩ := ac
    simp [bind, Except.bind]

theorem Reader.pure_ok {c c' : Cursor τ} {a b : α} :
    (pure a : Reader τ ε α) c = .ok (b, c') ↔ a = b ∧ c = c' := by
  change Except.ok (a, c) = Except.ok (b, c') ↔ a = b ∧ c = c'
  rw [Except.ok.injEq, Prod.mk.injEq]

theorem Reader.fail_ok {c c' : Cursor τ} {e : ε} {a : α} :
    (fail e : Reader τ ε α) c = .ok (a, c') ↔ False := by
  simp [fail]

theorem Reader.ofExcept_ok {x : Except ε α} {c c' : Cursor τ} {a : α} :
    Reader.ofExcept x c = .ok (a, c') ↔ x = .ok a ∧ c = c' := by
  cases x <;> simp [Reader.ofExcept, Except.map]

theorem Reader.remaining_ok {c c' : Cursor τ} {n : Nat}
    (h : (remaining : Reader τ ε Nat) c = .ok (n, c')) : n = c.rest.length ∧ c = c' := by
  obtain ⟨rfl, rfl⟩ := Prod.mk.inj (Except.ok.inj h)
  exact ⟨c.rest_length.symm, rfl⟩

theorem Reader.takeOr_ok {short : ε} {len : Nat} {c c' : Cursor τ} {s : List τ}
    (h : takeOr short len c = .ok (s, c')) : s.length = len ∧ c.rest = s ++ c'.rest := by
  unfold takeOr at h
  split_ifs at h with hbig hin
  obtain ⟨rfl, rfl⟩ := Prod.mk.inj (Except.ok.inj h)
  have hlen := c.rest_length
  have hrest : (⟨c.bytes, c.pos + len, hin⟩ : Cursor τ).rest = c.rest.drop len := by
    simp [Cursor.rest, List.drop_drop]
  refine ⟨?_, ?_⟩
  · rw [List.length_take, hlen, Cursor.remaining]
    omega
  · rw [hrest, List.take_append_drop]

/-- When each turn reads the word of an item, the loop reads the words of a list of items. -/
theorem Reader.each_ok {word : ι → List τ} (step : β → κ → ι → Except ε β) {P : ι → Prop}
    {body : κ → β → Reader τ ε β}
    (hbody : ∀ k b c b' c', body k b c = .ok (b', c') →
      ∃ x, P x ∧ c.rest = word x ++ c'.rest ∧ step b k x = .ok b')
    {keys : List κ} {b b' : β} {c c' : Cursor τ} (h : each keys body b c = .ok (b', c')) :
    ∃ xs : List ι, xs.length = keys.length ∧ (∀ x ∈ xs, P x) ∧
      c.rest = xs.flatMap word ++ c'.rest ∧
      (keys.zip xs).foldlM (fun b kx => step b kx.1 kx.2) b = .ok b' := by
  induction keys generalizing b c with
  | nil =>
    obtain ⟨rfl, rfl⟩ := Reader.pure_ok.mp h
    exact ⟨[], rfl, by simp, rfl, rfl⟩
  | cons k rest ih =>
    obtain ⟨b₁, c₁, hk, hrest⟩ := Reader.bind_ok.mp h
    obtain ⟨x, hx, hw, hs⟩ := hbody _ _ _ _ _ hk
    obtain ⟨xs, hlen, hxs, hws, hfold⟩ := ih hrest
    refine ⟨x :: xs, by simp [hlen], ?_, ?_, ?_⟩
    · simpa using ⟨hx, hxs⟩
    · rw [hw, hws, List.flatMap_cons, List.append_assoc]
    · rw [List.zip_cons_cons, List.foldlM_cons, hs]
      exact hfold

/-! Where a word comes next, a reader consumes it and ends as `r` says. -/

def Reads (p : Reader τ ε α) (w : List τ) (r : Except ε α) : Prop :=
  ∀ c tail, c.rest = w ++ tail → c.pos + w.length < 2 ^ 64 →
    p c = r.map (fun a => (a, c.advance w.length))

theorem Reads.pure (a : α) : Reads (pure a : Reader τ ε α) [] (.ok a) := by
  intro c tail _ _
  rw [List.length_nil, c.advance_zero]
  rfl

theorem Reads.ofExcept (x : Except ε α) : Reads (Reader.ofExcept x : Reader τ ε α) [] x := by
  intro c tail _ _
  rw [List.length_nil, c.advance_zero]
  rfl

theorem Reads.takeOr (short : ε) {w : List τ} {len : Nat} (h : w.length = len) :
    Reads (Reader.takeOr short len) w (.ok w) := by
  intro c tail hrest hfit
  subst h
  have hlen : c.pos + w.length ≤ c.bytes.length := by
    have hr := congrArg List.length hrest
    rw [c.rest_length, List.length_append, Cursor.remaining] at hr
    have hin := c.inside
    omega
  have hadvance : c.advance w.length = ⟨c.bytes, c.pos + w.length, hlen⟩ := by
    simp [Cursor.advance, hlen]
  rw [Reader.takeOr, if_neg (by omega), dif_pos hlen, hrest, List.take_left, hadvance]
  rfl

theorem Reads.bind {p : Reader τ ε α} {f : α → Reader τ ε β} {w w' : List τ} {a : α}
    {r : Except ε β} (hp : Reads p w (.ok a)) (hf : Reads (f a) w' r) :
    Reads (p >>= f) (w ++ w') r := by
  intro c tail hrest hfit
  rw [List.append_assoc] at hrest
  rw [List.length_append] at hfit
  have hfirst := hp c (w' ++ tail) hrest (by omega)
  have hmid : (c.advance w.length).rest = w' ++ tail := by
    rw [c.advance_rest, hrest, List.drop_left]
  have hpos : (c.advance w.length).pos ≤ c.pos + w.length := Nat.min_le_left _ _
  have hsecond := hf (c.advance w.length) tail hmid (by omega)
  rw [c.advance_advance, ← List.length_append] at hsecond
  rw [Reader.bind_of_ok hfirst]
  exact hsecond

theorem Reads.ofExcept_bind {x : Except ε α} {f : α → Reader τ ε β} {w : List τ} {a : α}
    {r : Except ε β} (hx : x = .ok a) (hf : Reads (f a) w r) :
    Reads (Reader.ofExcept x >>= f) w r := by
  subst hx
  exact (Reads.ofExcept (.ok a)).bind hf

theorem Reads.bind_nil {p : Reader τ ε α} {f : α → Reader τ ε β} {w : List τ} {a : α}
    {r : Except ε β} (hp : Reads p w (.ok a)) (hf : Reads (f a) [] r) :
    Reads (p >>= f) w r := by
  have hread := hp.bind hf
  rwa [List.append_nil] at hread

/-- A reader that fails on a word fails on what begins with it. -/
theorem Reads.error_append {p : Reader τ ε α} {w : List τ} {e : ε} (hp : Reads p w (.error e))
    (w' : List τ) : Reads p (w ++ w') (.error e) := by
  intro c tail hrest hfit
  rw [List.append_assoc] at hrest
  rw [List.length_append] at hfit
  exact hp c (w' ++ tail) hrest (by omega)

theorem Reads.bind_error {p : Reader τ ε α} {f : α → Reader τ ε β} {w : List τ} {e : ε}
    (hp : Reads p w (.error e)) : Reads (p >>= f) w (.error e) := by
  intro c tail hrest hfit
  exact Reader.bind_error (hp c tail hrest hfit) f

theorem Reads.bind_pure {p : Reader τ ε α} {w : List τ} {r : Except ε α} (hp : Reads p w r)
    (g : α → β) : Reads (p >>= fun a => Pure.pure (g a)) w (r.map g) := by
  cases r with
  | error e => exact hp.bind_error
  | ok a => exact hp.bind_nil (Reads.pure (g a))

theorem Reads.each {word : ι → List τ} {step : β → κ → ι → Except ε β}
    {body : κ → β → Reader τ ε β} {keys : List κ} {xs : List ι} (hlen : xs.length = keys.length)
    (hbody : ∀ k b, ∀ x ∈ xs, Reads (body k b) (word x) (step b k x)) (b : β) :
    Reads (Reader.each keys body b) (xs.flatMap word)
      ((keys.zip xs).foldlM (fun b kx => step b kx.1 kx.2) b) := by
  induction keys generalizing xs b with
  | nil =>
    obtain rfl := List.length_eq_zero_iff.mp hlen
    exact Reads.pure b
  | cons k rest ih =>
    cases xs with
    | nil => simp at hlen
    | cons x xs =>
      have hone := hbody k b x List.mem_cons_self
      rw [List.zip_cons_cons, List.foldlM_cons, List.flatMap_cons]
      cases hs : step b k x with
      | error e =>
        rw [hs] at hone
        exact hone.bind_error.error_append _
      | ok b₁ =>
        rw [hs] at hone
        refine hone.bind (ih (by simpa using hlen) ?_ b₁)
        exact fun k b y hy => hbody k b y (List.mem_cons_of_mem _ hy)

/-! A loop that only counts folds over the items. -/

theorem foldlM_zip_snd (step : β → ι → Except ε β) {keys : List κ} {xs : List ι}
    (h : xs.length = keys.length) (b : β) :
    (keys.zip xs).foldlM (fun b kx => step b kx.2) b = xs.foldlM step b := by
  have hsnd : (keys.zip xs).map Prod.snd = xs := List.map_snd_zip (by omega)
  calc (keys.zip xs).foldlM (fun b kx => step b kx.2) b
      = ((keys.zip xs).map Prod.snd).foldlM step b := (List.foldlM_map ..).symm
    _ = xs.foldlM step b := by rw [hsnd]

theorem Reads.times {word : ι → List τ} {step : β → ι → Except ε β} {body : β → Reader τ ε β}
    {xs : List ι} (hbody : ∀ b, ∀ x ∈ xs, Reads (body b) (word x) (step b x)) (b : β) :
    Reads (Reader.each (List.range xs.length) (fun _ => body) b) (xs.flatMap word)
      (xs.foldlM step b) := by
  have hlen : xs.length = (List.range xs.length).length := by simp
  rw [← foldlM_zip_snd step hlen]
  exact Reads.each hlen (fun _ => hbody) b

theorem Reader.times_ok {word : ι → List τ} {step : β → ι → Except ε β} {P : ι → Prop}
    {body : β → Reader τ ε β}
    (hbody : ∀ b c b' c', body b c = .ok (b', c') →
      ∃ x, P x ∧ c.rest = word x ++ c'.rest ∧ step b x = .ok b')
    {n : Nat} {b b' : β} {c c' : Cursor τ}
    (h : each (List.range n) (fun _ => body) b c = .ok (b', c')) :
    ∃ xs : List ι, xs.length = n ∧ (∀ x ∈ xs, P x) ∧ c.rest = xs.flatMap word ++ c'.rest ∧
      xs.foldlM step b = .ok b' := by
  obtain ⟨xs, hlen, hall, hrest, hfold⟩ := each_ok (fun b _ x => step b x) (fun _ => hbody) h
  rw [foldlM_zip_snd step hlen] at hfold
  exact ⟨xs, by simpa using hlen, hall, hrest, hfold⟩

/-! Where nothing but a word is left, a reader ends as `r` says. -/

def ReadsAll (p : Reader τ ε α) (w : List τ) (r : Except ε α) : Prop :=
  ∀ c, c.rest = w → c.pos + w.length < 2 ^ 64 → (p c).map Prod.fst = r

theorem ReadsAll.pure (a : α) (w : List τ) : ReadsAll (pure a : Reader τ ε α) w (.ok a) :=
  fun _ _ _ => rfl

theorem Reads.bind_all {p : Reader τ ε α} {f : α → Reader τ ε β} {w w' : List τ} {a : α}
    {r : Except ε β} (hp : Reads p w (.ok a)) (hf : ReadsAll (f a) w' r) :
    ReadsAll (p >>= f) (w ++ w') r := by
  intro c hrest hfit
  rw [List.length_append] at hfit
  have hfirst := hp c w' hrest (by omega)
  have hmid : (c.advance w.length).rest = w' := by
    rw [c.advance_rest, hrest, List.drop_left]
  have hpos : (c.advance w.length).pos ≤ c.pos + w.length := Nat.min_le_left _ _
  have hsecond := hf (c.advance w.length) hmid (by omega)
  rw [Reader.bind_of_ok hfirst]
  exact hsecond

theorem Reads.ofExcept_bind_all {x : Except ε α} {f : α → Reader τ ε β} {w : List τ} {a : α}
    {r : Except ε β} (hx : x = .ok a) (hf : ReadsAll (f a) w r) :
    ReadsAll (Reader.ofExcept x >>= f) w r := by
  subst hx
  exact (Reads.ofExcept (.ok a)).bind_all hf

theorem ReadsAll.error {p : Reader τ ε α} {w : List τ} {e : ε} (hp : Reads p w (.error e))
    (w' : List τ) : ReadsAll p (w ++ w') (.error e) := by
  intro c hrest hfit
  rw [List.length_append] at hfit
  rw [hp c w' hrest (by omega)]
  rfl

theorem ReadsAll.remaining {f : Nat → Reader τ ε β} {w : List τ} {r : Except ε β}
    (hf : ReadsAll (f w.length) w r) : ReadsAll (Reader.remaining >>= f) w r := by
  intro c hrest hfit
  have hlen : c.remaining = w.length := by rw [← c.rest_length, hrest]
  change (f c.remaining c).map Prod.fst = r
  rw [hlen]
  exact hf c hrest hfit

/-! A list cut into pieces of given lengths. -/

theorem exists_pieces {l : List τ} {lengths : List Nat} (h : l.length = lengths.sum) :
    ∃ pieces : List (List τ), pieces.map List.length = lengths ∧ pieces.flatten = l := by
  induction lengths generalizing l with
  | nil => exact ⟨[], rfl, (List.length_eq_zero_iff.mp h).symm⟩
  | cons n rest ih =>
    rw [List.sum_cons] at h
    obtain ⟨pieces, hlen, hflat⟩ := ih (l := l.drop n) (by rw [List.length_drop]; omega)
    refine ⟨l.take n :: pieces, ?_, ?_⟩
    · rw [List.map_cons, hlen, List.length_take, min_eq_left (by omega)]
    · rw [List.flatten_cons, hflat, List.take_append_drop]

/-! Blocks of one length. -/

theorem flatMap_length {word : ι → List τ} {n : Nat} (h : ∀ x, (word x).length = n)
    (xs : List ι) : (xs.flatMap word).length = xs.length * n := by
  induction xs with
  | nil => simp
  | cons x rest ih =>
    rw [List.flatMap_cons, List.length_append, ih, h, List.length_cons]
    ring

theorem flatMap_blocks_length {n : Nat} (blocks : List (List.Vector τ n)) :
    (blocks.flatMap List.Vector.toList).length = blocks.length * n :=
  flatMap_length List.Vector.toList_length blocks

theorem blocks_of_pieces {n : Nat} {pieces : List (List τ)} (h : ∀ piece ∈ pieces, piece.length = n) :
    ∃ blocks : List (List.Vector τ n), blocks.map List.Vector.toList = pieces := by
  induction pieces with
  | nil => exact ⟨[], rfl⟩
  | cons piece rest ih =>
    obtain ⟨blocks, hb⟩ := ih (fun p hp => h p (List.mem_cons_of_mem _ hp))
    let block : List.Vector τ n := ⟨piece, h piece List.mem_cons_self⟩
    exact ⟨block :: blocks, by rw [List.map_cons, hb]; rfl⟩

theorem exists_blocks {l : List τ} {k n : Nat} (h : l.length = k * n) :
    ∃ blocks : List (List.Vector τ n), blocks.length = k ∧
      blocks.flatMap List.Vector.toList = l := by
  have hsum : l.length = (List.replicate k n).sum := by simp [h]
  obtain ⟨pieces, hlen, hflat⟩ := exists_pieces hsum
  have hcount : pieces.length = k := by
    have hh := congrArg List.length hlen
    simpa using hh
  have heach : ∀ piece ∈ pieces, piece.length = n := by
    intro piece hp
    have hmem : piece.length ∈ pieces.map List.length := List.mem_map_of_mem hp
    rw [hlen] at hmem
    exact List.eq_of_mem_replicate hmem
  obtain ⟨blocks, hblocks⟩ := blocks_of_pieces heach
  refine ⟨blocks, ?_, ?_⟩
  · rw [← hcount, ← hblocks, List.length_map]
  · rw [List.flatMap_def, hblocks, hflat]

theorem take_drop_blocks {n i : Nat} {blocks : List (List.Vector τ n)} {block : List.Vector τ n}
    (h : blocks[i]? = some block) :
    ((blocks.flatMap List.Vector.toList).drop (i * n)).take n = block.toList := by
  induction blocks generalizing i with
  | nil => simp at h
  | cons first rest ih =>
    have hfirst : first.toList.length = n := first.toList_length
    cases i with
    | zero =>
      obtain rfl : first = block := by simpa using h
      rw [Nat.zero_mul, List.drop_zero, List.flatMap_cons, List.take_left' hfirst]
    | succ i =>
      have hdrop : (i + 1) * n = first.toList.length + i * n := by
        rw [hfirst]
        ring
      rw [List.flatMap_cons, hdrop, List.drop_length_add_append]
      exact ih (by simpa using h)

/-! Little-endian numbers. -/

def leValue (bs : List UInt8) : Nat := Nat.ofDigits 256 (bs.map UInt8.toNat)

def leBytes : Nat → Nat → List UInt8
  | 0, _ => []
  | k + 1, n => UInt8.ofNat n :: leBytes k (n / 256)

@[simp] theorem leBytes_length (k n : Nat) : (leBytes k n).length = k := by
  induction k generalizing n with
  | zero => rfl
  | succ k ih => rw [leBytes, List.length_cons, ih]

@[simp] theorem leValue_nil : leValue [] = 0 := rfl

theorem leValue_cons (b : UInt8) (bs : List UInt8) :
    leValue (b :: bs) = b.toNat + 256 * leValue bs := Nat.ofDigits_cons

theorem leValue_lt (bs : List UInt8) : leValue bs < 256 ^ bs.length := by
  induction bs with
  | nil => simp
  | cons b bs ih =>
    have hb := b.toNat_lt
    rw [leValue_cons, List.length_cons, pow_succ]
    omega

theorem leValue_leBytes {k n : Nat} (h : n < 256 ^ k) : leValue (leBytes k n) = n := by
  induction k generalizing n with
  | zero =>
    rw [pow_zero] at h
    simp only [leBytes, leValue_nil]
    omega
  | succ k ih =>
    rw [pow_succ] at h
    rw [leBytes, leValue_cons, ih (by omega), UInt8.toNat_ofNat']
    omega

theorem leBytes_leValue (bs : List UInt8) : leBytes bs.length (leValue bs) = bs := by
  induction bs with
  | nil => rfl
  | cons b bs ih =>
    have hb := b.toNat_lt
    have hdiv : (b.toNat + 256 * leValue bs) / 256 = leValue bs := by omega
    have hmod : UInt8.ofNat (b.toNat + 256 * leValue bs) = b := by
      apply UInt8.toNat_inj.mp
      rw [UInt8.toNat_ofNat']
      omega
    rw [leValue_cons, List.length_cons, leBytes, hdiv, hmod, ih]

theorem leValue_append (xs ys : List UInt8) :
    leValue (xs ++ ys) = leValue xs + 256 ^ xs.length * leValue ys := by
  rw [leValue, List.map_append, Nat.ofDigits_append, List.length_map]
  rfl

theorem leBytes_add (j k n : Nat) : leBytes (j + k) n = leBytes j n ++ leBytes k (n / 256 ^ j) := by
  induction j generalizing n with
  | zero => simp [leBytes]
  | succ j ih =>
    have hdiv : n / 256 / 256 ^ j = n / 256 ^ (j + 1) := by
      rw [Nat.div_div_eq_div_mul, pow_succ']
    rw [Nat.add_right_comm, leBytes, leBytes, ih, hdiv, List.cons_append]

theorem leBytes_zero (k : Nat) : leBytes k 0 = List.replicate k 0 := by
  induction k with
  | zero => rfl
  | succ k ih =>
    rw [leBytes, Nat.zero_div, ih, List.replicate_succ]
    rfl

theorem leBytes_of_lt {j n : Nat} (h : n < 256 ^ j) (k : Nat) :
    leBytes (j + k) n = leBytes j n ++ List.replicate k 0 := by
  rw [leBytes_add, Nat.div_eq_of_lt h, leBytes_zero]

theorem leBytes_inj {k m n : Nat} (hm : m < 256 ^ k) (hn : n < 256 ^ k)
    (h : leBytes k m = leBytes k n) : m = n := by
  rw [← leValue_leBytes hm, h, leValue_leBytes hn]

theorem leBytes_leValue_add (bs : List UInt8) (k m : Nat) :
    leBytes (bs.length + k) (leValue bs + 256 ^ bs.length * m) = bs ++ leBytes k m := by
  induction bs with
  | nil => simp
  | cons b bs ih =>
    have hb := b.toNat_lt
    have hsum : leValue (b :: bs) + 256 ^ (b :: bs).length * m =
        b.toNat + 256 * (leValue bs + 256 ^ bs.length * m) := by
      rw [leValue_cons, List.length_cons, pow_succ]
      ring
    have hhead : UInt8.ofNat (b.toNat + 256 * (leValue bs + 256 ^ bs.length * m)) = b := by
      apply UInt8.toNat_inj.mp
      rw [UInt8.toNat_ofNat']
      omega
    have htail : (b.toNat + 256 * (leValue bs + 256 ^ bs.length * m)) / 256 =
        leValue bs + 256 ^ bs.length * m := by omega
    rw [hsum, List.length_cons, Nat.add_right_comm, leBytes, hhead, htail, ih, List.cons_append]

end RpcPlane
