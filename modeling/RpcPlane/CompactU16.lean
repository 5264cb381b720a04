import RpcPlane.ShortVec

/-! `Cursor::shortvec` as a decoder of minimal base-128 encodings: it reads those of the numbers
below 65536 and refuses every other input. -/

namespace RpcPlane

/-- A little-endian base-128 encoding, not necessarily the shortest: every byte but the last has
its high bit set. -/
inductive Base128 : List UInt8 → Nat → Prop where
  | last {b : UInt8} (h : b.toNat < 128) : Base128 [b] b.toNat
  | more {b : UInt8} {w : List UInt8} {n : Nat} (h : 128 ≤ b.toNat) (rest : Base128 w n) :
    Base128 (b :: w) (b.toNat - 128 + 128 * n)

structure Minimal (w : List UInt8) (n : Nat) : Prop where
  encodes : Base128 w n
  shortest : ∀ w', Base128 w' n → w.length ≤ w'.length

theorem base128_encodes (n : Nat) : Base128 (base128 n) n := by
  induction n using Nat.strongRecOn with
  | ind n ih =>
    rcases base128_cases n with ⟨b, hb, rfl⟩ | ⟨b, m, hb, hm, rfl⟩
    · rw [base128_small hb]
      exact .last hb
    · rw [base128_step hb hm]
      exact .more hb (ih m (by omega))

theorem base128_length_pos (n : Nat) : 0 < (base128 n).length := by
  rcases base128_cases n with ⟨b, hb, rfl⟩ | ⟨b, m, hb, hm, rfl⟩
  · rw [base128_small hb]
    exact Nat.one_pos
  · rw [base128_step hb hm]
    exact Nat.succ_pos _

/-- A group of zeros at the end is the only freedom. -/
theorem Base128.eq_or_longer {w : List UInt8} {n : Nat} (h : Base128 w n) :
    w = base128 n ∨ (base128 n).length < w.length := by
  induction h with
  | last hb => exact Or.inl (base128_small hb).symm
  | @more b w n hb rest ih =>
    have hlt := b.toNat_lt
    by_cases hn : n = 0
    · have hpos : 0 < w.length := by
        cases rest with
        | last _ => exact Nat.one_pos
        | more _ _ => exact Nat.succ_pos _
      subst hn
      rw [base128_of_lt (by omega)]
      exact Or.inr (Nat.succ_lt_succ hpos)
    · rw [base128_step hb (by omega)]
      rcases ih with rfl | ih
      · exact Or.inl rfl
      · exact Or.inr (Nat.succ_lt_succ ih)

theorem minimal_iff {w : List UInt8} {n : Nat} : Minimal w n ↔ w = base128 n := by
  constructor
  · intro h
    rcases h.encodes.eq_or_longer with heq | hlonger
    · exact heq
    · exact absurd (h.shortest _ (base128_encodes n)) (by omega)
  · intro h
    subst h
    refine ⟨base128_encodes n, ?_⟩
    intro w' hw'
    rcases hw'.eq_or_longer with rfl | hlonger
    · exact le_refl _
    · exact hlonger.le

theorem base128_length_le {n : Nat} (h : n < 65536) : (base128 n).length ≤ 3 := by
  rcases base128_cases n with ⟨b, hb, rfl⟩ | ⟨b, m, hb, hm, rfl⟩
  · rw [base128_small hb]
    exact Nat.le_add_left 1 2
  · rw [base128_step hb hm]
    apply Nat.succ_le_succ
    rcases base128_cases m with ⟨b', hb', rfl⟩ | ⟨b', k, hb', hk, rfl⟩
    · rw [base128_small hb']
      exact Nat.le_add_left 1 1
    · rw [base128_step hb' hk, base128_of_lt (by omega)]
      exact le_refl _

/-! Where the decoder fails. -/

theorem Cursor.byte_ends (c : Cursor UInt8) :
    (∃ b c', Cursor.byte c = .ok (b, c')) ∨ Cursor.byte c = .error (.err .unparsed) := by
  cases htake : Cursor.take 1 c with
  | error e =>
    have he : e = .err .unparsed := by
      unfold Cursor.take Reader.takeOr at htake
      split_ifs at htake <;> exact (Except.error.inj htake).symm
    rw [he] at htake
    exact Or.inr (Reader.bind_error htake _)
  | ok wc =>
    obtain ⟨w, c'⟩ := wc
    obtain ⟨b, rfl⟩ := List.length_eq_one_iff.mp (Cursor.take_ok htake).1
    exact Or.inl ⟨b, c', Reader.bind_of_ok htake _⟩

theorem shortvecFrom_ends (shifts : List Nat) (value : Nat) (c : Cursor UInt8) :
    (∃ n c', shortvecFrom shifts value c = .ok (n, c')) ∨
      shortvecFrom shifts value c = .error (.err .unparsed) := by
  induction shifts generalizing value c with
  | nil => exact Or.inr rfl
  | cons shift shifts ih =>
    rcases Cursor.byte_ends c with ⟨b, c', hb⟩ | hb
    · rw [shortvecFrom, Reader.bind_of_ok hb]
      by_cases hmax : shift = 14 ∧ 3 < b
      · rw [if_pos hmax]
        exact Or.inr rfl
      rw [if_neg hmax]
      by_cases hlast : b &&& 0x80 = 0
      · rw [if_pos hlast]
        by_cases hzero : 0 < shift ∧ b = 0
        · rw [if_pos hzero]
          exact Or.inr rfl
        · rw [if_neg hzero]
          exact Or.inl ⟨_, c', rfl⟩
      · rw [if_neg hlast]
        exact ih _ c'
    · rw [shortvecFrom, Reader.bind_error hb]
      exact Or.inr rfl

/-! A position past a word in what is left. -/

theorem Cursor.fits_of_prefix {c : Cursor UInt8} {w : List UInt8} (h : w <+: c.rest) :
    c.pos + w.length ≤ c.bytes.length := by
  have hlen := h.length_le
  have hin := c.inside
  rw [c.rest_length, Cursor.remaining] at hlen
  omega

theorem Cursor.advance_eq_iff {c c' : Cursor UInt8} {k : Nat} (h : c.pos + k ≤ c.bytes.length) :
    c' = c.advance k ↔ c'.bytes = c.bytes ∧ c'.pos = c.pos + k := by
  cases c'
  simp only [Cursor.advance, Cursor.mk.injEq, Nat.min_eq_left h]

theorem Cursor.shortvec_iff {c c' : Cursor UInt8} {n : Nat} (hslice : c.bytes.length < 2 ^ 64) :
    Cursor.shortvec c = .ok (n, c') ↔
      n < 65536 ∧ base128 n <+: c.rest ∧ c' = c.advance (base128 n).length := by
  have hdigits : n < 65536 → base128 n <+: c.rest →
      Cursor.shortvec c = .ok (n, c.advance (base128 n).length) := by
    intro hn hprefix
    have hfits := Cursor.fits_of_prefix hprefix
    obtain ⟨tail, htail⟩ := hprefix
    exact Reads.shortvec hn c tail htail.symm (by omega)
  constructor
  · intro h
    obtain ⟨hn, hrest⟩ := Cursor.shortvec_ok h
    have hprefix : base128 n <+: c.rest := ⟨c'.rest, hrest.symm⟩
    rw [hdigits hn hprefix] at h
    exact ⟨hn, hprefix, (Prod.mk.inj (Except.ok.inj h)).2.symm⟩
  · rintro ⟨hn, hprefix, rfl⟩
    exact hdigits hn hprefix

/-- The length of a slice is a `usize`. -/
theorem shortvec_canonical (c : Cursor UInt8) (hslice : c.bytes.length < 2 ^ 64) :
    (∀ n ≤ 65535, ∃! w, Minimal w n) ∧
      (∀ n c', Cursor.shortvec c = .ok (n, c') ↔ n ≤ 65535 ∧
        ∃ w, Minimal w n ∧ 1 ≤ w.length ∧ w.length ≤ 3 ∧ w <+: c.rest ∧
          c'.bytes = c.bytes ∧ c'.pos = c.pos + w.length) ∧
      ((∀ n ≤ 65535, ∀ w, Minimal w n → ¬ w <+: c.rest) →
        Cursor.shortvec c = .error (.err .unparsed)) ∧
      (∀ n ≤ 65535, ∀ w rest, Minimal w n → c.rest = w ++ rest →
        ∃ c', Cursor.shortvec c = .ok (n, c') ∧ c'.rest = rest) := by
  refine ⟨?_, ?_, ?_, ?_⟩
  · intro n _
    exact ⟨base128 n, minimal_iff.mpr rfl, fun w hw => minimal_iff.mp hw⟩
  · intro n c'
    rw [Cursor.shortvec_iff hslice]
    constructor
    · rintro ⟨hn, hprefix, hc'⟩
      rw [Cursor.advance_eq_iff (Cursor.fits_of_prefix hprefix)] at hc'
      exact ⟨by omega, base128 n, minimal_iff.mpr rfl, base128_length_pos n, base128_length_le hn,
        hprefix, hc'⟩
    · rintro ⟨hn, w, hw, -, -, hprefix, hc'⟩
      obtain rfl := minimal_iff.mp hw
      rw [← Cursor.advance_eq_iff (Cursor.fits_of_prefix hprefix)] at hc'
      exact ⟨by omega, hprefix, hc'⟩
  · intro hnone
    rcases shortvecFrom_ends [0, 7, 14] 0 c with ⟨n, c', h⟩ | h
    · obtain ⟨hn, hprefix, -⟩ := (Cursor.shortvec_iff hslice).mp h
      exact absurd hprefix (hnone n (by omega) (base128 n) (minimal_iff.mpr rfl))
    · exact h
  · intro n hn w rest hw hrest
    obtain rfl := minimal_iff.mp hw
    have hread := (Cursor.shortvec_iff hslice).mpr ⟨by omega, ⟨rest, hrest.symm⟩, rfl⟩
    refine ⟨_, hread, ?_⟩
    rw [Cursor.advance_rest, hrest, List.drop_left]

theorem shortvec_canonical_three_hundred :
    ∃ c', Cursor.shortvec (.new [0xAC, 0x02, 7]) = .ok (300, c') ∧ c'.rest = [7] := by
  have hslice : (Cursor.new [0xAC, 0x02, 7] : Cursor UInt8).bytes.length < 2 ^ 64 := by decide
  have hdigits : Minimal [0xAC, 0x02] 300 := by
    rw [minimal_iff]
    simp [base128]
  exact (shortvec_canonical (.new [0xAC, 0x02, 7]) hslice).2.2.2 300 (by decide) _ [7] hdigits rfl

end RpcPlane
