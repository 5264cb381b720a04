import RpcPlane.Transaction
import Mathlib.Data.Nat.Bitwise

/-! Counts in compact-u16 form: the minimal base-128 digits of a number below 65536, least
significant first. -/

namespace RpcPlane

/-- Base 128, least digit first, with the high bit on every digit but the last. -/
def base128 (n : Nat) : List UInt8 :=
  if n < 128 then [UInt8.ofNat n] else UInt8.ofNat (n % 128 + 128) :: base128 (n / 128)
  termination_by n

example : base128 300 = [0xAC, 0x02] := by simp [base128]

theorem base128_of_lt {n : Nat} (h : n < 128) : base128 n = [UInt8.ofNat n] := by
  rw [base128, if_pos h]

theorem base128_small {b : UInt8} (h : b.toNat < 128) : base128 b.toNat = [b] := by
  rw [base128_of_lt h, UInt8.ofNat_toNat]

theorem base128_step {b : UInt8} {n : Nat} (hb : 128 ≤ b.toNat) (hn : 0 < n) :
    base128 (b.toNat - 128 + 128 * n) = b :: base128 n := by
  have hlt := b.toNat_lt
  have hmod : (b.toNat - 128 + 128 * n) % 128 + 128 = b.toNat := by omega
  have hdiv : (b.toNat - 128 + 128 * n) / 128 = n := by omega
  rw [base128, if_neg (by omega), hmod, hdiv, UInt8.ofNat_toNat]

/-- A number is one small digit, or a marked digit and what is left of it. -/
theorem base128_cases (n : Nat) :
    (∃ b : UInt8, b.toNat < 128 ∧ n = b.toNat) ∨
    ∃ (b : UInt8) (m : Nat), 128 ≤ b.toNat ∧ 0 < m ∧ n = b.toNat - 128 + 128 * m := by
  by_cases h : n < 128
  · have hb : (UInt8.ofNat n).toNat = n := by
      rw [UInt8.toNat_ofNat']
      omega
    exact Or.inl ⟨UInt8.ofNat n, by omega, hb.symm⟩
  · have hb : (UInt8.ofNat (n % 128 + 128)).toNat = n % 128 + 128 := by
      rw [UInt8.toNat_ofNat']
      omega
    exact Or.inr ⟨UInt8.ofNat (n % 128 + 128), n / 128, by omega, by omega, by omega⟩

theorem and_high_eq_zero {b : UInt8} : b &&& 0x80 = 0 ↔ b.toNat < 128 := by
  have hlt := b.toNat_lt
  have hbit : (b &&& 0x80).toNat = (b.toNat.testBit 7).toNat * 128 := by
    rw [UInt8.toNat_and]
    exact Nat.and_two_pow b.toNat 7
  rw [← UInt8.toNat_inj, hbit]
  constructor
  · intro h
    by_contra hge
    have hset : b.toNat.testBit 7 = true :=
      Nat.testBit_of_two_pow_le_and_two_pow_add_one_gt (by omega) (by omega)
    rw [hset] at h
    simp at h
  · intro h
    rw [Nat.testBit_lt_two_pow (by omega)]
    rfl

theorem and_low_toNat (b : UInt8) : (b &&& 0x7F).toNat = b.toNat % 128 := by
  rw [UInt8.toNat_and]
  exact Nat.and_two_pow_sub_one_eq_mod b.toNat 7

/-- Digits do not overlap, so `|=` adds. -/
theorem or_shiftLeft {value digit shift : Nat} (h : value < 2 ^ shift) :
    value ||| (digit <<< shift) = value + digit * 2 ^ shift := by
  have hadd := Nat.two_pow_add_eq_or_of_lt h digit
  rw [Nat.shiftLeft_eq, Nat.mul_comm digit, Nat.or_comm, ← hadd, Nat.add_comm]

/-! The cursor's reads. -/

theorem Cursor.take_ok {len : Nat} {c c' : Cursor UInt8} {s : List UInt8}
    (h : Cursor.take len c = .ok (s, c')) : s.length = len ∧ c.rest = s ++ c'.rest :=
  Reader.takeOr_ok h

theorem Reads.take {w : List UInt8} {len : Nat} (h : w.length = len) :
    Reads (Cursor.take len) w (.ok w) := Reads.takeOr _ h

theorem Cursor.skip_ok {len : Nat} {c c' : Cursor UInt8} {u : Unit}
    (h : Cursor.skip len c = .ok (u, c')) : ∃ s, s.length = len ∧ c.rest = s ++ c'.rest := by
  obtain ⟨s, c₁, hs, h⟩ := Reader.bind_ok.mp h
  obtain ⟨-, rfl⟩ := Reader.pure_ok.mp h
  exact ⟨s, Cursor.take_ok hs⟩

theorem Reads.skip {w : List UInt8} {len : Nat} (h : w.length = len) :
    Reads (Cursor.skip len) w (.ok ()) := by
  have hread := (Reads.take h).bind (f := fun _ => Pure.pure ()) (Reads.pure ())
  rwa [List.append_nil] at hread

theorem Cursor.byte_ok {c c' : Cursor UInt8} {b : UInt8} (h : Cursor.byte c = .ok (b, c')) :
    c.rest = b :: c'.rest := by
  obtain ⟨s, c₁, hs, h⟩ := Reader.bind_ok.mp h
  obtain ⟨hlen, hrest⟩ := Cursor.take_ok hs
  obtain ⟨b', rfl⟩ := List.length_eq_one_iff.mp hlen
  obtain ⟨rfl, rfl⟩ := Reader.pure_ok.mp h
  exact hrest

theorem Reads.byte (b : UInt8) : Reads Cursor.byte [b] (.ok b) := by
  have hread : Reads Cursor.byte ([b] ++ []) (.ok b) := by
    unfold Cursor.byte
    exact (Reads.take rfl).bind (Reads.pure b)
  exact hread

/-! One turn of the loop of `shortvec`. -/

theorem Reads.shortvec_last {b : UInt8} (shift value : Nat) (shifts : List Nat)
    (hb : b.toNat < 128) (hmax : ¬ (shift = 14 ∧ 3 < b)) (hzero : ¬ (0 < shift ∧ b = 0)) :
    Reads (shortvecFrom (shift :: shifts) value) [b] (.ok (value ||| (b.toNat <<< shift))) := by
  have hbody : Reads (shortvecFrom (shift :: shifts) value) ([b] ++ [])
      (.ok (value ||| (b.toNat <<< shift))) := by
    refine (Reads.byte b).bind ?_
    rw [if_neg hmax, if_pos (and_high_eq_zero.mpr hb), if_neg hzero, and_low_toNat,
      Nat.mod_eq_of_lt hb]
    exact Reads.pure _
  exact hbody

theorem Reads.shortvec_more {b : UInt8} {shift value n : Nat} {shifts : List Nat}
    {w : List UInt8} (hb : 128 ≤ b.toNat) (hmax : shift ≠ 14)
    (hrest : Reads (shortvecFrom shifts (value ||| ((b.toNat - 128) <<< shift))) w (.ok n)) :
    Reads (shortvecFrom (shift :: shifts) value) (b :: w) (.ok n) := by
  have hlt := b.toNat_lt
  have hlow : b.toNat % 128 = b.toNat - 128 := by omega
  have hbody : Reads (shortvecFrom (shift :: shifts) value) ([b] ++ w) (.ok n) := by
    refine (Reads.byte b).bind ?_
    rw [if_neg (fun h => hmax h.1), if_neg (fun h => absurd (and_high_eq_zero.mp h) (by omega)),
      and_low_toNat, hlow]
    exact hrest
  exact hbody

theorem shortvecFrom_ok {shift value n : Nat} {shifts : List Nat} {c c' : Cursor UInt8}
    (h : shortvecFrom (shift :: shifts) value c = .ok (n, c')) :
    ∃ b c₁, c.rest = b :: c₁.rest ∧ ¬ (shift = 14 ∧ 3 < b) ∧
      ((b.toNat < 128 ∧ ¬ (0 < shift ∧ b = 0) ∧ n = value ||| (b.toNat <<< shift) ∧ c₁ = c') ∨
        (128 ≤ b.toNat ∧
          shortvecFrom shifts (value ||| ((b.toNat - 128) <<< shift)) c₁ = .ok (n, c'))) := by
  obtain ⟨b, c₁, hb, h⟩ := Reader.bind_ok.mp h
  have hlt := b.toNat_lt
  by_cases hmax : shift = 14 ∧ 3 < b
  · rw [if_pos hmax] at h
    exact absurd (Reader.fail_ok.mp h) id
  · rw [if_neg hmax] at h
    refine ⟨b, c₁, Cursor.byte_ok hb, hmax, ?_⟩
    by_cases hhigh : b.toNat < 128
    · rw [if_pos (and_high_eq_zero.mpr hhigh), and_low_toNat, Nat.mod_eq_of_lt hhigh] at h
      by_cases hzero : 0 < shift ∧ b = 0
      · rw [if_pos hzero] at h
        exact absurd (Reader.fail_ok.mp h) id
      · rw [if_neg hzero] at h
        obtain ⟨rfl, rfl⟩ := Reader.pure_ok.mp h
        exact Or.inl ⟨hhigh, hzero, rfl, rfl⟩
    · have hlow : b.toNat % 128 = b.toNat - 128 := by omega
      rw [if_neg (fun hh => hhigh (and_high_eq_zero.mp hh)), and_low_toNat, hlow] at h
      exact Or.inr ⟨by omega, h⟩

theorem UInt8.ne_zero_of_toNat_pos {b : UInt8} (h : 0 < b.toNat) : b ≠ 0 := by
  rintro rfl
  simp at h

theorem UInt8.not_three_lt {b : UInt8} (h : b.toNat < 4) : ¬ 3 < b := by
  rw [UInt8.lt_iff_toNat_lt]
  change ¬ 3 < b.toNat
  omega

theorem Reads.shortvec {n : Nat} (h : n < 65536) : Reads Cursor.shortvec (base128 n) (.ok n) := by
  rcases base128_cases n with ⟨b, hb, rfl⟩ | ⟨b, m, hb, hm, rfl⟩
  · have hread := Reads.shortvec_last 0 0 [7, 14] hb (by simp) (by simp)
    rw [base128_small hb]
    simpa [Cursor.shortvec] using hread
  · have hlt := b.toNat_lt
    rw [base128_step hb hm]
    refine Reads.shortvec_more hb (by decide) ?_
    rw [or_shiftLeft (by omega), Nat.zero_add, pow_zero, Nat.mul_one]
    rcases base128_cases m with ⟨b', hb', rfl⟩ | ⟨b', k, hb', hk, rfl⟩
    · have hread := Reads.shortvec_last 7 (b.toNat - 128) [14] hb' (by simp)
        (fun hz => UInt8.ne_zero_of_toNat_pos hm hz.2)
      rw [or_shiftLeft (by omega)] at hread
      rw [base128_small hb', Nat.mul_comm]
      exact hread
    · have hlt' := b'.toNat_lt
      rw [base128_step hb' hk]
      refine Reads.shortvec_more hb' (by decide) ?_
      rw [or_shiftLeft (by omega)]
      rcases base128_cases k with ⟨b'', hb'', rfl⟩ | ⟨b'', j, hb'', hj, rfl⟩
      · have hread := Reads.shortvec_last 14
          (b.toNat - 128 + (b'.toNat - 128) * 2 ^ 7) [] hb''
          (fun hz => UInt8.not_three_lt (by omega) hz.2)
          (fun hz => UInt8.ne_zero_of_toNat_pos hk hz.2)
        rw [or_shiftLeft (by omega)] at hread
        have hsum : b.toNat - 128 + 128 * (b'.toNat - 128 + 128 * b''.toNat) =
            b.toNat - 128 + (b'.toNat - 128) * 2 ^ 7 + b''.toNat * 2 ^ 14 := by omega
        rw [base128_small hb'', hsum]
        exact hread
      · omega

theorem Cursor.shortvec_ok {n : Nat} {c c' : Cursor UInt8}
    (h : Cursor.shortvec c = .ok (n, c')) : n < 65536 ∧ c.rest = base128 n ++ c'.rest := by
  obtain ⟨b, c₁, hrest, -, hturn⟩ := shortvecFrom_ok h
  have hlt := b.toNat_lt
  rcases hturn with ⟨hb, -, hn, rfl⟩ | ⟨hb, h⟩
  · have hval : n = b.toNat := by simpa using hn
    subst hval
    rw [base128_small hb]
    exact ⟨by omega, hrest⟩
  · rw [or_shiftLeft (by omega), Nat.zero_add, pow_zero, Nat.mul_one] at h
    obtain ⟨b', c₂, hrest', -, hturn⟩ := shortvecFrom_ok h
    have hlt' := b'.toNat_lt
    rcases hturn with ⟨hb', hz, hn, rfl⟩ | ⟨hb', h⟩
    · rw [or_shiftLeft (by omega)] at hn
      have hpos : 0 < b'.toNat := by
        by_contra hzero
        exact hz ⟨by decide, UInt8.toNat_inj.mp (by simpa using hzero)⟩
      have hval : n = b.toNat - 128 + 128 * b'.toNat := by omega
      subst hval
      rw [base128_step hb hpos, base128_small hb', hrest, hrest']
      exact ⟨by omega, rfl⟩
    · rw [or_shiftLeft (by omega)] at h
      obtain ⟨b'', c₃, hrest'', hmax, hturn⟩ := shortvecFrom_ok h
      rcases hturn with ⟨hb'', hz, hn, rfl⟩ | ⟨hb'', h⟩
      · rw [or_shiftLeft (by omega)] at hn
        have hpos : 0 < b''.toNat := by
          by_contra hzero
          exact hz ⟨by decide, UInt8.toNat_inj.mp (by simpa using hzero)⟩
        have hthree : b''.toNat ≤ 3 := by
          by_contra hbig
          refine hmax ⟨rfl, UInt8.lt_iff_toNat_lt.mpr ?_⟩
          change 3 < b''.toNat
          omega
        have hval : n = b.toNat - 128 + 128 * (b'.toNat - 128 + 128 * b''.toNat) := by omega
        subst hval
        rw [base128_step hb (by omega), base128_step hb' hpos, base128_small hb'', hrest, hrest',
          hrest'']
        exact ⟨by omega, rfl⟩
      · exact absurd (Reader.fail_ok.mp h) id

end RpcPlane
