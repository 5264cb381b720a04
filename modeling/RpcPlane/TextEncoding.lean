import RpcPlane.ByteReader
import Mathlib.Data.Bool.AllAny
import Mathlib.Data.Nat.Digits.Lemmas
import Mathlib.Data.UInt

/-! Bytes as text: positional encodings over an alphabet, which write leading zero bytes one by
one, and base64 with padding. Each is decoded back, and the length of the text is known. -/

namespace RpcPlane

structure Alphabet where
  symbols : List Char
  nodup : symbols.Nodup
  ascii : ∀ c ∈ symbols, c.utf8Size = 1
  one_lt : 1 < symbols.length

def Alphabet.size (a : Alphabet) : Nat := a.symbols.length

def Alphabet.symbol (a : Alphabet) (digit : Nat) : Char := a.symbols.getD digit '?'

def Alphabet.value (a : Alphabet) (c : Char) : Option Nat :=
  if c ∈ a.symbols then some (a.symbols.idxOf c) else none

section alphabet

variable {a : Alphabet} {digit : Nat}

theorem Alphabet.symbol_eq (h : digit < a.symbols.length) : a.symbol digit = a.symbols[digit] := by
  simp [symbol, List.getD, h]

theorem Alphabet.symbol_mem (h : digit < a.size) : a.symbol digit ∈ a.symbols := by
  rw [symbol_eq h]
  exact List.getElem_mem h

theorem Alphabet.value_symbol (h : digit < a.size) : a.value (a.symbol digit) = some digit := by
  rw [value, if_pos (symbol_mem h), symbol_eq h, a.nodup.idxOf_getElem digit h]

theorem Alphabet.mapM_value {digits : List Nat} (h : ∀ d ∈ digits, d < a.size) :
    (digits.map a.symbol).mapM a.value = some digits := by
  induction digits with
  | nil => rfl
  | cons d digits ih =>
    have hd := value_symbol (h d List.mem_cons_self)
    have hrest := ih (fun d' hd' => h d' (List.mem_cons_of_mem _ hd'))
    rw [List.map_cons, List.mapM_cons, hd, hrest]
    rfl

end alphabet

/-- A text of characters of one byte is as long as its list of characters. -/
theorem utf8ByteSize_ofList {text : List Char} (h : ∀ c ∈ text, c.utf8Size = 1) :
    (String.ofList text).utf8ByteSize = text.length := by
  induction text with
  | nil => rfl
  | cons c text ih =>
    have hc := h c List.mem_cons_self
    have hrest := ih (fun c' hc' => h c' (List.mem_cons_of_mem _ hc'))
    have hsplit : String.ofList (c :: text) = String.singleton c ++ String.ofList text := by
      apply String.toList_inj.mp
      simp
    rw [hsplit, String.utf8ByteSize_append, hrest, List.length_cons, String.utf8ByteSize_singleton, hc,
      Nat.add_comm]

/-! Leading zeros. -/

def leadingZeros {α : Type} [Zero α] [BEq α] (digits : List α) : Nat :=
  (digits.takeWhile (· == 0)).length

theorem leadingZeros_append {α : Type} [Zero α] [DecidableEq α] (k : Nat) {rest : List α}
    (h : rest.head? ≠ some 0) : leadingZeros (List.replicate k 0 ++ rest) = k := by
  induction k with
  | zero =>
    cases rest with
    | nil => rfl
    | cons d rest =>
      have hd : d ≠ 0 := fun hd => h (by rw [hd, List.head?_cons])
      simp [leadingZeros, hd]
  | succ k ih =>
    rw [List.replicate_succ, List.cons_append, leadingZeros, List.takeWhile_cons_of_pos (by simp),
      List.length_cons]
    exact congrArg Nat.succ ih

theorem exists_leadingZeros {α : Type} [Zero α] [DecidableEq α] (digits : List α) :
    ∃ k rest, digits = List.replicate k 0 ++ rest ∧ rest.head? ≠ some 0 ∧ leadingZeros digits = k := by
  induction digits with
  | nil => exact ⟨0, [], rfl, by simp, rfl⟩
  | cons d digits ih =>
    by_cases hd : d = 0
    · obtain ⟨k, rest, rfl, hrest, hk⟩ := ih
      refine ⟨k + 1, rest, by rw [hd, List.replicate_succ, List.cons_append], hrest, ?_⟩
      rw [hd, ← List.cons_append, ← List.replicate_succ]
      exact leadingZeros_append (k + 1) hrest
    · have hhead : (d :: digits).head? ≠ some 0 := by simpa using hd
      exact ⟨0, d :: digits, rfl, hhead, leadingZeros_append 0 hhead⟩

/-! A number in an alphabet. -/

def beValue (bytes : List UInt8) : Nat := leValue bytes.reverse

def beDigits (base n : Nat) : List Nat := (Nat.digits base n).reverse

def Alphabet.encode (a : Alphabet) (bytes : List UInt8) : List Char :=
  List.replicate (leadingZeros bytes) (a.symbol 0) ++ (beDigits a.size (beValue bytes)).map a.symbol

def Alphabet.decode (a : Alphabet) (text : List Char) : Option (List UInt8) := do
  let digits ← text.mapM a.value
  let number := Nat.ofDigits a.size digits.reverse
  pure (List.replicate (leadingZeros digits) 0 ++ (beDigits 256 number).map UInt8.ofNat)

theorem beValue_zeros (k : Nat) (rest : List UInt8) :
    beValue (List.replicate k 0 ++ rest) = beValue rest := by
  rw [beValue, List.reverse_append, List.reverse_replicate, leValue, List.map_append,
    List.map_replicate]
  exact Nat.ofDigits_append_replicate_zero _

theorem beDigits_head (base : Nat) (n : Nat) : (beDigits base n).head? ≠ some 0 := by
  rw [beDigits, List.head?_reverse]
  by_cases hn : n = 0
  · simp [hn]
  · have hne := Nat.digits_ne_nil_iff_ne_zero (b := base).mpr hn
    rw [List.getLast?_eq_some_getLast hne]
    exact fun h => Nat.getLast_digit_ne_zero base hn (Option.some.inj h)

theorem beDigits_beValue {bytes : List UInt8} (h : bytes.head? ≠ some 0) :
    (beDigits 256 (beValue bytes)).map UInt8.ofNat = bytes := by
  have hlast : ∀ hne : (bytes.reverse.map UInt8.toNat) ≠ [],
      (bytes.reverse.map UInt8.toNat).getLast hne ≠ 0 := by
    intro hne hzero
    rw [List.getLast_map, List.getLast_reverse] at hzero
    have hb : bytes ≠ [] := by simpa using hne
    apply h
    rw [List.head?_eq_some_head hb]
    exact congrArg some (UInt8.toNat_inj.mp hzero)
  have hdigits : Nat.digits 256 (beValue bytes) = bytes.reverse.map UInt8.toNat := by
    apply Nat.digits_ofDigits 256 (by norm_num) _ _ hlast
    intro d hd
    obtain ⟨b, -, rfl⟩ := List.mem_map.mp hd
    exact b.toNat_lt
  rw [beDigits, hdigits, List.map_reverse, List.map_map, List.map_reverse, List.reverse_reverse]
  have hid : UInt8.ofNat ∘ UInt8.toNat = id := funext fun b => UInt8.ofNat_toNat
  rw [hid, List.map_id]

theorem Alphabet.decode_encode (a : Alphabet) (bytes : List UInt8) :
    a.decode (a.encode bytes) = some bytes := by
  obtain ⟨k, rest, rfl, hrest, hk⟩ := exists_leadingZeros bytes
  let digits := beDigits a.size (beValue rest)
  have hlt : ∀ d ∈ List.replicate k 0 ++ digits, d < a.size := by
    intro d hd
    rcases List.mem_append.mp hd with hd | hd
    · rw [List.eq_of_mem_replicate hd]
      exact lt_trans zero_lt_one a.one_lt
    · exact Nat.digits_lt_base a.one_lt (List.mem_reverse.mp hd)
  have hencode : a.encode (List.replicate k 0 ++ rest) =
      (List.replicate k 0 ++ digits).map a.symbol := by
    rw [encode, hk, beValue_zeros, List.map_append, List.map_replicate]
  have hnumber : Nat.ofDigits a.size (List.replicate k 0 ++ digits).reverse = beValue rest := by
    rw [List.reverse_append, List.reverse_replicate, Nat.ofDigits_append_replicate_zero]
    show Nat.ofDigits a.size (Nat.digits a.size (beValue rest)).reverse.reverse = _
    rw [List.reverse_reverse, Nat.ofDigits_digits]
  rw [hencode, decode, mapM_value hlt]
  show some (List.replicate (leadingZeros (List.replicate k 0 ++ digits)) 0 ++
    (beDigits 256 (Nat.ofDigits a.size (List.replicate k 0 ++ digits).reverse)).map UInt8.ofNat) = _
  rw [hnumber, leadingZeros_append k (beDigits_head a.size _), beDigits_beValue hrest]

theorem Alphabet.encode_ascii (a : Alphabet) (bytes : List UInt8) :
    ∀ c ∈ a.encode bytes, c.utf8Size = 1 := by
  intro c hc
  apply a.ascii
  rcases List.mem_append.mp hc with hc | hc
  · rw [List.eq_of_mem_replicate hc]
    exact symbol_mem (lt_trans zero_lt_one a.one_lt)
  · obtain ⟨d, hd, rfl⟩ := List.mem_map.mp hc
    exact symbol_mem (Nat.digits_lt_base a.one_lt (List.mem_reverse.mp hd))

/-- The text of `k` zero bytes and a number is `k` symbols and the digits of the number. -/
theorem Alphabet.encode_length_le_iff (a : Alphabet) (bytes : List UInt8) (n : Nat) :
    (a.encode bytes).length ≤ leadingZeros bytes + n ↔ beValue bytes < a.size ^ n := by
  rw [encode, List.length_append, List.length_replicate, List.length_map, beDigits, List.length_reverse,
    Nat.add_le_add_iff_left]
  exact Nat.digits_length_le_iff a.one_lt (beValue bytes)

theorem beValue_lt (bytes : List UInt8) : beValue bytes < 256 ^ (bytes.length - leadingZeros bytes) := by
  obtain ⟨k, rest, rfl, -, hk⟩ := exists_leadingZeros bytes
  have hlt := leValue_lt rest.reverse
  rw [List.length_reverse] at hlt
  rw [hk, beValue_zeros, List.length_append, List.length_replicate, Nat.add_sub_cancel_left]
  exact hlt

theorem beValue_cons_ge (b : UInt8) (bytes : List UInt8) :
    b.toNat * 256 ^ bytes.length ≤ beValue (b :: bytes) := by
  rw [beValue, List.reverse_cons, leValue_append, List.length_reverse, leValue_cons, leValue_nil,
    Nat.mul_zero, Nat.add_zero, Nat.mul_comm]
  exact Nat.le_add_left _ _

/-! Base 58 and base 64. -/

def base58 : Alphabet where
  symbols := "123456789ABCDEFGHJKLMNPQRSTUVWXYZabcdefghijkmnopqrstuvwxyz".toList
  nodup := by decide
  ascii := List.all_iff_forall_prop.mp (by decide)
  one_lt := by decide

def base64 : Alphabet where
  symbols := "ABCDEFGHIJKLMNOPQRSTUVWXYZabcdefghijklmnopqrstuvwxyz0123456789+/".toList
  nodup := by decide
  ascii := List.all_iff_forall_prop.mp (by decide)
  one_lt := by decide

/-- Three bytes are four symbols; one or two bytes at the end are filled up with `=`. -/
def encodeBase64 : List UInt8 → List Char
  | [] => []
  | [x] => [base64.symbol (x.toNat / 4), base64.symbol (x.toNat % 4 * 16), '=', '=']
  | [x, y] => [base64.symbol (x.toNat / 4), base64.symbol (x.toNat % 4 * 16 + y.toNat / 16),
      base64.symbol (y.toNat % 16 * 4), '=']
  | x :: y :: z :: rest => base64.symbol (x.toNat / 4) ::
      base64.symbol (x.toNat % 4 * 16 + y.toNat / 16) ::
      base64.symbol (y.toNat % 16 * 4 + z.toNat / 64) :: base64.symbol (z.toNat % 64) :: encodeBase64 rest

/-! The three bytes of four symbols. -/

def byte₁ (p q : Nat) : UInt8 := UInt8.ofNat (p * 4 + q / 16)

def byte₂ (q r : Nat) : UInt8 := UInt8.ofNat (q % 16 * 16 + r / 4)

def byte₃ (r s : Nat) : UInt8 := UInt8.ofNat (r % 4 * 64 + s)

/-- The bits of the last symbol that no byte takes must be zero. -/
def decodeBase64 : List Char → Option (List UInt8)
  | [] => some []
  | c₁ :: c₂ :: c₃ :: c₄ :: rest => do
    let p ← base64.value c₁
    let q ← base64.value c₂
    if c₃ = '=' then
      if c₄ = '=' ∧ rest = [] ∧ q % 16 = 0 then some [byte₁ p q] else none
    else
      let r ← base64.value c₃
      if c₄ = '=' then
        if rest = [] ∧ r % 4 = 0 then some [byte₁ p q, byte₂ q r] else none
      else
        let s ← base64.value c₄
        let bytes ← decodeBase64 rest
        pure (byte₁ p q :: byte₂ q r :: byte₃ r s :: bytes)
  | _ => none

theorem base64_size : base64.size = 64 := by decide

theorem base64_symbol_ne (n : Nat) (h : n < 64) : base64.symbol n ≠ '=' := by
  intro he
  have hmem : base64.symbol n ∈ base64.symbols := Alphabet.symbol_mem (by rw [base64_size]; exact h)
  rw [he] at hmem
  exact absurd hmem (by decide)

theorem base64_value {n : Nat} (h : n < 64) : base64.value (base64.symbol n) = some n :=
  Alphabet.value_symbol (by rw [base64_size]; exact h)

theorem ofNat_of_toNat {n : Nat} {x : UInt8} (h : n = x.toNat) : UInt8.ofNat n = x := by
  rw [h]
  exact UInt8.ofNat_toNat

theorem byte₁_split (x : UInt8) {m : Nat} (h : m < 16) :
    byte₁ (x.toNat / 4) (x.toNat % 4 * 16 + m) = x := ofNat_of_toNat (by omega)

theorem byte₂_split (y : UInt8) (j : Nat) {m : Nat} (h : m < 4) :
    byte₂ (j * 16 + y.toNat / 16) (y.toNat % 16 * 4 + m) = y := by
  have hy := y.toNat_lt
  exact ofNat_of_toNat (by omega)

theorem byte₃_split (z : UInt8) (j : Nat) : byte₃ (j * 4 + z.toNat / 64) (z.toNat % 64) = z := by
  have hz := z.toNat_lt
  exact ofNat_of_toNat (by omega)

theorem decodeBase64_encode (bytes : List UInt8) : decodeBase64 (encodeBase64 bytes) = some bytes := by
  induction bytes using encodeBase64.induct with
  | case1 => rfl
  | case2 x =>
    have hx := x.toNat_lt
    have hp := base64_value (show x.toNat / 4 < 64 by omega)
    have hq := base64_value (show x.toNat % 4 * 16 < 64 by omega)
    have hfirst : byte₁ (x.toNat / 4) (x.toNat % 4 * 16) = x := byte₁_split x (m := 0) (by norm_num)
    simp [encodeBase64, decodeBase64, hp, hq, hfirst]
  | case3 x y =>
    have hx := x.toNat_lt
    have hy := y.toNat_lt
    have hlast : y.toNat % 16 * 4 < 64 := by omega
    have hp := base64_value (show x.toNat / 4 < 64 by omega)
    have hq := base64_value (show x.toNat % 4 * 16 + y.toNat / 16 < 64 by omega)
    have hfirst := byte₁_split x (show y.toNat / 16 < 16 by omega)
    have hsecond : byte₂ (x.toNat % 4 * 16 + y.toNat / 16) (y.toNat % 16 * 4) = y :=
      byte₂_split y (x.toNat % 4) (m := 0) (by norm_num)
    simp [encodeBase64, decodeBase64, hp, hq, base64_value hlast, base64_symbol_ne _ hlast, hfirst, hsecond]
  | case4 x y z rest ih =>
    have hx := x.toNat_lt
    have hy := y.toNat_lt
    have hz := z.toNat_lt
    have hthird : y.toNat % 16 * 4 + z.toNat / 64 < 64 := by omega
    have hfourth : z.toNat % 64 < 64 := by omega
    have hp := base64_value (show x.toNat / 4 < 64 by omega)
    have hq := base64_value (show x.toNat % 4 * 16 + y.toNat / 16 < 64 by omega)
    have hfirst := byte₁_split x (show y.toNat / 16 < 16 by omega)
    have hsecond := byte₂_split y (x.toNat % 4) (show z.toNat / 64 < 4 by omega)
    have hlast := byte₃_split z (y.toNat % 16)
    simp [encodeBase64, decodeBase64, hp, hq, base64_value hthird, base64_value hfourth,
      base64_symbol_ne _ hthird, base64_symbol_ne _ hfourth, hfirst, hsecond, hlast, ih]

theorem encodeBase64_length (bytes : List UInt8) :
    (encodeBase64 bytes).length = 4 * ((bytes.length + 2) / 3) := by
  induction bytes using encodeBase64.induct with
  | case1 => rfl
  | case2 x => simp [encodeBase64]
  | case3 x y => simp [encodeBase64]
  | case4 x y z rest ih =>
    simp only [encodeBase64, List.length_cons, ih]
    omega

theorem encodeBase64_ascii (bytes : List UInt8) : ∀ c ∈ encodeBase64 bytes, c.utf8Size = 1 := by
  have hsymbol : ∀ n : Nat, n < 64 → (base64.symbol n).utf8Size = 1 := fun n hn =>
    base64.ascii _ (Alphabet.symbol_mem (by rw [base64_size]; exact hn))
  have hpad : '='.utf8Size = 1 := by decide
  induction bytes using encodeBase64.induct with
  | case1 => simp [encodeBase64]
  | case2 x =>
    have hx := x.toNat_lt
    simp only [encodeBase64, List.forall_mem_cons, List.not_mem_nil, false_imp_iff, implies_true,
      and_true]
    exact ⟨hsymbol _ (by omega), hsymbol _ (by omega), hpad, hpad⟩
  | case3 x y =>
    have hx := x.toNat_lt
    have hy := y.toNat_lt
    simp only [encodeBase64, List.forall_mem_cons, List.not_mem_nil, false_imp_iff, implies_true,
      and_true]
    exact ⟨hsymbol _ (by omega), hsymbol _ (by omega), hsymbol _ (by omega), hpad⟩
  | case4 x y z rest ih =>
    have hx := x.toNat_lt
    have hy := y.toNat_lt
    have hz := z.toNat_lt
    simp only [encodeBase64, List.forall_mem_cons]
    exact ⟨hsymbol _ (by omega), hsymbol _ (by omega), hsymbol _ (by omega), hsymbol _ (by omega), ih⟩

end RpcPlane
