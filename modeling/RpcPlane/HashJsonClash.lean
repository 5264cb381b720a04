import RpcPlane.HashJsonLaw
import Mathlib.Data.Bool.AllAny

/-! Two values that are hashed by the same bytes, for every pair of numbers of which the one
runs on into the other. The key that the first bytes of the written length are taken from has
as many NULs at its start, the name of the other key and what its value begins with. -/

namespace RpcPlane

/-- A length is four bytes and four zeros, so only its first four can go on in a number. -/
theorem length_of_run {len : Nat} {u r tail : List UInt8} (hlen : len < 2 ^ 32)
    (hu : ∀ b ∈ u, isNumberByte b = true) (h : writeUsize len ++ r = u ++ tail) : u.length ≤ 4 := by
  by_contra hlong
  have hsplit : writeUsize len = leBytes 4 len ++ List.replicate 4 0 := leBytes_of_lt hlen 4
  have hzero : (writeUsize len ++ r)[4]? = some 0 := by
    rw [hsplit, List.append_assoc, List.getElem?_append_right (by simp)]
    simp
  rw [h, List.getElem?_append_left (by omega)] at hzero
  exact absurd (number_byte_ge (hu 0 (List.mem_of_getElem? hzero))) (by decide)

theorem len_of_run {len len' : Nat} {u r r' : List UInt8} (hlen : len < 2 ^ 32)
    (hlen' : len' < 2 ^ 32) (hu : ∀ b ∈ u, isNumberByte b = true)
    (h : writeUsize len ++ r = u ++ (writeUsize len' ++ r')) :
    len = leValue u + 256 ^ u.length * len' := by
  have hfour := length_of_run hlen hu h
  have hbig : (2 : Nat) ^ 32 ≤ 256 ^ (8 - u.length) :=
    calc (2 : Nat) ^ 32 = 256 ^ 4 := by norm_num
      _ ≤ 256 ^ (8 - u.length) := Nat.pow_le_pow_right (by norm_num) (by omega)
  have hsplit : writeUsize len' = leBytes (8 - u.length) len' ++ List.replicate u.length 0 := by
    have hh := leBytes_of_lt (lt_of_lt_of_le hlen' hbig) u.length
    rwa [Nat.sub_add_cancel (by omega)] at hh
  have hwrite : writeUsize len = u ++ leBytes (8 - u.length) len' := by
    rw [hsplit, List.append_assoc, ← List.append_assoc] at h
    exact (List.append_inj h (by simp [writeUsize]; omega)).1
  have hvalue := congrArg leValue hwrite
  rw [writeUsize, leValue_leBytes (lt_of_lt_of_le hlen (by norm_num)), leValue_append,
    leValue_leBytes (lt_of_lt_of_le hlen' hbig)] at hvalue
  exact hvalue

def asciiText (bs : List UInt8) : String := String.ofList (bs.map (fun b => Char.ofNat b.toNat))

def Ascii (bs : List UInt8) : Prop := ∀ b ∈ bs, b.toNat < 128

theorem utf8Bytes_asciiText {bs : List UInt8} (h : Ascii bs) : utf8Bytes (asciiText bs) = bs := by
  rw [utf8Bytes, asciiText, String.toList_ofList]
  induction bs with
  | nil => rfl
  | cons b bs ih =>
    have hb : b.toNat < 128 := h b List.mem_cons_self
    have hval : (Char.ofNat b.toNat).val.toNat = b.toNat := by
      rw [Char.ofNat, dif_pos (Or.inl (by omega))]
      rfl
    have hone : (Char.ofNat b.toNat).utf8Size = 1 := by
      rw [Char.utf8Size_eq_one_iff, UInt32.le_iff_toNat_le, hval]
      exact Nat.le_of_lt_succ hb
    have hbyte : (Char.ofNat b.toNat).val.toUInt8 = b := by
      apply UInt8.toNat_inj.mp
      rw [UInt32.toNat_toUInt8, hval]
      omega
    rw [List.map_cons, List.flatMap_cons, String.utf8EncodeChar_eq_singleton hone, hbyte,
      ih (fun x hx => h x (List.mem_cons_of_mem _ hx)), List.singleton_append]

theorem asciiText_size {bs : List UInt8} (h : Ascii bs) : (asciiText bs).utf8ByteSize = bs.length := by
  rw [← utf8Bytes_length, utf8Bytes_asciiText h]

theorem Ascii.append {xs ys : List UInt8} (hx : Ascii xs) (hy : Ascii ys) : Ascii (xs ++ ys) := by
  intro b hb
  rcases List.mem_append.mp hb with hb | hb
  · exact hx b hb
  · exact hy b hb

theorem Ascii.replicate {b : UInt8} (hb : b.toNat < 128) (n : Nat) : Ascii (List.replicate n b) := by
  intro c hc
  rw [List.eq_of_mem_replicate hc]
  exact hb

/-- A length all of whose bytes are ASCII. -/
def AsciiLen (k n : Nat) : Prop := n < 256 ^ k ∧ Ascii (leBytes k n)

theorem AsciiLen.cons {k n d : Nat} (h : AsciiLen k n) (hd : d < 128) :
    AsciiLen (k + 1) (256 * n + d) := by
  obtain ⟨hlt, hascii⟩ := h
  refine ⟨by rw [pow_succ]; omega, ?_⟩
  have hhead : (UInt8.ofNat (256 * n + d)).toNat = d := by
    rw [UInt8.toNat_ofNat']
    omega
  have htail : (256 * n + d) / 256 = n := by omega
  intro b hb
  rw [leBytes, htail] at hb
  rcases List.mem_cons.mp hb with rfl | hb
  · omega
  · exact hascii b hb

theorem exists_asciiLen (k n : Nat) (h : n < 256 ^ k) :
    ∃ a b c, a + b + c = n ∧ AsciiLen k a ∧ AsciiLen k b ∧ AsciiLen k c := by
  have hzero : AsciiLen 0 0 := ⟨by norm_num, by simp [Ascii, leBytes]⟩
  induction k generalizing n with
  | zero => exact ⟨0, 0, 0, by omega, hzero, hzero, hzero⟩
  | succ k ih =>
    rw [pow_succ] at h
    obtain ⟨a, b, c, hsum, ha, hb, hc⟩ := ih (n / 256) (by omega)
    -- a byte is the sum of three bytes below 128
    let d := n % 256
    have hd : d < 256 := Nat.mod_lt n (by norm_num)
    refine ⟨256 * a + min d 127, 256 * b + min (d - 127) 127, 256 * c + (d - 254), ?_,
      ha.cons (by omega), hb.cons (by omega), hc.cons (by omega)⟩
    omega

/-! The two values. -/

def filler (c : Nat) : Value := .string (asciiText (List.replicate c 0x78))

theorem hashJson_filler (c : Nat) :
    hashJson (filler c) = 3 :: (writeUsize c ++ List.replicate c 0x78) := by
  have hascii : Ascii (List.replicate c 0x78) := Ascii.replicate (by decide) c
  rw [filler, hashJson, utf8Bytes_asciiText hascii, asciiText_size hascii, List.length_replicate]

/-- Three strings and a null. -/
def swallowing (c₁ c₂ c₃ : Nat) : Value := .array [filler c₁, filler c₂, filler c₃, .null]

/-- The bytes of `swallowing`, less those of the null. -/
def swallowed (c₁ c₂ c₃ : Nat) : List UInt8 :=
  4 :: (writeUsize 4 ++ (hashJson (filler c₁) ++ (hashJson (filler c₂) ++ hashJson (filler c₃))))

def longKey (pad nameLen c₁ c₂ c₃ : Nat) : List UInt8 :=
  List.replicate pad 0 ++ (List.replicate nameLen 0x61 ++ swallowed c₁ c₂ c₃)

def shortNumber (n : Number) (pad nameLen c₁ c₂ c₃ : Nat) : Value :=
  .object [("", .number n), (asciiText (longKey pad nameLen c₁ c₂ c₃), .null)]

def longNumber (n : Number) (nameLen c₁ c₂ c₃ : Nat) : Value :=
  .object [("", .number n), (asciiText (List.replicate nameLen 0x61), swallowing c₁ c₂ c₃)]

theorem hashJson_swallowing (c₁ c₂ c₃ : Nat) :
    hashJson (swallowing c₁ c₂ c₃) = swallowed c₁ c₂ c₃ ++ [0] := by
  simp only [swallowing, swallowed, hashJson_array, List.flatMap_cons, List.flatMap_nil, hashJson,
    List.length_cons, List.length_nil, List.cons_append, List.append_assoc, List.nil_append]

theorem swallowed_length (c₁ c₂ c₃ : Nat) :
    (swallowed c₁ c₂ c₃).length = c₁ + c₂ + c₃ + 36 := by
  simp only [swallowed, hashJson_filler, writeUsize, List.length_cons, List.length_append,
    leBytes_length, List.length_replicate]
  omega

theorem longKey_length (pad nameLen c₁ c₂ c₃ : Nat) :
    (longKey pad nameLen c₁ c₂ c₃).length = pad + nameLen + (c₁ + c₂ + c₃) + 36 := by
  simp only [longKey, List.length_append, List.length_replicate, swallowed_length]
  omega

theorem ascii_filler {c : Nat} (h : AsciiLen 8 c) : Ascii (hashJson (filler c)) := by
  rw [hashJson_filler]
  have htag : Ascii [3] := by simp [Ascii]
  exact htag.append (h.2.append (Ascii.replicate (by decide) c))

theorem ascii_longKey {pad nameLen c₁ c₂ c₃ : Nat} (h₁ : AsciiLen 8 c₁) (h₂ : AsciiLen 8 c₂)
    (h₃ : AsciiLen 8 c₃) : Ascii (longKey pad nameLen c₁ c₂ c₃) := by
  have htag : Ascii [4] := by simp [Ascii]
  have hfour : Ascii (writeUsize 4) := List.all_iff_forall_prop.mp (by decide)
  have htail : Ascii (swallowed c₁ c₂ c₃) :=
    htag.append (hfour.append ((ascii_filler h₁).append ((ascii_filler h₂).append (ascii_filler h₃))))
  exact (Ascii.replicate (by decide) pad).append ((Ascii.replicate (by decide) nameLen).append htail)

theorem ne_empty_of_size {s : String} (h : 0 < s.utf8ByteSize) : s ≠ "" := by
  rintro rfl
  exact absurd h (by simp)

/-- A key after the empty one: two members already in order. -/
theorem sortKeys_empty_first {α : Type} (x y : α) {key : String} :
    sortKeys [("", x), (key, y)] = [("", x), (key, y)] := by
  apply List.Pairwise.insertionSort_eq
  refine List.pairwise_pair.mpr ?_
  exact not_lt.mp (fun h => List.not_lt_nil _ (String.lt_iff_toList_lt.mp h))

theorem hashJson_pair (n : Number) (key : String) (v : Value) :
    hashJson (.object [("", .number n), (key, v)]) =
      5 :: (writeUsize 2 ++ (writeUsize 0 ++ (2 :: (n.text ++ (writeUsize key.utf8ByteSize ++
        (utf8Bytes key ++ hashJson v)))))) := by
  have hempty : utf8Bytes "" = [] := rfl
  rw [hashJson_object, sortKeys_empty_first]
  simp only [List.flatMap_cons, List.flatMap_nil, writeMember, hempty, hashJson, List.length_cons,
    List.length_nil, String.utf8ByteSize_empty, List.cons_append, List.nil_append,
    List.append_assoc, List.append_nil]

theorem spots_pair (n : Number) (key : String) {v : Value} (hv : v.canonical.spots none = []) :
    (Value.object [("", .number n), (key, v)]).canonical.spots none = [(n, key.utf8ByteSize)] := by
  rw [canonical_object, sortKeys_empty_first]
  simp [Value.spots, memberSpots, nextKey, Value.canonical, hv]

theorem valid_pair (n : Number) {key : String} {v : Value} (hpos : 0 < key.utf8ByteSize)
    (hlt : key.utf8ByteSize < 2 ^ 63) (hv : v.Valid) :
    (Value.object [("", .number n), (key, v)]).Valid := by
  have hne : "" ≠ key := (ne_empty_of_size hpos).symm
  exact ⟨by norm_num, by simp [hne], ⟨by norm_num, trivial⟩, ⟨hlt, hv⟩, trivial⟩

theorem not_same_pair {n n' : Number} {key key' : String} {v v' : Value}
    (hpos : 0 < key'.utf8ByteSize) (hne : n.text ≠ n'.text) :
    ¬ (Value.object [("", .number n), (key, v)]).Same (.object [("", .number n'), (key', v')]) := by
  rintro ⟨-, ⟨w, hw, hsame⟩, -⟩
  simp only [List.mem_cons, Prod.mk.injEq, true_and, List.not_mem_nil, or_false] at hw
  rcases hw with rfl | ⟨hempty, -⟩
  · exact hne hsame
  · exact ne_empty_of_size hpos hempty.symm

theorem swallowing_valid {c₁ c₂ c₃ : Nat} (h : c₁ + c₂ + c₃ < 2 ^ 63) :
    (swallowing c₁ c₂ c₃).Valid := by
  have hsize : ∀ c, c < 2 ^ 63 → (filler c).Valid := by
    intro c hc
    rw [filler, Value.Valid, asciiText_size (Ascii.replicate (by decide) c), List.length_replicate]
    exact hc
  exact ⟨by norm_num, hsize c₁ (by omega), hsize c₂ (by omega), hsize c₃ (by omega), trivial, trivial⟩

/-- Numbers of which one runs on into the other, with lengths for the filling strings. -/
structure Clash (n : Number) (len : Nat) (n' : Number) (nameLen c₁ c₂ c₃ : Nat) (u : List UInt8) :
    Prop where
  run : n'.text = n.text ++ u
  starts : u ≠ []
  len_eq : len = leValue u + 256 ^ u.length * nameLen
  len_lt : len < 2 ^ 32
  name_pos : 0 < nameLen
  filled : u.length + nameLen + (c₁ + c₂ + c₃) + 36 = len
  ascii₁ : AsciiLen 8 c₁
  ascii₂ : AsciiLen 8 c₂
  ascii₃ : AsciiLen 8 c₃

theorem leValue_number_ge {b : UInt8} {u : List UInt8} (hb : isNumberByte b = true) :
    43 ≤ leValue (b :: u) := by
  have hge := number_byte_ge hb
  rw [leValue_cons]
  omega

theorem exists_clash {n n' : Number} {len nameLen : Nat} (hlen : len < 2 ^ 32)
    (hname : nameLen < 2 ^ 32) (h : RunsOn n len n' nameLen) :
    ∃ c₁ c₂ c₃ u, Clash n len n' nameLen c₁ c₂ c₃ u := by
  obtain ⟨u, z, hne, hrun, hbytes, hpos⟩ := h
  have hu : ∀ b ∈ u, isNumberByte b = true := by
    intro b hb
    apply n'.plain
    rw [hrun]
    exact List.mem_append_right _ hb
  have htail : writeUsize len ++ z = u ++ (writeUsize nameLen ++ []) := by
    rw [hbytes, List.append_nil]
  have heq := len_of_run hlen hname hu htail
  cases u with
  | nil => exact absurd rfl hne
  | cons b u =>
    have hvalue : 43 ≤ leValue (b :: u) := leValue_number_ge (hu b List.mem_cons_self)
    have hshort : (b :: u).length < 4 := by
      by_contra hlong
      have hpow : (256 : Nat) ^ 4 ≤ 256 ^ (b :: u).length :=
        Nat.pow_le_pow_right (by norm_num) (by omega)
      have hmul := Nat.le_mul_of_pos_right (256 ^ (b :: u).length) hpos
      omega
    have hgrow : 256 * nameLen ≤ 256 ^ (b :: u).length * nameLen := by
      apply Nat.mul_le_mul_right
      exact Nat.le_self_pow (by simp) 256
    obtain ⟨c₁, c₂, c₃, hsum, h₁, h₂, h₃⟩ :=
      exists_asciiLen 8 (len - ((b :: u).length + nameLen + 36)) (by omega)
    exact ⟨c₁, c₂, c₃, b :: u, hrun, hne, heq, hlen, hpos, by omega, h₁, h₂, h₃⟩

theorem name_size (nameLen : Nat) :
    (asciiText (List.replicate nameLen 0x61)).utf8ByteSize = nameLen := by
  rw [asciiText_size (Ascii.replicate (by decide) nameLen), List.length_replicate]

theorem long_spots (n : Number) (nameLen c₁ c₂ c₃ : Nat) :
    (longNumber n nameLen c₁ c₂ c₃).canonical.spots none = [(n, nameLen)] := by
  rw [longNumber, spots_pair _ _ rfl, name_size]

section Clash

variable {n n' : Number} {len nameLen c₁ c₂ c₃ : Nat} {u : List UInt8}
  (h : Clash n len n' nameLen c₁ c₂ c₃ u)

include h

theorem Clash.longKey_size :
    (asciiText (longKey u.length nameLen c₁ c₂ c₃)).utf8ByteSize = len := by
  rw [asciiText_size (ascii_longKey h.ascii₁ h.ascii₂ h.ascii₃), longKey_length, h.filled]

/-- The length of the long key and the NULs after it are the end of the long number and the
length of the short key. -/
theorem Clash.writeUsize_eq :
    writeUsize len ++ List.replicate u.length 0 = u ++ writeUsize nameLen := by
  have hfilled := h.filled
  have hlt := h.len_lt
  have hmul := Nat.le_mul_of_pos_right (256 ^ u.length) h.name_pos
  have hshort : u.length < 4 := by
    have heq := h.len_eq
    apply (Nat.pow_lt_pow_iff_right (by norm_num : 1 < 256)).mp
    omega
  have hname : nameLen < 256 ^ (8 - u.length) :=
    calc nameLen < 256 ^ 4 := by omega
      _ ≤ 256 ^ (8 - u.length) := Nat.pow_le_pow_right (by norm_num) (by omega)
  have hlen : writeUsize len = u ++ leBytes (8 - u.length) nameLen := by
    have hh := leBytes_leValue_add u (8 - u.length) nameLen
    rw [← h.len_eq, Nat.add_sub_cancel' (by omega)] at hh
    exact hh
  have hshift : writeUsize nameLen = leBytes (8 - u.length) nameLen ++ List.replicate u.length 0 := by
    have hh := leBytes_of_lt hname u.length
    rw [Nat.sub_add_cancel (by omega)] at hh
    exact hh
  rw [hlen, hshift, List.append_assoc]

theorem Clash.hashJson_eq :
    hashJson (shortNumber n u.length nameLen c₁ c₂ c₃) = hashJson (longNumber n' nameLen c₁ c₂ c₃) := by
  have hname : Ascii (List.replicate nameLen 0x61) := Ascii.replicate (by decide) nameLen
  rw [shortNumber, longNumber, hashJson_pair, hashJson_pair, h.longKey_size, name_size, h.run,
    utf8Bytes_asciiText (ascii_longKey h.ascii₁ h.ascii₂ h.ascii₃), utf8Bytes_asciiText hname,
    hashJson_swallowing, longKey, hashJson]
  have hmid := h.writeUsize_eq
  have hbytes : writeUsize len ++ (List.replicate u.length 0 ++ (List.replicate nameLen 0x61 ++
      (swallowed c₁ c₂ c₃ ++ [0]))) = u ++ (writeUsize nameLen ++ (List.replicate nameLen 0x61 ++
      (swallowed c₁ c₂ c₃ ++ [0]))) := by
    rw [← List.append_assoc, hmid, List.append_assoc]
  simp only [List.append_assoc, hbytes]

theorem Clash.not_same :
    ¬ (shortNumber n u.length nameLen c₁ c₂ c₃).Same (longNumber n' nameLen c₁ c₂ c₃) := by
  refine not_same_pair ?_ ?_
  · rw [name_size]
    exact h.name_pos
  · rw [h.run]
    intro hsame
    exact h.starts (by simpa using hsame)

theorem Clash.short_valid : (shortNumber n u.length nameLen c₁ c₂ c₃).Valid := by
  have hlt := h.len_lt
  have hfilled := h.filled
  refine valid_pair n ?_ ?_ trivial <;> rw [h.longKey_size] <;> omega

theorem Clash.long_valid : (longNumber n' nameLen c₁ c₂ c₃).Valid := by
  have hlt := h.len_lt
  have hfilled := h.filled
  have hpos := h.name_pos
  refine valid_pair n' ?_ ?_ (swallowing_valid (by omega)) <;> rw [name_size] <;> omega

theorem Clash.short_spots :
    (shortNumber n u.length nameLen c₁ c₂ c₃).canonical.spots none = [(n, len)] := by
  rw [shortNumber, spots_pair _ _ rfl, h.longKey_size]

end Clash

/-- The bytes of the values of a class are equal only for the same values. -/
def TellsApart (C : Number → Nat → Prop) : Prop :=
  ∀ a b : Value, a.OfClass C → b.OfClass C → (hashJson a = hashJson b ↔ a.Same b)

/-- The bytes tell the values of a class apart if no number before a key runs on into another
number before a key, and only if, where the keys after numbers are shorter than 4 GiB. -/
theorem hashJson_injective_iff (C : Number → Nat → Prop) :
    (Separated C → TellsApart C) ∧
      ((∀ n len, C n len → len < 2 ^ 32) → TellsApart C → Separated C) := by
  constructor
  · intro hsep a b ha hb
    exact hashJson_eq_iff hsep ha hb
  · intro hlt hinj n len n' len' hc hc' hruns
    obtain ⟨c₁, c₂, c₃, u, h⟩ := exists_clash (hlt n len hc) (hlt n' len' hc') hruns
    have hshort : (shortNumber n u.length len' c₁ c₂ c₃).OfClass C := by
      refine ⟨h.short_valid, ?_⟩
      rw [h.short_spots]
      intro s hs
      rw [List.mem_singleton.mp hs]
      exact hc
    have hlong : (longNumber n' len' c₁ c₂ c₃).OfClass C := by
      refine ⟨h.long_valid, ?_⟩
      rw [long_spots]
      intro s hs
      rw [List.mem_singleton.mp hs]
      exact hc'
    exact h.not_same ((hinj _ _ hshort hlong).mp h.hashJson_eq)

/-- `params` of a `getTransaction` call. -/
def paramsOf (config : Value) : Value := .array [.string "signature", config]

def one : Number := ⟨[0x31], List.all_iff_forall_prop.mp (by decide)⟩

def eleven : Number := ⟨[0x31, 0x31], List.all_iff_forall_prop.mp (by decide)⟩

/-- A key of 305 bytes after `1`, a key of one byte after `11`. -/
theorem clash_one_eleven : Clash one 305 eleven 1 267 0 0 [0x31] where
  run := rfl
  starts := by decide
  len_eq := by decide
  len_lt := by norm_num
  name_pos := by norm_num
  filled := rfl
  ascii₁ := ⟨by norm_num, List.all_iff_forall_prop.mp (by decide)⟩
  ascii₂ := ⟨by norm_num, List.all_iff_forall_prop.mp (by decide)⟩
  ascii₃ := ⟨by norm_num, List.all_iff_forall_prop.mp (by decide)⟩

theorem hashJson_not_injective :
    (paramsOf (shortNumber one 1 1 267 0 0)).Valid ∧ (paramsOf (longNumber eleven 1 267 0 0)).Valid ∧
      hashJson (paramsOf (shortNumber one 1 1 267 0 0)) =
        hashJson (paramsOf (longNumber eleven 1 267 0 0)) ∧
      ¬ (paramsOf (shortNumber one 1 1 267 0 0)).Same (paramsOf (longNumber eleven 1 267 0 0)) := by
  have hsignature : (Value.string "signature").Valid := by
    rw [Value.Valid]
    decide
  refine ⟨?_, ?_, ?_, ?_⟩
  · exact ⟨by norm_num, hsignature, clash_one_eleven.short_valid, trivial⟩
  · exact ⟨by norm_num, hsignature, clash_one_eleven.long_valid, trivial⟩
  · have hconfig : hashJson (shortNumber one 1 1 267 0 0) = hashJson (longNumber eleven 1 267 0 0) :=
      clash_one_eleven.hashJson_eq
    simp only [paramsOf, hashJson_array, List.flatMap_cons, hconfig, List.length_cons]
  · rintro ⟨-, hconfig, -⟩
    exact clash_one_eleven.not_same hconfig

end RpcPlane
