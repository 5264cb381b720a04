import RpcPlane.ShortVec
import Mathlib.Algebra.Group.Action.Defs
import Mathlib.Algebra.Order.BigOperators.Group.List

/-! The v1 transaction format: what is decoded is exactly what the format encodes, with
nothing after it. -/

namespace RpcPlane

structure V1Header where
  programIndex : UInt8
  accounts : Nat
  dataLen : Nat
  accounts_lt : accounts < 256
  dataLen_lt : dataLen < 65536

structure V1Instruction where
  programIndex : UInt8
  accounts : List UInt8
  data : List UInt8
  accounts_lt : accounts.length < 256
  data_lt : data.length < 65536

def V1Instruction.header (ix : V1Instruction) : V1Header :=
  ⟨ix.programIndex, ix.accounts.length, ix.data.length, ix.accounts_lt, ix.data_lt⟩

def V1Instruction.payload (ix : V1Instruction) : List UInt8 := ix.accounts ++ ix.data

/-- The set bits of a mask, in order. -/
def setBits (mask : UInt32) : List Nat := (List.range 32).filter mask.toNat.testBit

structure V1Transaction where
  signatures : List (List.Vector UInt8 64)
  readonly : List.Vector UInt8 2
  mask : UInt32
  lifetime : List.Vector UInt8 32
  addresses : List (List.Vector UInt8 32)
  /-- one word for each set bit -/
  values : List UInt32
  instructions : List V1Instruction
  signatures_lt : signatures.length < 256
  addresses_lt : addresses.length < 256
  instructions_lt : instructions.length < 256
  values_length : values.length = (setBits mask).length
  indexed : ∀ ix ∈ instructions, ix.programIndex.toNat < addresses.length

def V1Header.encode (h : V1Header) : List UInt8 :=
  [h.programIndex] ++ ([UInt8.ofNat h.accounts] ++ leBytes 2 h.dataLen)

/-- All but the version byte. -/
def V1Transaction.encodeBody (tx : V1Transaction) : List UInt8 :=
  [UInt8.ofNat tx.signatures.length] ++ (tx.readonly.toList ++ (leBytes 4 tx.mask.toNat ++
    (tx.lifetime.toList ++ ([UInt8.ofNat tx.instructions.length] ++
      ([UInt8.ofNat tx.addresses.length] ++ (tx.addresses.flatMap List.Vector.toList ++
        (tx.values.flatMap (fun v => leBytes 4 v.toNat) ++
          ((tx.instructions.map V1Instruction.header).flatMap V1Header.encode ++
            (tx.instructions.flatMap V1Instruction.payload ++
              tx.signatures.flatMap List.Vector.toList)))))))))

def V1Transaction.encode (tx : V1Transaction) : List UInt8 := [v1Prefix] ++ tx.encodeBody

/-- The word of a mask bit. -/
def V1Transaction.value (tx : V1Transaction) (bit : Nat) : Option Nat :=
  (((setBits tx.mask).zip tx.values).lookup bit).map UInt32.toNat

/-- The halves of the fee are both there or neither. -/
def V1Transaction.FeeWhole (tx : V1Transaction) : Prop :=
  tx.mask.toNat.testBit 0 = tx.mask.toNat.testBit 1

instance (tx : V1Transaction) : Decidable tx.FeeWhole := inferInstanceAs (Decidable (_ = _))

def V1Transaction.fee (tx : V1Transaction) : Option Nat :=
  match tx.value 0, tx.value 1 with
  | some low, some high => some (high * 2 ^ 32 + low)
  | _, _ => none

def V1Transaction.summary (tx : V1Transaction) : TransactionInfo :=
  let limit := (tx.value 2).getD 0
  { cuLimit := limit
    cuLimitDefaulted := (tx.value 2).isNone
    cuPriceMicroLamports := tx.fee.map (fun fee =>
      if limit = 0 then 0 else min (2 ^ 64 - 1) (fee * 10 ^ 6 / min limit maxComputeUnits))
    requestedPriorityFeeLamports := tx.fee
    numInstructions := tx.instructions.length
    numSignatures := tx.signatures.length
    isVersioned := true }

/-! The mask and its words. -/

theorem maskBits_eq (mask : UInt32) : maskBits mask.toNat = setBits mask := by
  refine List.filter_congr ?_
  intro bit _
  rw [Nat.one_shiftLeft, Nat.and_two_pow]
  cases hb : mask.toNat.testBit bit <;> simp

theorem setBits_nodup (mask : UInt32) : (setBits mask).Nodup := List.nodup_range.filter _

theorem mem_setBits {mask : UInt32} {bit : Nat} :
    bit ∈ setBits mask ↔ bit < 32 ∧ mask.toNat.testBit bit = true := by
  rw [setBits, List.mem_filter, List.mem_range]

/-- The three words that the decoder keeps. -/
def V1Config.get (config : V1Config) : Nat → Option Nat
  | 0 => config.feeLow
  | 1 => config.feeHigh
  | 2 => config.limit
  | _ => none

theorem V1Config.get_set_self (config : V1Config) {bit : Nat} (h : bit < 3) (value : Nat) :
    (config.set bit value).get bit = some value := by
  match bit, h with
  | 0, _ => rfl
  | 1, _ => rfl
  | 2, _ => rfl

theorem V1Config.get_set_other (config : V1Config) {bit other : Nat} (h : other ≠ bit)
    (value : Nat) : (config.set other value).get bit = config.get bit := by
  match bit, other with
  | 0, 0 | 1, 1 | 2, 2 => exact absurd rfl h
  | 0, 1 | 0, 2 | 1, 0 | 1, 2 | 2, 0 | 2, 1 => rfl
  | 0, _ + 3 | 1, _ + 3 | 2, _ + 3 => rfl
  | _ + 3, _ => rfl

/-- The loop over the set bits keeps the word of each of the three. -/
theorem foldl_set_get (l : List (Nat × UInt32)) (hl : (l.map Prod.fst).Nodup) (config : V1Config)
    {bit : Nat} (h : bit < 3) :
    (l.foldl (fun config kv => config.set kv.1 kv.2.toNat) config).get bit =
      ((l.lookup bit).map UInt32.toNat).or (config.get bit) := by
  induction l generalizing config with
  | nil => rfl
  | cons kv rest ih =>
    rw [List.map_cons, List.nodup_cons] at hl
    rw [List.foldl_cons, ih hl.2]
    obtain ⟨k, v⟩ := kv
    by_cases hk : k = bit
    · subst hk
      have hrest : rest.lookup k = none := by
        rw [List.lookup_eq_none_iff]
        intro p hp
        have hne : k ≠ p.1 := fun he => hl.1 (List.mem_map.mpr ⟨p, hp, he.symm⟩)
        simpa using hne
      rw [hrest, config.get_set_self h, List.lookup_cons, beq_self_eq_true]
      rfl
    · have hb : (bit == k) = false := beq_false_of_ne (Ne.symm hk)
      rw [config.get_set_other hk, List.lookup_cons, hb]

theorem lookup_zip_isSome {keys : List Nat} {values : List UInt32}
    (hlen : values.length = keys.length) (bit : Nat) :
    ((keys.zip values).lookup bit).isSome = keys.contains bit := by
  induction keys generalizing values with
  | nil => rfl
  | cons k rest ih =>
    cases values with
    | nil => simp at hlen
    | cons v values =>
      have hrest : ((rest.zip values).lookup bit).isSome = rest.contains bit :=
        ih (by simpa using hlen)
      rw [List.zip_cons_cons, List.lookup_cons, List.contains_cons]
      cases hk : bit == k with
      | true => rfl
      | false => simpa using hrest

theorem V1Transaction.value_isSome (tx : V1Transaction) (bit : Nat) (h : bit < 32) :
    (tx.value bit).isSome = tx.mask.toNat.testBit bit := by
  rw [value, Option.isSome_map, lookup_zip_isSome tx.values_length, Bool.eq_iff_iff,
    List.contains_iff_mem, mem_setBits]
  simp [h]

/-- The words of a transaction as the decoder keeps them. -/
def V1Transaction.config (tx : V1Transaction) : V1Config :=
  ((setBits tx.mask).zip tx.values).foldl (fun config kv => config.set kv.1 kv.2.toNat) {}

theorem V1Transaction.config_get (tx : V1Transaction) (bit : Nat) (h : bit < 3) :
    tx.config.get bit = tx.value bit := by
  have hkeys : ((setBits tx.mask).zip tx.values).map Prod.fst = setBits tx.mask :=
    List.map_fst_zip tx.values_length.ge
  have hnodup : (((setBits tx.mask).zip tx.values).map Prod.fst).Nodup := by
    rw [hkeys]
    exact setBits_nodup tx.mask
  have hempty : ({} : V1Config).get bit = none := by
    match bit, h with
    | 0, _ => rfl
    | 1, _ => rfl
    | 2, _ => rfl
  rw [config, foldl_set_get _ hnodup _ h, hempty, Option.or_none]
  rfl

theorem shiftLeft_or_half {high low : Nat} (hhigh : high < 2 ^ 32) (hlow : low < 2 ^ 32) :
    ((high <<< 32) % 2 ^ 64) ||| low = high * 2 ^ 32 + low := by
  have hmod : high * 2 ^ 32 % 2 ^ 64 = 2 ^ 32 * high := by
    rw [Nat.mul_comm]
    omega
  rw [Nat.shiftLeft_eq, hmod, ← Nat.two_pow_add_eq_or_of_lt hlow]
  omega

theorem V1Transaction.value_lt {tx : V1Transaction} {bit v : Nat} (h : tx.value bit = some v) :
    v < 2 ^ 32 := by
  obtain ⟨w, -, rfl⟩ := Option.map_eq_some_iff.mp h
  exact w.toNat_lt

theorem V1Transaction.config_fee (tx : V1Transaction) :
    (tx.FeeWhole → tx.config.fee = .ok tx.fee) ∧
    (¬ tx.FeeWhole → tx.config.fee = .error (.err .invalidBudget)) := by
  have hlow : tx.config.feeLow = tx.value 0 := tx.config_get 0 (by decide)
  have hhigh : tx.config.feeHigh = tx.value 1 := tx.config_get 1 (by decide)
  have h₀ := tx.value_isSome 0 (by decide)
  have h₁ := tx.value_isSome 1 (by decide)
  unfold FeeWhole V1Config.fee fee
  rw [hlow, hhigh, ← h₀, ← h₁]
  cases hl : tx.value 0 with
  | none => cases hh : tx.value 1 <;> simp
  | some low =>
    cases hh : tx.value 1 with
    | none => simp
    | some high =>
      have hsum := shiftLeft_or_half (value_lt hh) (value_lt hl)
      simp only [hsum]
      simp

/-! Reading the parts. -/

theorem toArray_ok {n : Nat} {bs s : List UInt8} (h : toArray n bs = .ok s) :
    s = bs ∧ bs.length = n := by
  unfold toArray at h
  split_ifs at h with hlen
  exact ⟨(Except.ok.inj h).symm, hlen⟩

theorem leBytes_of_length {n : Nat} {bs : List UInt8} (h : bs.length = n) :
    leBytes n (leValue bs) = bs := by
  subst h
  exact leBytes_leValue bs

theorem Reads.leU32 (v : UInt32) : Reads Cursor.leU32 (leBytes 4 v.toNat) (.ok v.toNat) := by
  have hvalue : leValue (leBytes 4 v.toNat) = v.toNat := leValue_leBytes v.toNat_lt
  refine (Reads.take (leBytes_length 4 _)).bind_nil ?_
  refine Reads.ofExcept_bind (if_pos (leBytes_length 4 _)) ?_
  rw [hvalue]
  exact Reads.pure _

theorem Cursor.leU32_ok {n : Nat} {c c' : Cursor UInt8} (h : Cursor.leU32 c = .ok (n, c')) :
    ∃ v : UInt32, v.toNat = n ∧ c.rest = leBytes 4 v.toNat ++ c'.rest := by
  obtain ⟨bs, c₁, h₁, h⟩ := Reader.bind_ok.mp h
  obtain ⟨word, c₂, h₂, h⟩ := Reader.bind_ok.mp h
  obtain ⟨hvalue, rfl⟩ := Reader.pure_ok.mp h
  obtain ⟨hword, rfl⟩ := Reader.ofExcept_ok.mp h₂
  obtain ⟨rfl, hlen⟩ := toArray_ok hword
  obtain ⟨-, hrest⟩ := Cursor.take_ok h₁
  have hlt : n < 2 ^ 32 := by
    have hbound := leValue_lt word
    rw [hlen, hvalue] at hbound
    exact hbound
  refine ⟨UInt32.ofNatLT n hlt, UInt32.toNat_ofNatLT, ?_⟩
  rw [UInt32.toNat_ofNatLT, ← hvalue, leBytes_of_length hlen]
  exact hrest

theorem foldlM_set (l : List (Nat × UInt32)) (config : V1Config) :
    l.foldlM (fun (config : V1Config) kv =>
      (.ok (config.set kv.1 kv.2.toNat) : Except Stop V1Config)) config =
      .ok (l.foldl (fun config kv => config.set kv.1 kv.2.toNat) config) := List.foldlM_pure

theorem Reads.config (tx : V1Transaction) :
    Reads (.each (maskBits tx.mask.toNat) decodeConfigValue {})
      (tx.values.flatMap (fun v => leBytes 4 v.toNat)) (.ok tx.config) := by
  have hturn : ∀ (bit : Nat) (config : V1Config), ∀ v ∈ tx.values,
      Reads (decodeConfigValue bit config) (leBytes 4 v.toNat) (.ok (config.set bit v.toNat)) :=
    fun bit config v _ => (Reads.leU32 v).bind_pure (config.set bit)
  have hloop := Reads.each tx.values_length hturn {}
  rw [foldlM_set] at hloop
  rw [maskBits_eq]
  exact hloop

theorem decodeConfig_ok {mask : UInt32} {config : V1Config} {c c' : Cursor UInt8}
    (h : Reader.each (maskBits mask.toNat) decodeConfigValue {} c = .ok (config, c')) :
    ∃ values : List UInt32, values.length = (setBits mask).length ∧
      c.rest = values.flatMap (fun v => leBytes 4 v.toNat) ++ c'.rest ∧
      ((setBits mask).zip values).foldl (fun config kv => config.set kv.1 kv.2.toNat) {} =
        config := by
  have hturn : ∀ bit config c config' c', decodeConfigValue bit config c = .ok (config', c') →
      ∃ v : UInt32, True ∧ c.rest = leBytes 4 v.toNat ++ c'.rest ∧
        (.ok (config.set bit v.toNat) : Except Stop V1Config) = .ok config' := by
    intro bit config c config' c' hread
    obtain ⟨n, c₁, hn, hset⟩ := Reader.bind_ok.mp hread
    obtain ⟨rfl, rfl⟩ := Reader.pure_ok.mp hset
    obtain ⟨v, rfl, hrest⟩ := Cursor.leU32_ok hn
    exact ⟨v, trivial, hrest, rfl⟩
  rw [maskBits_eq] at h
  obtain ⟨values, hlen, -, hrest, hfold⟩ := Reader.each_ok
    (fun config bit (v : UInt32) => .ok (V1Config.set config bit v.toNat)) hturn h
  rw [foldlM_set] at hfold
  exact ⟨values, hlen, hrest, Except.ok.inj hfold⟩

theorem Reads.v1Header {h : V1Header} {numAddresses : Nat}
    (hindex : h.programIndex.toNat < numAddresses) (payloadLen : Nat) :
    Reads (decodeV1Header numAddresses payloadLen) h.encode
      (addIn 64 payloadLen (h.accounts + h.dataLen)) := by
  have haccounts : (UInt8.ofNat h.accounts).toNat = h.accounts := by
    have hlt := h.accounts_lt
    rw [UInt8.toNat_ofNat']
    omega
  have hdata : leValue (leBytes 2 h.dataLen) = h.dataLen := leValue_leBytes h.dataLen_lt
  have hsum : addIn 64 h.accounts h.dataLen = .ok (h.accounts + h.dataLen) := by
    have hlt := h.accounts_lt
    have hlt' := h.dataLen_lt
    exact if_pos (by omega)
  refine (Reads.byte h.programIndex).bind ?_
  rw [if_neg (by omega)]
  refine (Reads.byte _).bind ((Reads.take (leBytes_length 2 _)).bind_nil ?_)
  refine Reads.ofExcept_bind (if_pos (leBytes_length 2 _)) ?_
  rw [haccounts, hdata]
  exact Reads.ofExcept_bind hsum (Reads.ofExcept _)

theorem decodeV1Header_ok {numAddresses payloadLen total : Nat} {c c' : Cursor UInt8}
    (h : decodeV1Header numAddresses payloadLen c = .ok (total, c')) :
    ∃ header : V1Header, header.programIndex.toNat < numAddresses ∧
      c.rest = header.encode ++ c'.rest ∧
      addIn 64 payloadLen (header.accounts + header.dataLen) = .ok total := by
  obtain ⟨index, c₁, h₁, h⟩ := Reader.bind_ok.mp h
  by_cases hbad : numAddresses ≤ index.toNat
  · rw [if_pos hbad] at h
    exact absurd (Reader.fail_ok.mp h) id
  · rw [if_neg hbad] at h
    obtain ⟨accounts, c₂, h₂, h⟩ := Reader.bind_ok.mp h
    obtain ⟨bytes, c₃, h₃, h⟩ := Reader.bind_ok.mp h
    obtain ⟨dataLen, c₄, h₄, h⟩ := Reader.bind_ok.mp h
    obtain ⟨payload, c₅, h₅, h⟩ := Reader.bind_ok.mp h
    obtain ⟨hdataLen, rfl⟩ := Reader.ofExcept_ok.mp h₄
    obtain ⟨hpayload, rfl⟩ := Reader.ofExcept_ok.mp h₅
    obtain ⟨htotal, rfl⟩ := Reader.ofExcept_ok.mp h
    obtain ⟨rfl, hlen⟩ := toArray_ok hdataLen
    obtain ⟨-, hrest₃⟩ := Cursor.take_ok h₃
    have hlt : leValue dataLen < 65536 := by
      have hbound := leValue_lt dataLen
      rw [hlen] at hbound
      exact hbound
    let header : V1Header := ⟨index, accounts.toNat, leValue dataLen, accounts.toNat_lt, hlt⟩
    refine ⟨header, not_le.mp hbad, ?_, ?_⟩
    · rw [Cursor.byte_ok h₁, Cursor.byte_ok h₂, hrest₃]
      simp [V1Header.encode, header, leBytes_of_length hlen]
    · rw [← addIn_ok hpayload]
      exact htotal

/-! The payloads. -/

def V1Header.payloadLen (h : V1Header) : Nat := h.accounts + h.dataLen

theorem foldlM_addIn {headers : List V1Header} {start : Nat}
    (h : start + (headers.map V1Header.payloadLen).sum < 2 ^ 64) :
    headers.foldlM (fun n header => addIn 64 n (header.accounts + header.dataLen)) start =
      .ok (start + (headers.map V1Header.payloadLen).sum) := by
  induction headers generalizing start with
  | nil => rfl
  | cons header rest ih =>
    rw [List.map_cons, List.sum_cons, V1Header.payloadLen] at h ⊢
    have hone : addIn 64 start (header.accounts + header.dataLen) =
        .ok (start + (header.accounts + header.dataLen)) := if_pos (by omega)
    have hrest : rest.foldlM (fun n header => addIn 64 n (header.accounts + header.dataLen))
        (start + (header.accounts + header.dataLen)) =
          .ok (start + (header.accounts + header.dataLen) +
            (rest.map V1Header.payloadLen).sum) := ih (by omega)
    rw [List.foldlM_cons, hone]
    exact hrest.trans (congrArg Except.ok (Nat.add_assoc _ _ _))

theorem foldlM_addIn_ok {headers : List V1Header} {start total : Nat}
    (h : headers.foldlM (fun n header => addIn 64 n (header.accounts + header.dataLen)) start =
      .ok total) : total = start + (headers.map V1Header.payloadLen).sum := by
  induction headers generalizing start with
  | nil => exact (Except.ok.inj h).symm
  | cons header rest ih =>
    rw [List.foldlM_cons] at h
    cases hone : addIn 64 start (header.accounts + header.dataLen) with
    | error e =>
      rw [hone] at h
      cases h
    | ok n =>
      rw [hone] at h
      rw [ih h, addIn_ok hone, List.map_cons, List.sum_cons, V1Header.payloadLen]
      omega

theorem decodeV1Headers_ok {numAddresses n total : Nat} {c c' : Cursor UInt8}
    (h : Reader.each (List.range n) (fun _ => decodeV1Header numAddresses) 0 c =
      .ok (total, c')) :
    ∃ headers : List V1Header, headers.length = n ∧
      (∀ header ∈ headers, header.programIndex.toNat < numAddresses) ∧
      c.rest = headers.flatMap V1Header.encode ++ c'.rest ∧
      total = (headers.map V1Header.payloadLen).sum := by
  have hturn : ∀ m (c : Cursor UInt8) m' c', decodeV1Header numAddresses m c = .ok (m', c') →
      ∃ header : V1Header, header.programIndex.toNat < numAddresses ∧
        c.rest = header.encode ++ c'.rest ∧
        addIn 64 m (header.accounts + header.dataLen) = .ok m' := by
    intro m c m' c' hread
    exact decodeV1Header_ok hread
  obtain ⟨headers, hlen, hindexed, hrest, hfold⟩ := Reader.times_ok hturn h
  have htotal := foldlM_addIn_ok hfold
  rw [Nat.zero_add] at htotal
  exact ⟨headers, hlen, hindexed, hrest, htotal⟩

theorem exists_instructions {headers : List V1Header} {payload : List UInt8}
    (h : payload.length = (headers.map V1Header.payloadLen).sum) :
    ∃ instructions : List V1Instruction, instructions.map V1Instruction.header = headers ∧
      instructions.flatMap V1Instruction.payload = payload := by
  induction headers generalizing payload with
  | nil => exact ⟨[], rfl, (List.length_eq_zero_iff.mp h).symm⟩
  | cons header rest ih =>
    obtain ⟨index, accounts, dataLen, haccounts_lt, hdataLen_lt⟩ := header
    rw [List.map_cons, List.sum_cons] at h
    change payload.length = accounts + dataLen + (rest.map V1Header.payloadLen).sum at h
    have hdrop : (payload.drop (accounts + dataLen)).length =
        (rest.map V1Header.payloadLen).sum := by
      rw [List.length_drop]
      omega
    obtain ⟨instructions, hheaders, hpayload⟩ := ih hdrop
    have haccounts : (payload.take accounts).length = accounts := by
      rw [List.length_take]
      omega
    have hdata : ((payload.drop accounts).take dataLen).length = dataLen := by
      rw [List.length_take, List.length_drop]
      omega
    let ix : V1Instruction := ⟨index, payload.take accounts, (payload.drop accounts).take dataLen,
      haccounts.symm ▸ haccounts_lt, hdata.symm ▸ hdataLen_lt⟩
    refine ⟨ix :: instructions, ?_, ?_⟩
    · rw [List.map_cons, hheaders]
      simp only [V1Instruction.header, ix, haccounts, hdata]
    · have hsplit : payload.take accounts ++ (payload.drop accounts).take dataLen =
          payload.take (accounts + dataLen) := List.take_add.symm
      rw [List.flatMap_cons, hpayload]
      change payload.take accounts ++ (payload.drop accounts).take dataLen ++ _ = payload
      rw [hsplit, List.take_append_drop]

/-! Reading the whole. -/

theorem V1Transaction.payload_length (tx : V1Transaction) :
    (tx.instructions.flatMap V1Instruction.payload).length =
      ((tx.instructions.map V1Instruction.header).map V1Header.payloadLen).sum := by
  rw [List.length_flatMap, List.map_map]
  congr 1
  refine List.map_congr_left ?_
  intro ix _
  exact List.length_append

theorem V1Transaction.payload_lt (tx : V1Transaction) :
    (tx.instructions.flatMap V1Instruction.payload).length < 2 ^ 32 := by
  have hone : ∀ ix ∈ tx.instructions, ix.payload.length ≤ 65790 := by
    intro ix _
    have haccounts := ix.accounts_lt
    have hdata := ix.data_lt
    rw [V1Instruction.payload, List.length_append]
    omega
  have hsum := List.sum_le_card_nsmul (tx.instructions.map (fun ix => ix.payload.length)) 65790
    (by simpa using hone)
  have hcount := tx.instructions_lt
  rw [List.length_map, smul_eq_mul] at hsum
  rw [List.length_flatMap]
  omega

theorem v1Price_ok {limit : Nat} {fee : Option Nat} (hfee : ∀ f, fee = some f → f < 2 ^ 64) :
    v1Price (min limit maxComputeUnits) fee = .ok (fee.map (fun fee =>
      if limit = 0 then 0 else min (2 ^ 64 - 1) (fee * 10 ^ 6 / min limit maxComputeUnits))) := by
  cases fee with
  | none => rfl
  | some f =>
    have hlt := hfee f rfl
    have hscaled : mulIn 128 f 1000000 = .ok (f * 1000000) := if_pos (by omega)
    have hzero : min limit maxComputeUnits = 0 ↔ limit = 0 := by
      rw [maxComputeUnits]
      omega
    have hprice : v1Price (min limit maxComputeUnits) (some f) =
        if min limit maxComputeUnits = 0 then .ok (some 0)
        else .ok (some (min (f * 1000000 / min limit maxComputeUnits) (2 ^ 64 - 1))) :=
      ok_bind hscaled _
    rw [hprice, Option.map_some]
    by_cases hz : limit = 0
    · rw [if_pos (hzero.mpr hz), if_pos hz]
    · rw [if_neg (fun h => hz (hzero.mp h)), if_neg hz, min_comm (2 ^ 64 - 1)]
      rfl

theorem V1Transaction.fee_lt {tx : V1Transaction} {f : Nat} (h : tx.fee = some f) :
    f < 2 ^ 64 := by
  unfold fee at h
  split at h
  · rename_i low high hlow hhigh
    have hl := value_lt hlow
    have hh := value_lt hhigh
    obtain rfl := Option.some.inj h
    omega
  · cases h

theorem V1Transaction.indexed_header (tx : V1Transaction) {header : V1Header}
    (h : header ∈ tx.instructions.map V1Instruction.header) :
    header.programIndex.toNat < tx.addresses.length := by
  obtain ⟨ix, hix, rfl⟩ := List.mem_map.mp h
  exact tx.indexed ix hix

theorem V1Transaction.config_limit (tx : V1Transaction) : tx.config.limit = tx.value 2 :=
  tx.config_get 2 (by decide)

def V1Transaction.result (tx : V1Transaction) : Except Stop TransactionInfo :=
  if tx.FeeWhole then .ok tx.summary else .error (.err .invalidBudget)

theorem toNat_ofNat_lt {n : Nat} (h : n < 256) : (UInt8.ofNat n).toNat = n := by
  rw [UInt8.toNat_ofNat']
  omega

theorem ReadsAll.v1 (tx : V1Transaction) : ReadsAll decodeV1Reader tx.encode tx.result := by
  have hsigs := toNat_ofNat_lt tx.signatures_lt
  have haddresses := toNat_ofNat_lt tx.addresses_lt
  have hinstructions := toNat_ofNat_lt tx.instructions_lt
  have haddresses_lt := tx.addresses_lt
  have hpayload := tx.payload_lt
  have hsigs_lt := tx.signatures_lt
  refine (Reads.skip rfl).bind_all ((Reads.byte _).bind_all ?_)
  refine (Reads.skip tx.readonly.toList_length).bind_all ((Reads.leU32 tx.mask).bind_all ?_)
  refine (Reads.skip tx.lifetime.toList_length).bind_all ?_
  refine (Reads.byte _).bind_all ((Reads.byte _).bind_all ?_)
  rw [hsigs, haddresses, hinstructions]
  refine Reads.ofExcept_bind_all (if_pos (by omega)) ?_
  refine (Reads.skip (flatMap_blocks_length _)).bind_all ((Reads.config tx).bind_all ?_)
  unfold V1Transaction.result
  by_cases hfee : tx.FeeWhole
  · rw [if_pos hfee]
    have hloop := Reads.times
      (fun payloadLen header hh => Reads.v1Header (tx.indexed_header hh) payloadLen) 0
    rw [List.length_map, foldlM_addIn (by rw [← tx.payload_length]; omega), Nat.zero_add] at hloop
    refine Reads.ofExcept_bind_all (tx.config_fee.1 hfee) (hloop.bind_all ?_)
    refine (Reads.skip tx.payload_length).bind_all (ReadsAll.remaining ?_)
    refine Reads.ofExcept_bind_all (if_pos (by omega)) ?_
    rw [if_neg (not_not.mpr (flatMap_blocks_length _)), tx.config_limit]
    refine Reads.ofExcept_bind_all (v1Price_ok (fun _ => tx.fee_lt)) ?_
    exact ReadsAll.pure _ _
  · rw [if_neg hfee, tx.config_fee.2 hfee]
    exact ReadsAll.error (Reads.ofExcept _).bind_error _

/-- A fee that is read has both halves or neither, and with its price the summary is done. -/
theorem V1Transaction.summary_of_fee (tx : V1Transaction) {fee price : Option Nat}
    (hfee : tx.config.fee = .ok fee)
    (hprice : v1Price (min (tx.config.limit.getD 0) maxComputeUnits) fee = .ok price) :
    tx.FeeWhole ∧ tx.summary =
      { cuLimit := tx.config.limit.getD 0
        cuLimitDefaulted := tx.config.limit.isNone
        cuPriceMicroLamports := price
        requestedPriorityFeeLamports := fee
        numInstructions := tx.instructions.length
        numSignatures := tx.signatures.length
        isVersioned := true } := by
  have hwhole : tx.FeeWhole := by
    by_contra hhalf
    rw [tx.config_fee.2 hhalf] at hfee
    cases hfee
  rw [tx.config_fee.1 hwhole] at hfee
  obtain rfl : tx.fee = fee := Except.ok.inj hfee
  rw [tx.config_limit, v1Price_ok (fun _ => tx.fee_lt)] at hprice
  obtain rfl := Except.ok.inj hprice
  rw [tx.config_limit]
  exact ⟨hwhole, rfl⟩

theorem decodeV1Reader_ok {info : TransactionInfo} {c c' : Cursor UInt8}
    (h : decodeV1Reader c = .ok (info, c')) :
    ∃ (tx : V1Transaction) (first : UInt8), c.rest = first :: tx.encodeBody ∧ tx.FeeWhole ∧
      info = tx.summary := by
  obtain ⟨u₁, c₁, h₁, h⟩ := Reader.bind_ok.mp h
  obtain ⟨numSignatures, c₂, h₂, h⟩ := Reader.bind_ok.mp h
  obtain ⟨u₃, c₃, h₃, h⟩ := Reader.bind_ok.mp h
  obtain ⟨maskValue, c₄, h₄, h⟩ := Reader.bind_ok.mp h
  obtain ⟨u₅, c₅, h₅, h⟩ := Reader.bind_ok.mp h
  obtain ⟨numInstructions, c₆, h₆, h⟩ := Reader.bind_ok.mp h
  obtain ⟨numAddresses, c₇, h₇, h⟩ := Reader.bind_ok.mp h
  obtain ⟨addressesLen, c₈, h₈, h⟩ := Reader.bind_ok.mp h
  obtain ⟨u₉, c₉, h₉, h⟩ := Reader.bind_ok.mp h
  obtain ⟨config, c₁₀, h₁₀, h⟩ := Reader.bind_ok.mp h
  obtain ⟨fee, c₁₁, h₁₁, h⟩ := Reader.bind_ok.mp h
  obtain ⟨payloadLen, c₁₂, h₁₂, h⟩ := Reader.bind_ok.mp h
  obtain ⟨u₁₃, c₁₃, h₁₃, h⟩ := Reader.bind_ok.mp h
  obtain ⟨remaining, c₁₄, h₁₄, h⟩ := Reader.bind_ok.mp h
  obtain ⟨signaturesLen, c₁₅, h₁₅, h⟩ := Reader.bind_ok.mp h
  obtain ⟨version, hversion, hrest₁⟩ := Cursor.skip_ok h₁
  obtain ⟨first, rfl⟩ := List.length_eq_one_iff.mp hversion
  obtain ⟨readonly, hreadonly, hrest₃⟩ := Cursor.skip_ok h₃
  obtain ⟨mask, rfl, hrest₄⟩ := Cursor.leU32_ok h₄
  obtain ⟨lifetime, hlifetime, hrest₅⟩ := Cursor.skip_ok h₅
  obtain ⟨haddressesLen, rfl⟩ := Reader.ofExcept_ok.mp h₈
  obtain ⟨addressBytes, haddressBytes, hrest₉⟩ := Cursor.skip_ok h₉
  obtain ⟨addresses, haddresses, rfl⟩ :=
    exists_blocks (haddressBytes.trans (mulIn_ok haddressesLen))
  obtain ⟨values, hvalues, hrest₁₀, hconfig⟩ := decodeConfig_ok h₁₀
  obtain ⟨hfee, rfl⟩ := Reader.ofExcept_ok.mp h₁₁
  obtain ⟨headers, hheaders, hindexed, hrest₁₂, rfl⟩ := decodeV1Headers_ok h₁₂
  obtain ⟨payload, hpayload, hrest₁₃⟩ := Cursor.skip_ok h₁₃
  obtain ⟨instructions, rfl, rfl⟩ := exists_instructions hpayload
  obtain ⟨hremaining, rfl⟩ := Reader.remaining_ok h₁₄
  obtain ⟨hsignaturesLen, rfl⟩ := Reader.ofExcept_ok.mp h₁₅
  by_cases hne : remaining ≠ signaturesLen
  · rw [if_pos hne] at h
    exact absurd (Reader.fail_ok.mp h) id
  · rw [if_neg hne] at h
    obtain ⟨price, c₁₆, h₁₆, h⟩ := Reader.bind_ok.mp h
    obtain ⟨hprice, rfl⟩ := Reader.ofExcept_ok.mp h₁₆
    obtain ⟨hinfo, rfl⟩ := Reader.pure_ok.mp h
    have hleft := (hremaining.symm.trans (not_not.mp hne)).trans (mulIn_ok hsignaturesLen)
    obtain ⟨signatures, hsignatures, hrest⟩ := exists_blocks hleft
    rw [List.length_map] at hheaders
    let tx : V1Transaction :=
      { signatures := signatures
        readonly := ⟨readonly, hreadonly⟩
        mask := mask
        lifetime := ⟨lifetime, hlifetime⟩
        addresses := addresses
        values := values
        instructions := instructions
        signatures_lt := hsignatures ▸ numSignatures.toNat_lt
        addresses_lt := haddresses ▸ numAddresses.toNat_lt
        instructions_lt := hheaders ▸ numInstructions.toNat_lt
        values_length := hvalues
        indexed := fun ix hix => haddresses ▸ hindexed _ (List.mem_map_of_mem hix) }
    have htx : tx.config = config := hconfig
    rw [← htx] at hfee hprice hinfo
    obtain ⟨hwhole, hsummary⟩ := tx.summary_of_fee hfee hprice
    refine ⟨tx, first, ?_, hwhole, ?_⟩
    · rw [hrest₁, Cursor.byte_ok h₂, hrest₃, hrest₄, hrest₅, Cursor.byte_ok h₆, Cursor.byte_ok h₇,
        hrest₉, hrest₁₀, hrest₁₂, hrest₁₃, ← hrest]
      simp only [V1Transaction.encodeBody, tx, hsignatures, haddresses, hheaders,
        UInt8.ofNat_toNat]
      rfl
    · rw [hsummary, ← hinfo, ← hsignatures, ← hheaders]

/-! The decoder accepts the format. -/

theorem V1Transaction.encode_length_lt (tx : V1Transaction) : tx.encode.length < 2 ^ 64 := by
  have hpayload := tx.payload_lt
  have hsigs := tx.signatures_lt
  have haddresses := tx.addresses_lt
  have hinstructions := tx.instructions_lt
  have hvalues : tx.values.length ≤ 32 := by
    rw [tx.values_length]
    exact (List.length_filter_le _ _).trans (List.length_range).le
  have hwords : (tx.values.flatMap (fun v => leBytes 4 v.toNat)).length = tx.values.length * 4 :=
    flatMap_length (fun v => leBytes_length 4 v.toNat) tx.values
  have hheader : ∀ header : V1Header, header.encode.length = 4 := fun header => by
    simp [V1Header.encode]
  have hheaders : ((tx.instructions.map V1Instruction.header).flatMap V1Header.encode).length =
      tx.instructions.length * 4 := by
    rw [flatMap_length hheader, List.length_map]
  rw [encode, encodeBody]
  simp only [List.length_append, List.length_cons, List.length_nil, flatMap_blocks_length,
    List.Vector.toList_length, leBytes_length, hwords, hheaders]
  omega

theorem decodeV1_encode (tx : V1Transaction) : decodeV1 tx.encode = tx.result := by
  have hread := ReadsAll.v1 tx (Cursor.new tx.encode) rfl
    ((Nat.zero_add _).symm ▸ tx.encode_length_lt)
  exact hread

theorem decodeV1_ok {b : List UInt8} {info : TransactionInfo} (h : decodeV1 b = .ok info) :
    ∃ (tx : V1Transaction) (first : UInt8), b = first :: tx.encodeBody ∧ tx.FeeWhole ∧
      info = tx.summary := by
  unfold decodeV1 at h
  cases hread : decodeV1Reader (Cursor.new b) with
  | error e =>
    rw [hread] at h
    cases h
  | ok r =>
    obtain ⟨info', c'⟩ := r
    rw [hread] at h
    obtain rfl : info' = info := Except.ok.inj h
    exact decodeV1Reader_ok hread

theorem decodeTransaction_v1_encode (tx : V1Transaction) (h : tx.FeeWhole) :
    decodeTransaction tx.encode = .ok tx.summary := by
  have hv1 : decodeTransaction tx.encode = decodeV1 tx.encode := if_pos rfl
  rw [hv1, decodeV1_encode]
  exact if_pos h

/-- A byte string that begins with 0x81 is decoded exactly when it is the encoding of a v1
transaction, nothing more, with both halves of the fee or neither, and then to its summary;
with one half it is refused for that. -/
theorem v1_decoding (b : List UInt8) (hfirst : b.head? = some v1Prefix) :
    (∀ info, decodeTransaction b = .ok info ↔
      ∃ tx : V1Transaction, b = tx.encode ∧ tx.FeeWhole ∧ info = tx.summary) ∧
    ∀ tx : V1Transaction, b = tx.encode → ¬ tx.FeeWhole →
      decodeTransaction b = .error (.err .invalidBudget) := by
  have hv1 : decodeTransaction b = decodeV1 b := if_pos hfirst
  rw [hv1]
  refine ⟨?_, ?_⟩
  · intro info
    constructor
    · intro h
      obtain ⟨tx, first, rfl, hwhole, rfl⟩ := decodeV1_ok h
      obtain rfl : first = v1Prefix := Option.some.inj hfirst
      exact ⟨tx, rfl, hwhole, rfl⟩
    · rintro ⟨tx, rfl, hwhole, rfl⟩
      exact (decodeV1_encode tx).trans (if_pos hwhole)
  · rintro tx rfl hhalf
    exact (decodeV1_encode tx).trans (if_neg hhalf)

def pricedInstruction : V1Instruction := ⟨1, [0, 1], [2, 0xFF, 0], by decide, by decide⟩

/-- A fee of 290 lamports for 222603 units, and an instruction with two accounts and three
bytes of data. -/
def pricedV1 : V1Transaction where
  signatures := [List.Vector.replicate 64 0]
  readonly := ⟨[0, 1], rfl⟩
  mask := 7
  lifetime := List.Vector.replicate 32 0
  addresses := [List.Vector.replicate 32 1, List.Vector.replicate 32 2]
  values := [290, 0, 222603]
  instructions := [pricedInstruction]
  signatures_lt := by decide
  addresses_lt := by decide
  instructions_lt := by decide
  values_length := by decide
  indexed := by decide

theorem v1_decoding_priced : decodeTransaction pricedV1.encode =
    .ok ⟨222603, false, some 1302, some 290, 1, 1, true⟩ := by
  have hsummary : pricedV1.summary = ⟨222603, false, some 1302, some 290, 1, 1, true⟩ := by
    decide +kernel
  have hwhole : pricedV1.FeeWhole := by decide
  exact ((v1_decoding pricedV1.encode rfl).1 _).mpr ⟨pricedV1, rfl, hwhole, hsummary.symm⟩

end RpcPlane
