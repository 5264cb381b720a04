import RpcPlane.LegacyFormat
import RpcPlane.ReaderSafety
import RpcPlane.V1Format

/-! The decoder again, with every sum, product, difference and shift of the source checked, the
saturating ones with the others: the checks never fail, and nothing else stops it either. -/

namespace RpcPlane

/-! Machine operations that stop where bits would be lost. -/

def subIn (a b : Nat) : Except Stop Nat :=
  if b ≤ a then .ok (a - b) else .error .panic

def shlIn (bits n shift : Nat) : Except Stop Nat :=
  if shift < bits ∧ n <<< shift < 2 ^ bits then .ok (n <<< shift) else .error .panic

/-! The cursor. -/

/-- No slice has more than `isize::MAX` bytes; in one, the end of the read must be a position. -/
def Checked.take (len : Nat) : Decode (List UInt8) := fun c =>
  if c.bytes.length < 2 ^ 63 ∧ 2 ^ 64 ≤ c.pos + len then .error .panic else Cursor.take len c

def Checked.skip (len : Nat) : Decode Unit := do
  let _ ← Checked.take len
  pure ()

def Checked.byte : Decode UInt8 := do
  let taken ← Checked.take 1
  match taken[0]? with
  | some b => pure b
  | none => .fail .panic

def Checked.remaining : Decode Nat := fun c =>
  Reader.ofExcept (subIn c.bytes.length c.pos) c

def Checked.shortvecFrom : List Nat → Nat → Decode Nat
  | [], _ => .fail (.err .unparsed)
  | shift :: shifts, value => do
    let byte ← Checked.byte
    if shift = 14 ∧ 3 < byte then .fail (.err .unparsed)
    else
      let digit ← .ofExcept (shlIn 64 (byte &&& 0x7F).toNat shift)
      let value := value ||| digit
      if byte &&& 0x80 = 0 then
        if 0 < shift ∧ byte = 0 then .fail (.err .unparsed) else pure value
      else Checked.shortvecFrom shifts value

def Checked.shortvec : Decode Nat := Checked.shortvecFrom [0, 7, 14] 0

def Checked.leU32 : Decode Nat := do
  let taken ← Checked.take 4
  let taken ← .ofExcept (toArray 4 taken)
  pure (leValue taken)

theorem Safe.take {len : Nat} (h : len ≤ 2 ^ 63) :
    Safe .panic (Checked.take len) (Cursor.take len) (fun w => w.length = len) := by
  have hsame : Checked.take len = Cursor.take len := by
    funext c
    have hin := c.inside
    exact if_neg (by omega)
  rw [hsame]
  exact Safe.takeOr (by decide) len

theorem Safe.skip {len : Nat} (h : len ≤ 2 ^ 63) :
    Safe .panic (Checked.skip len) (Cursor.skip len) (fun _ => True) :=
  (Safe.take h).bind fun _ _ => Safe.pure trivial

theorem Safe.byte : Safe .panic Checked.byte Cursor.byte (fun _ => True) := by
  refine (Safe.take (by decide)).bind ?_
  intro taken hlen
  obtain ⟨b, rfl⟩ := List.length_eq_one_iff.mp hlen
  exact Safe.pure trivial

theorem Safe.remaining :
    Safe .panic Checked.remaining (Reader.remaining : Decode Nat) (fun _ => True) := by
  intro c
  have hsub : subIn c.bytes.length c.pos = .ok c.remaining := if_pos c.inside
  have hsame : Checked.remaining c = .ok (c.remaining, c) := by
    rw [Checked.remaining, hsub]
    rfl
  rw [hsame]
  exact ⟨rfl, by simp, fun _ _ _ => trivial⟩

theorem shl_digit (byte : UInt8) {shift : Nat} (h : shift ≤ 14) :
    shlIn 64 (byte &&& 0x7F).toNat shift = .ok ((byte &&& 0x7F).toNat <<< shift) := by
  refine if_pos ⟨by omega, ?_⟩
  have hdigit : (byte &&& 0x7F).toNat < 128 := by
    rw [and_low_toNat]
    omega
  calc (byte &&& 0x7F).toNat <<< shift = (byte &&& 0x7F).toNat * 2 ^ shift := Nat.shiftLeft_eq _ _
    _ ≤ 127 * 2 ^ 14 :=
        Nat.mul_le_mul (by omega) (Nat.pow_le_pow_right (by decide) h)
    _ < 2 ^ 64 := by norm_num

theorem Safe.shortvecFrom {shifts : List Nat} (h : ∀ shift ∈ shifts, shift ≤ 14) (value : Nat) :
    Safe .panic (Checked.shortvecFrom shifts value) (RpcPlane.shortvecFrom shifts value)
      (fun _ => True) := by
  induction shifts generalizing value with
  | nil => exact Safe.fail (by decide)
  | cons shift shifts ih =>
    have hrest := fun shift hs => h shift (List.mem_cons_of_mem _ hs)
    refine Safe.byte.bind ?_
    intro byte _
    refine Safe.ite (fun _ => Safe.fail (by decide)) ?_
    intro _
    refine Safe.checked (shl_digit byte (h shift List.mem_cons_self)) ?_
    refine Safe.ite (fun _ => ?_) (fun _ => ih hrest _)
    exact Safe.ite (fun _ => Safe.fail (by decide)) (fun _ => Safe.pure trivial)

theorem Safe.shortvec : Safe .panic Checked.shortvec Cursor.shortvec (· < 65536) := by
  have hshifts : ∀ shift ∈ [0, 7, 14], shift ≤ 14 := by decide
  exact (Safe.shortvecFrom hshifts 0).known fun c n c' hread => (Cursor.shortvec_ok hread).1

theorem toArray_of_length {n : Nat} {bs : List UInt8} (h : bs.length = n) : toArray n bs = .ok bs :=
  if_pos h

theorem leValue_lt_of_length {n : Nat} {bs : List UInt8} (h : bs.length = n) :
    leValue bs < 256 ^ n := h ▸ leValue_lt bs

theorem Safe.leU32 : Safe .panic Checked.leU32 Cursor.leU32 (· < 2 ^ 32) := by
  refine (Safe.take (by decide)).bind ?_
  intro taken hlen
  have harray := toArray_of_length hlen
  refine (Safe.value harray harray).bind ?_
  intro word hword
  subst hword
  exact Safe.pure (leValue_lt_of_length hlen)

/-! Legacy and v0. -/

def Checked.charge (b : Budget) (programKey : List UInt8) : Except Stop Budget := do
  let limit ← addIn 64 b.defaultLimit (instructionUnits programKey)
  pure { b with defaultLimit := limit }

def Checked.instruction (b : Budget) (programKey data : List UInt8) : Except Stop Budget := do
  let b ← Checked.charge b programKey
  if programKey ≠ computeBudgetId then .ok b
  else
    match data.head? with
    | none => .error (.err .invalidBudget)
    | some tag =>
      if tag = 2 then do
        let limit ← readOnce b.explicitLimit data 4
        pure { b with explicitLimit := limit }
      else if tag = 3 then do
        let price ← readOnce b.price data 8
        pure { b with price := price }
      else .ok b

def Checked.decodeInstruction (keys : List UInt8) (keyCount : Nat) (b : Budget) : Decode Budget := do
  let programIndex ← Checked.byte
  let programIndex := programIndex.toNat
  if keyCount ≤ programIndex then .fail (.err .unparsed)
  else
    let accounts ← Checked.shortvec
    Checked.skip accounts
    let dataLen ← Checked.shortvec
    let data ← Checked.take dataLen
    let lo ← .ofExcept (mulIn 64 programIndex 32)
    let hi ← .ofExcept (addIn 64 lo 32)
    let programKey ← .ofExcept (slice keys lo hi)
    .ofExcept (Checked.instruction b programKey data)

def Checked.priorityFee (effectiveCuLimit price : Nat) : Except Stop Nat := do
  let product ← mulIn 128 effectiveCuLimit price
  let raised ← addIn 128 product 999999
  pure (min (raised / 1000000) (2 ^ 64 - 1))

/-- `price.map`, over a fee that may stop. -/
def Checked.requestedFee (effectiveCuLimit : Nat) : Option Nat → Except Stop (Option Nat)
  | none => .ok none
  | some price => do
    let fee ← Checked.priorityFee effectiveCuLimit price
    pure (some fee)

def Checked.info (b : Budget) (numInstructions numSignatures : Nat) (isVersioned : Bool) :
    Except Stop TransactionInfo := do
  let limits :=
    match b.explicitLimit with
    | some limit => (limit, min limit maxComputeUnits, false)
    | none =>
      let limit := min b.defaultLimit maxComputeUnits
      (limit, limit, true)
  let fee ← Checked.requestedFee limits.2.1 b.price
  pure
    { cuLimit := limits.1
      cuLimitDefaulted := limits.2.2
      cuPriceMicroLamports := b.price
      requestedPriorityFeeLamports := fee
      numInstructions := numInstructions
      numSignatures := numSignatures
      isVersioned := isVersioned }

def Checked.decodeHeader : Decode Bool := do
  let first ← Checked.byte
  if first &&& 0x80 ≠ 0 then
    if first ≠ 0x80 then .fail (.err .unsupported)
    else
      Checked.skip 3
      pure true
  else
    Checked.skip 2
    pure false

def Checked.decodeLegacy : Decode TransactionInfo := do
  let numSignatures ← Checked.shortvec
  let signaturesLen ← .ofExcept (mulIn 64 numSignatures 64)
  Checked.skip signaturesLen
  let isVersioned ← Checked.decodeHeader
  let keyCount ← Checked.shortvec
  let keysLen ← .ofExcept (mulIn 64 keyCount 32)
  let keys ← Checked.take keysLen
  Checked.skip 32
  let instructionCount ← Checked.shortvec
  let budget ← .each (List.range instructionCount)
    (fun _ => Checked.decodeInstruction keys keyCount) {}
  .ofExcept (Checked.info budget instructionCount numSignatures isVersioned)

/-! v1. -/

/-- The set bits of a `u32` among `bits`. -/
def Checked.maskBits (mask : Nat) : List Nat → Except Stop (List Nat)
  | [] => .ok []
  | bit :: bits => do
    let one ← shlIn 32 1 bit
    let rest ← Checked.maskBits mask bits
    pure (if mask &&& one != 0 then bit :: rest else rest)

def Checked.decodeConfigValue (bit : Nat) (config : V1Config) : Decode V1Config := do
  let value ← Checked.leU32
  pure (config.set bit value)

def Checked.fee (config : V1Config) : Except Stop (Option Nat) :=
  match config.feeLow, config.feeHigh with
  | some low, some high => do
    let high ← shlIn 64 high 32
    pure (some (high ||| low))
  | none, none => .ok none
  | _, _ => .error (.err .invalidBudget)

def Checked.decodeV1Header (numAddresses : Nat) (payloadLen : Nat) : Decode Nat := do
  let programIndex ← Checked.byte
  if numAddresses ≤ programIndex.toNat then .fail (.err .unparsed)
  else
    let accounts ← Checked.byte
    let dataLen ← Checked.take 2
    let dataLen ← .ofExcept (toArray 2 dataLen)
    let payload ← .ofExcept (addIn 64 accounts.toNat (leValue dataLen))
    .ofExcept (addIn 64 payloadLen payload)

def Checked.decodeV1Reader : Decode TransactionInfo := do
  Checked.skip 1
  let numSignatures ← Checked.byte
  Checked.skip 2
  let mask ← Checked.leU32
  Checked.skip 32
  let numInstructions ← Checked.byte
  let numAddresses ← Checked.byte
  let addressesLen ← .ofExcept (mulIn 64 numAddresses.toNat 32)
  Checked.skip addressesLen
  let bits ← .ofExcept (Checked.maskBits mask (List.range 32))
  let config ← .each bits Checked.decodeConfigValue {}
  let fee ← .ofExcept (Checked.fee config)
  let payloadLen ← .each (List.range numInstructions.toNat)
    (fun _ => Checked.decodeV1Header numAddresses.toNat) 0
  Checked.skip payloadLen
  let remaining ← Checked.remaining
  let signaturesLen ← .ofExcept (mulIn 64 numSignatures.toNat 64)
  if remaining ≠ signaturesLen then .fail (.err .unparsed)
  else
    let cuLimit := config.limit.getD 0
    let price ← .ofExcept (v1Price (min cuLimit maxComputeUnits) fee)
    pure
      { cuLimit := cuLimit
        cuLimitDefaulted := config.limit.isNone
        cuPriceMicroLamports := price
        requestedPriorityFeeLamports := fee
        numInstructions := numInstructions.toNat
        numSignatures := numSignatures.toNat
        isVersioned := true }

def Checked.decodeTransaction (bytes : List UInt8) : Except Stop TransactionInfo :=
  if bytes.head? = some v1Prefix then (Checked.decodeV1Reader (Cursor.new bytes)).map Prod.fst
  else if bytes.head?.any (v1Prefix < ·) then .error (.err .unsupported)
  else (Checked.decodeLegacy (Cursor.new bytes)).map Prod.fst

/-! Every check of the legacy decoder goes through. -/

/-- The bounds on what the loop carries after `n` instructions. -/
structure Budget.Within (n : Nat) (b : Budget) : Prop where
  defaultLimit : b.defaultLimit ≤ defaultInstructionComputeUnits * n
  price : ∀ price, b.price = some price → price < 2 ^ 64

theorem instructionUnits_le (programKey : List UInt8) :
    instructionUnits programKey ≤ defaultInstructionComputeUnits := by
  unfold instructionUnits
  split_ifs
  · decide
  · exact le_refl _

/-- A sum of default limits is no more than 65535 times the largest. -/
theorem charge_checked {n : Nat} {b : Budget} (hb : b.Within n) (hn : n < 65536)
    (programKey : List UInt8) : Checked.charge b programKey = .ok (b.charge programKey) := by
  have hunits := instructionUnits_le programKey
  have hlimit := hb.defaultLimit
  rw [defaultInstructionComputeUnits] at hunits hlimit
  have hfits : b.defaultLimit + instructionUnits programKey < 2 ^ 64 := by omega
  have hadd : addIn 64 b.defaultLimit (instructionUnits programKey) =
      .ok (b.defaultLimit + instructionUnits programKey) := if_pos hfits
  have hsaturate : saturate 64 (b.defaultLimit + instructionUnits programKey) =
      b.defaultLimit + instructionUnits programKey := min_eq_left (by omega)
  rw [Checked.charge, hadd, Budget.charge, hsaturate]
  rfl

theorem Budget.Within.charge {n : Nat} {b : Budget} (hb : b.Within n) (programKey : List UInt8) :
    (b.charge programKey).Within (n + 1) := by
  refine ⟨?_, hb.price⟩
  have hunits := instructionUnits_le programKey
  have hlimit := hb.defaultLimit
  have hle : (b.charge programKey).defaultLimit ≤
      b.defaultLimit + instructionUnits programKey := Nat.min_le_left _ _
  rw [Nat.mul_succ]
  omega

theorem readOnce_ends (field : Option Nat) (data : List UInt8) (width : Nat) :
    readOnce field data width = .error (.err .invalidBudget) ∨
      ∃ value < 256 ^ width, readOnce field data width = .ok (some value) := by
  by_cases hok : width + 1 ≤ data.length ∧ field = none
  · obtain ⟨hlong, rfl⟩ := hok
    exact Or.inr ⟨tagValue width data, tagValue_lt width data, readOnce_ok hlong⟩
  · exact Or.inl (readOnce_error hok)

theorem instruction_ends {n : Nat} {b : Budget} (hb : b.Within n) (programKey data : List UInt8) :
    b.instruction programKey data = .error (.err .invalidBudget) ∨
      ∃ b' : Budget, b'.Within (n + 1) ∧ b.instruction programKey data = .ok b' := by
  have hcharged := hb.charge programKey
  unfold Budget.instruction
  dsimp only
  by_cases hid : programKey ≠ computeBudgetId
  · rw [if_pos hid]
    exact Or.inr ⟨_, hcharged, rfl⟩
  rw [if_neg hid]
  cases hhead : data.head? with
  | none => exact Or.inl rfl
  | some tag =>
    dsimp only
    by_cases htwo : tag = 2
    · rw [if_pos htwo]
      rcases readOnce_ends (b.charge programKey).explicitLimit data 4 with hread | ⟨v, hv, hread⟩
      · rw [hread]
        exact Or.inl rfl
      · rw [hread]
        let b' : Budget := { b.charge programKey with explicitLimit := some v }
        exact Or.inr ⟨b', ⟨hcharged.defaultLimit, hcharged.price⟩, rfl⟩
    rw [if_neg htwo]
    by_cases hthree : tag = 3
    · rw [if_pos hthree]
      rcases readOnce_ends (b.charge programKey).price data 8 with hread | ⟨v, hv, hread⟩
      · rw [hread]
        exact Or.inl rfl
      · rw [hread]
        let b' : Budget := { b.charge programKey with price := some v }
        refine Or.inr ⟨b', ⟨hcharged.defaultLimit, ?_⟩, rfl⟩
        intro price hprice
        obtain rfl := Option.some.inj hprice
        exact hv
    · rw [if_neg hthree]
      exact Or.inr ⟨_, hcharged, rfl⟩

theorem Safe.instruction {n : Nat} {b : Budget} (hb : b.Within n) (hn : n < 65536)
    (programKey data : List UInt8) :
    Safe .panic (Reader.ofExcept (Checked.instruction b programKey data) : Decode Budget)
      (Reader.ofExcept (b.instruction programKey data)) (Budget.Within (n + 1)) := by
  have hsame : Checked.instruction b programKey data = b.instruction programKey data := by
    rw [Checked.instruction, charge_checked hb hn]
    rfl
  rcases instruction_ends hb programKey data with hend | ⟨b', hb', hend⟩
  · rw [hsame, hend]
    exact Safe.fail (by decide)
  · rw [hsame, hend]
    exact Safe.pure hb'

/-- The index was checked against the number of keys, and the keys are all there. -/
theorem Safe.decodeInstruction {keys : List UInt8} {keyCount n : Nat} {b : Budget}
    (hkeys : keys.length = keyCount * 32) (hb : b.Within n) (hn : n < 65536) :
    Safe .panic (Checked.decodeInstruction keys keyCount b)
      (RpcPlane.decodeInstruction keys keyCount b) (Budget.Within (n + 1)) := by
  refine Safe.byte.bind ?_
  intro index _
  have hindex := index.toNat_lt
  refine Safe.ite (fun _ => Safe.fail (by decide)) ?_
  intro hin
  refine Safe.shortvec.bind ?_
  intro accounts haccounts
  refine (Safe.skip (by omega)).bind ?_
  intro _ _
  refine Safe.shortvec.bind ?_
  intro dataLen hdataLen
  refine (Safe.take (by omega)).bind ?_
  intro data _
  have hlo : mulIn 64 index.toNat 32 = .ok (index.toNat * 32) := if_pos (by omega)
  refine (Safe.value hlo hlo).bind ?_
  intro lo hlo
  have hhi : addIn 64 lo 32 = .ok (lo + 32) := if_pos (by omega)
  refine (Safe.value hhi hhi).bind ?_
  intro hi hhi
  have hslice : slice keys lo hi = .ok ((keys.drop lo).take (hi - lo)) :=
    if_pos ⟨by omega, by omega⟩
  refine (Safe.value hslice hslice).bind ?_
  intro programKey _
  exact Safe.instruction hb hn programKey data

theorem Safe.decodeInstructions {keys : List UInt8} {keyCount n : Nat}
    (hkeys : keys.length = keyCount * 32) (hn : n < 65536) :
    Safe .panic (Reader.each (List.range n) (fun _ => Checked.decodeInstruction keys keyCount) {})
      (Reader.each (List.range n) (fun _ => RpcPlane.decodeInstruction keys keyCount) {})
      (Budget.Within n) := by
  have hturn : ∀ i, i < 0 + (List.range n).length → ∀ (k : Nat) (b : Budget), b.Within i →
      Safe .panic (Checked.decodeInstruction keys keyCount b)
        (RpcPlane.decodeInstruction keys keyCount b) (Budget.Within (i + 1)) := by
    intro i hi k b hb
    rw [List.length_range] at hi
    exact Safe.decodeInstruction hkeys hb (by omega)
  have hstart : Budget.Within 0 {} := ⟨Nat.zero_le _, nofun⟩
  have hloop := Safe.each hturn hstart
  rwa [List.length_range, Nat.zero_add] at hloop

theorem priorityFee_checked {limit price : Nat} (hlimit : limit ≤ maxComputeUnits)
    (hprice : price < 2 ^ 64) : Checked.priorityFee limit price = .ok (priorityFee limit price) := by
  have hproduct : limit * price ≤ 1400000 * 2 ^ 64 := Nat.mul_le_mul hlimit hprice.le
  have hmul : mulIn 128 limit price = .ok (limit * price) := if_pos (by omega)
  have hadd : addIn 128 (limit * price) 999999 = .ok (limit * price + 999999) :=
    if_pos (by omega)
  have hsaturated : saturate 128 (limit * price) = limit * price := min_eq_left (by omega)
  have hraised : saturate 128 (limit * price + 999999) = limit * price + 999999 :=
    min_eq_left (by omega)
  have hfee : priorityFee limit price =
      min ((limit * price + 999999) / 1000000) (2 ^ 64 - 1) := by
    unfold priorityFee
    dsimp only
    rw [hsaturated, hraised]
  rw [hfee, Checked.priorityFee, ok_bind hmul, ok_bind hadd]
  rfl

theorem requestedFee_checked {limit n : Nat} {b : Budget} (hlimit : limit ≤ maxComputeUnits)
    (hb : b.Within n) :
    Checked.requestedFee limit b.price = .ok (b.price.map (priorityFee limit)) := by
  cases hprice : b.price with
  | none => rfl
  | some price =>
    rw [Checked.requestedFee, priorityFee_checked hlimit (hb.price price hprice)]
    rfl

theorem info_checked {n : Nat} {b : Budget} (hb : b.Within n)
    (numInstructions numSignatures : Nat) (isVersioned : Bool) :
    Checked.info b numInstructions numSignatures isVersioned =
      .ok (b.info numInstructions numSignatures isVersioned) := by
  unfold Checked.info Budget.info
  cases b.explicitLimit with
  | none =>
    dsimp only
    rw [requestedFee_checked (Nat.min_le_right _ _) hb]
    rfl
  | some limit =>
    dsimp only
    rw [requestedFee_checked (Nat.min_le_right _ _) hb]
    rfl

theorem Safe.decodeHeader :
    Safe .panic Checked.decodeHeader RpcPlane.decodeHeader (fun _ => True) := by
  refine Safe.byte.bind ?_
  intro first _
  refine Safe.ite ?_ ?_
  · intro _
    refine Safe.ite (fun _ => Safe.fail (by decide)) ?_
    exact fun _ => (Safe.skip (by decide)).bind fun _ _ => Safe.pure trivial
  · exact fun _ => (Safe.skip (by decide)).bind fun _ _ => Safe.pure trivial

theorem Safe.decodeLegacy :
    Safe .panic Checked.decodeLegacy RpcPlane.decodeLegacy (fun _ => True) := by
  refine Safe.shortvec.bind ?_
  intro numSignatures hsignatures
  have hmul : mulIn 64 numSignatures 64 = .ok (numSignatures * 64) := if_pos (by omega)
  have hchecked : checkedMul numSignatures 64 = .ok (numSignatures * 64) := if_pos (by omega)
  refine (Safe.value hmul hchecked).bind ?_
  intro signaturesLen hlen
  refine (Safe.skip (by omega)).bind ?_
  intro _ _
  refine Safe.decodeHeader.bind ?_
  intro isVersioned _
  refine Safe.shortvec.bind ?_
  intro keyCount hcount
  have hmul : mulIn 64 keyCount 32 = .ok (keyCount * 32) := if_pos (by omega)
  have hchecked : checkedMul keyCount 32 = .ok (keyCount * 32) := if_pos (by omega)
  refine (Safe.value hmul hchecked).bind ?_
  intro keysLen hkeysLen
  refine (Safe.take (by omega)).bind ?_
  intro keys hkeys
  refine (Safe.skip (by decide)).bind ?_
  intro _ _
  refine Safe.shortvec.bind ?_
  intro instructionCount hinstructions
  refine (Safe.decodeInstructions (hkeys.trans hkeysLen) hinstructions).bind ?_
  intro budget hbudget
  rw [info_checked hbudget]
  exact Safe.pure trivial

/-! Every check of the v1 decoder goes through. -/

theorem maskBits_checked (mask : Nat) {bits : List Nat} (h : ∀ bit ∈ bits, bit < 32) :
    Checked.maskBits mask bits = .ok (bits.filter (fun bit => mask &&& (1 <<< bit) != 0)) := by
  induction bits with
  | nil => rfl
  | cons bit bits ih =>
    have hbit : bit < 32 := h bit List.mem_cons_self
    have hrest := ih fun bit hb => h bit (List.mem_cons_of_mem _ hb)
    have hshl : shlIn 32 1 bit = .ok (1 <<< bit) := by
      refine if_pos ⟨hbit, ?_⟩
      rw [Nat.one_shiftLeft]
      exact Nat.pow_lt_pow_right (by decide) hbit
    rw [Checked.maskBits, hshl, hrest, List.filter_cons]
    rfl

structure V1Config.InRange (config : V1Config) : Prop where
  feeLow : ∀ low, config.feeLow = some low → low < 2 ^ 32
  feeHigh : ∀ high, config.feeHigh = some high → high < 2 ^ 32

theorem V1Config.InRange.set {config : V1Config} (h : config.InRange) (bit : Nat) {value : Nat}
    (hvalue : value < 2 ^ 32) : (config.set bit value).InRange := by
  unfold V1Config.set
  split
  · exact ⟨fun low hlow => Option.some.inj hlow ▸ hvalue, h.feeHigh⟩
  · exact ⟨h.feeLow, fun high hhigh => Option.some.inj hhigh ▸ hvalue⟩
  · exact ⟨h.feeLow, h.feeHigh⟩
  · exact h

theorem Safe.decodeConfigValue (bit : Nat) {config : V1Config} (h : config.InRange) :
    Safe .panic (Checked.decodeConfigValue bit config) (RpcPlane.decodeConfigValue bit config)
      V1Config.InRange := by
  refine Safe.leU32.bind ?_
  intro value hvalue
  exact Safe.pure (h.set bit hvalue)

theorem Safe.decodeConfigValues (bits : List Nat) :
    Safe .panic (Reader.each bits Checked.decodeConfigValue {})
      (Reader.each bits RpcPlane.decodeConfigValue {}) V1Config.InRange := by
  have hturn : ∀ i, i < 0 + bits.length → ∀ (bit : Nat) (config : V1Config), config.InRange →
      Safe .panic (Checked.decodeConfigValue bit config) (RpcPlane.decodeConfigValue bit config)
        V1Config.InRange :=
    fun _ _ bit _ hconfig => Safe.decodeConfigValue bit hconfig
  have hstart : V1Config.InRange {} := ⟨nofun, nofun⟩
  exact Safe.each (I := fun _ => V1Config.InRange) hturn hstart

/-- The high half leaves room for the low one. -/
theorem fee_whole {config : V1Config} {low high : Nat} (h : config.InRange)
    (hlow : config.feeLow = some low) (hhigh : config.feeHigh = some high) :
    Checked.fee config = .ok (some (high * 2 ^ 32 + low)) ∧
      config.fee = .ok (some (high * 2 ^ 32 + low)) := by
  have hl := h.feeLow low hlow
  have hh := h.feeHigh high hhigh
  have hsum := shiftLeft_or_half hh hl
  have hfits : high <<< 32 < 2 ^ 64 := by
    rw [Nat.shiftLeft_eq]
    omega
  have hshl : shlIn 64 high 32 = .ok (high <<< 32) := if_pos ⟨by decide, hfits⟩
  constructor
  · rw [Nat.mod_eq_of_lt hfits] at hsum
    rw [← hsum]
    simp only [Checked.fee, hlow, hhigh]
    exact ok_bind hshl _
  · rw [← hsum]
    simp only [V1Config.fee, hlow, hhigh]

theorem Safe.fee {config : V1Config} (h : config.InRange) :
    Safe .panic (Reader.ofExcept (Checked.fee config) : Decode (Option Nat))
      (Reader.ofExcept config.fee) (fun fee => ∀ f, fee = some f → f < 2 ^ 64) := by
  obtain ⟨feeLow, feeHigh, limit⟩ := config
  cases feeLow with
  | none =>
    cases feeHigh with
    | none => exact Safe.pure nofun
    | some high => exact Safe.fail (by decide)
  | some low =>
    cases feeHigh with
    | none => exact Safe.fail (by decide)
    | some high =>
      obtain ⟨hchecked, hfee⟩ := fee_whole h rfl rfl
      have hl := h.feeLow low rfl
      have hh := h.feeHigh high rfl
      rw [hchecked, hfee]
      refine Safe.pure fun f hf => ?_
      obtain rfl := Option.some.inj hf
      omega

/-- An instruction of v1 has no more than 255 accounts and 65535 bytes of data. -/
theorem Safe.decodeV1Header {n payloadLen : Nat} (numAddresses : Nat) (hn : n < 256)
    (h : payloadLen ≤ 65790 * n) :
    Safe .panic (Checked.decodeV1Header numAddresses payloadLen)
      (RpcPlane.decodeV1Header numAddresses payloadLen) (· ≤ 65790 * (n + 1)) := by
  refine Safe.byte.bind ?_
  intro index _
  refine Safe.ite (fun _ => Safe.fail (by decide)) ?_
  intro _
  refine Safe.byte.bind ?_
  intro accounts _
  have haccounts := accounts.toNat_lt
  refine (Safe.take (by decide)).bind ?_
  intro word hword
  have harray := toArray_of_length hword
  refine (Safe.value harray harray).bind ?_
  intro dataLen hdata
  subst hdata
  have hlt : leValue dataLen < 65536 := leValue_lt_of_length hword
  have hpayload : addIn 64 accounts.toNat (leValue dataLen) =
      .ok (accounts.toNat + leValue dataLen) := if_pos (by omega)
  refine (Safe.value hpayload hpayload).bind ?_
  intro payload hlen
  have htotal : addIn 64 payloadLen payload = .ok (payloadLen + payload) := if_pos (by omega)
  refine (Safe.value htotal htotal).mono ?_
  intro total htotal
  omega

theorem Safe.decodeV1Headers (numAddresses : Nat) {n : Nat} (hn : n < 256) :
    Safe .panic (Reader.each (List.range n) (fun _ => Checked.decodeV1Header numAddresses) 0)
      (Reader.each (List.range n) (fun _ => RpcPlane.decodeV1Header numAddresses) 0)
      (· ≤ 65790 * n) := by
  have hturn : ∀ i, i < 0 + (List.range n).length → ∀ (k total : Nat), total ≤ 65790 * i →
      Safe .panic (Checked.decodeV1Header numAddresses total)
        (RpcPlane.decodeV1Header numAddresses total) (· ≤ 65790 * (i + 1)) := by
    intro i hi k total htotal
    rw [List.length_range] at hi
    exact Safe.decodeV1Header numAddresses (by omega) htotal
  have hloop := Safe.each hturn (Nat.zero_le _)
  rwa [List.length_range, Nat.zero_add] at hloop

theorem Safe.decodeV1Reader :
    Safe .panic Checked.decodeV1Reader RpcPlane.decodeV1Reader (fun _ => True) := by
  refine (Safe.skip (by decide)).bind ?_
  intro _ _
  refine Safe.byte.bind ?_
  intro numSignatures _
  have hsignatures := numSignatures.toNat_lt
  refine (Safe.skip (by decide)).bind ?_
  intro _ _
  refine Safe.leU32.bind ?_
  intro mask _
  refine (Safe.skip (by decide)).bind ?_
  intro _ _
  refine Safe.byte.bind ?_
  intro numInstructions _
  have hinstructions := numInstructions.toNat_lt
  refine Safe.byte.bind ?_
  intro numAddresses _
  have haddresses := numAddresses.toNat_lt
  have hlen : mulIn 64 numAddresses.toNat 32 = .ok (numAddresses.toNat * 32) := if_pos (by omega)
  refine (Safe.value hlen hlen).bind ?_
  intro addressesLen hlen
  refine (Safe.skip (by omega)).bind ?_
  intro _ _
  have hbits : Checked.maskBits mask (List.range 32) = .ok (maskBits mask) :=
    maskBits_checked mask fun bit hbit => List.mem_range.mp hbit
  refine Safe.checked hbits ?_
  refine (Safe.decodeConfigValues (maskBits mask)).bind ?_
  intro config hconfig
  refine (Safe.fee hconfig).bind ?_
  intro fee hfee
  refine (Safe.decodeV1Headers numAddresses.toNat hinstructions).bind ?_
  intro payloadLen hpayload
  refine (Safe.skip (by omega)).bind ?_
  intro _ _
  refine Safe.remaining.bind ?_
  intro remaining _
  have hlen : mulIn 64 numSignatures.toNat 64 = .ok (numSignatures.toNat * 64) := if_pos (by omega)
  refine (Safe.value hlen hlen).bind ?_
  intro signaturesLen _
  refine Safe.ite (fun _ => Safe.fail (by decide)) ?_
  intro _
  obtain ⟨price, hprice⟩ : ∃ price,
      v1Price (min (config.limit.getD 0) maxComputeUnits) fee = .ok price := ⟨_, v1Price_ok hfee⟩
  refine (Safe.value hprice hprice).bind ?_
  intro price _
  exact Safe.pure trivial

theorem exists_result {α : Type} {x : Except Stop α} (h : x ≠ .error .panic) :
    ∃ result : Except DecodeError α, x = result.mapError Stop.err := by
  cases x with
  | ok a => exact ⟨.ok a, rfl⟩
  | error stop =>
    cases stop with
    | err e => exact ⟨.error e, rfl⟩
    | panic => exact absurd rfl h

theorem decodeTransaction_checked (bytes : List UInt8) :
    Checked.decodeTransaction bytes = decodeTransaction bytes ∧
      decodeTransaction bytes ≠ .error .panic := by
  unfold Checked.decodeTransaction decodeTransaction
  by_cases hv1 : bytes.head? = some v1Prefix
  · rw [if_pos hv1, if_pos hv1]
    exact Safe.decodeV1Reader.eq_of_map (Cursor.new bytes) Prod.fst
  rw [if_neg hv1, if_neg hv1]
  by_cases hlater : bytes.head?.any (v1Prefix < ·)
  · rw [if_pos hlater, if_pos hlater]
    exact ⟨rfl, by decide⟩
  · rw [if_neg hlater, if_neg hlater]
    exact Safe.decodeLegacy.eq_of_map (Cursor.new bytes) Prod.fst

/-- Every byte string has a result, and the same one with every operation checked. -/
theorem transaction_decode_safe (bytes : List UInt8) :
    ∃ result : Except DecodeError TransactionInfo,
      decodeTransaction bytes = result.mapError Stop.err ∧
      Checked.decodeTransaction bytes = result.mapError Stop.err := by
  obtain ⟨hsame, hpanic⟩ := decodeTransaction_checked bytes
  obtain ⟨result, hresult⟩ := exists_result hpanic
  exact ⟨result, hresult, hsame.trans hresult⟩

end RpcPlane
