import RpcPlane.ByteReader

/-! Decoding of a Solana transaction for its compute budget: legacy and v0 messages, and v1.
What would end the task, an index out of range or an overflow, is an outcome of its own. -/

namespace RpcPlane

def maxLegacyLen : Nat := 1232

def v1Prefix : UInt8 := 0x81

def maxComputeUnits : Nat := 1400000

def defaultInstructionComputeUnits : Nat := 200000

def defaultBuiltinComputeUnits : Nat := 3000

def computeBudgetId : List UInt8 := [
  3, 6, 70, 111, 229, 33, 23, 50, 255, 236, 173, 186, 114, 195, 155, 231, 188, 140, 229, 187,
  197, 247, 18, 107, 44, 67, 155, 58, 64, 0, 0, 0]

def builtinProgramIds : List (List UInt8) := [
  List.replicate 32 0,
  computeBudgetId,
  [2, 168, 246, 145, 78, 136, 161, 176, 226, 16, 21, 62, 247, 99, 174, 43, 0, 194, 185, 61,
    22, 193, 36, 210, 192, 83, 122, 16, 4, 128, 0, 0],
  [2, 168, 246, 145, 78, 136, 161, 107, 189, 35, 149, 133, 95, 100, 4, 217, 180, 244, 86, 183,
    130, 27, 176, 20, 87, 73, 66, 140, 0, 0, 0, 0],
  [2, 168, 246, 145, 78, 136, 161, 110, 57, 90, 225, 40, 148, 143, 250, 105, 86, 147, 55, 104,
    24, 221, 71, 67, 82, 33, 243, 198, 0, 0, 0, 0],
  [5, 18, 180, 17, 81, 81, 227, 122, 173, 10, 139, 197, 211, 136, 46, 123, 127, 218, 76, 243,
    210, 192, 40, 200, 207, 131, 54, 24, 0, 0, 0, 0],
  [4, 198, 252, 32, 240, 80, 204, 240, 85, 132, 215, 33, 28, 159, 140, 245, 158, 193, 71, 133,
    187, 22, 106, 30, 40, 48, 232, 18, 32, 0, 0, 0],
  [3, 125, 70, 214, 124, 147, 251, 190, 18, 249, 66, 143, 131, 141, 64, 255, 5, 112, 116, 73,
    39, 244, 138, 100, 252, 202, 112, 68, 128, 0, 0, 0]]

inductive DecodeError where
  | unparsed
  | unsupported
  | invalidBudget
  deriving DecidableEq, Repr

/-- How a decode ends that has no result. -/
inductive Stop where
  | err (e : DecodeError)
  | panic
  deriving DecidableEq, Repr

structure TransactionInfo where
  cuLimit : Nat
  cuLimitDefaulted : Bool
  cuPriceMicroLamports : Option Nat
  requestedPriorityFeeLamports : Option Nat
  numInstructions : Nat
  numSignatures : Nat
  isVersioned : Bool
  deriving DecidableEq, Repr

abbrev Decode (α : Type) := Reader UInt8 Stop α

/-! Machine operations. -/

def checkedMul (a b : Nat) : Except Stop Nat :=
  if a * b < 2 ^ 64 then .ok (a * b) else .error (.err .unparsed)

def mulIn (bits a b : Nat) : Except Stop Nat :=
  if a * b < 2 ^ bits then .ok (a * b) else .error .panic

def addIn (bits a b : Nat) : Except Stop Nat :=
  if a + b < 2 ^ bits then .ok (a + b) else .error .panic

def saturate (bits n : Nat) : Nat := min n (2 ^ bits - 1)

/-- `bs[lo..hi]` -/
def slice (bs : List UInt8) (lo hi : Nat) : Except Stop (List UInt8) :=
  if lo ≤ hi ∧ hi ≤ bs.length then .ok ((bs.drop lo).take (hi - lo)) else .error .panic

/-- `try_into().unwrap()`, to an array of `n` bytes -/
def toArray (n : Nat) (bs : List UInt8) : Except Stop (List UInt8) :=
  if bs.length = n then .ok bs else .error .panic

theorem mulIn_ok {bits a b n : Nat} (h : mulIn bits a b = .ok n) : n = a * b := by
  unfold mulIn at h
  split_ifs at h
  exact (Except.ok.inj h).symm

theorem addIn_ok {bits a b n : Nat} (h : addIn bits a b = .ok n) : n = a + b := by
  unfold addIn at h
  split_ifs at h
  exact (Except.ok.inj h).symm

theorem checkedMul_ok {a b n : Nat} (h : checkedMul a b = .ok n) : n = a * b := by
  unfold checkedMul at h
  split_ifs at h
  exact (Except.ok.inj h).symm

/-! The cursor. -/

def Cursor.take (len : Nat) : Decode (List UInt8) := .takeOr (.err .unparsed) len

def Cursor.skip (len : Nat) : Decode Unit := do
  let _ ← Cursor.take len
  pure ()

def Cursor.byte : Decode UInt8 := do
  let taken ← Cursor.take 1
  match taken[0]? with
  | some b => pure b
  | none => .fail .panic

/-- The loop of `shortvec` from a shift on. -/
def shortvecFrom : List Nat → Nat → Decode Nat
  | [], _ => .fail (.err .unparsed)
  | shift :: shifts, value => do
    let byte ← Cursor.byte
    if shift = 14 ∧ 3 < byte then .fail (.err .unparsed)
    else
      let value := value ||| ((byte &&& 0x7F).toNat <<< shift)
      if byte &&& 0x80 = 0 then
        if 0 < shift ∧ byte = 0 then .fail (.err .unparsed) else pure value
      else shortvecFrom shifts value

def Cursor.shortvec : Decode Nat := shortvecFrom [0, 7, 14] 0

/-! Legacy and v0. -/

/-- The locals that the instruction loop carries. -/
structure Budget where
  explicitLimit : Option Nat := none
  price : Option Nat := none
  defaultLimit : Nat := 0
  deriving DecidableEq, Repr

def instructionUnits (programKey : List UInt8) : Nat :=
  if builtinProgramIds.any (· == programKey) then defaultBuiltinComputeUnits
  else defaultInstructionComputeUnits

/-- The arms for the tags 2 and 3: `width` bytes after the tag, given once. -/
def readOnce (field : Option Nat) (data : List UInt8) (width : Nat) : Except Stop (Option Nat) :=
  if data.length < width + 1 ∨ field.isSome then .error (.err .invalidBudget)
  else do
    let value ← slice data 1 (width + 1)
    let value ← toArray width value
    pure (some (leValue value))

def Budget.charge (b : Budget) (programKey : List UInt8) : Budget :=
  { b with defaultLimit := saturate 64 (b.defaultLimit + instructionUnits programKey) }

def Budget.instruction (b : Budget) (programKey data : List UInt8) : Except Stop Budget :=
  let b := b.charge programKey
  if programKey ≠ computeBudgetId then .ok b
  else
    match data.head? with
    | none => .error (.err .invalidBudget)
    | some tag =>
      if tag = 2 then do
        let limit ← readOnce b.explicitLimit data 4
        pure { b with explicitLimit := limit }
      else if tag = 3 then do
        let price ← readOnce b.price data 8
        pure { b with price := price }
      else .ok b

def decodeInstruction (keys : List UInt8) (keyCount : Nat) (b : Budget) : Decode Budget := do
  let programIndex ← Cursor.byte
  let programIndex := programIndex.toNat
  if keyCount ≤ programIndex then .fail (.err .unparsed)
  else
    let accounts ← Cursor.shortvec
    Cursor.skip accounts
    let dataLen ← Cursor.shortvec
    let data ← Cursor.take dataLen
    let lo ← .ofExcept (mulIn 64 programIndex 32)
    let hi ← .ofExcept (addIn 64 lo 32)
    let programKey ← .ofExcept (slice keys lo hi)
    .ofExcept (b.instruction programKey data)

def priorityFee (effectiveCuLimit price : Nat) : Nat :=
  let product := saturate 128 (effectiveCuLimit * price)
  min (saturate 128 (product + 999999) / 1000000) (2 ^ 64 - 1)

def Budget.info (b : Budget) (numInstructions numSignatures : Nat) (isVersioned : Bool) :
    TransactionInfo :=
  let limits :=
    match b.explicitLimit with
    | some limit => (limit, min limit maxComputeUnits, false)
    | none =>
      let limit := min b.defaultLimit maxComputeUnits
      (limit, limit, true)
  { cuLimit := limits.1
    cuLimitDefaulted := limits.2.2
    cuPriceMicroLamports := b.price
    requestedPriorityFeeLamports := b.price.map (priorityFee limits.2.1)
    numInstructions := numInstructions
    numSignatures := numSignatures
    isVersioned := isVersioned }

/-- The header after the signatures, and whether a version byte opens it. -/
def decodeHeader : Decode Bool := do
  let first ← Cursor.byte
  if first &&& 0x80 ≠ 0 then
    if first ≠ 0x80 then .fail (.err .unsupported)
    else
      Cursor.skip 3
      pure true
  else
    Cursor.skip 2
    pure false

def decodeLegacy : Decode TransactionInfo := do
  let numSignatures ← Cursor.shortvec
  let signaturesLen ← .ofExcept (checkedMul numSignatures 64)
  Cursor.skip signaturesLen
  let isVersioned ← decodeHeader
  let keyCount ← Cursor.shortvec
  let keysLen ← .ofExcept (checkedMul keyCount 32)
  let keys ← Cursor.take keysLen
  Cursor.skip 32
  let instructionCount ← Cursor.shortvec
  let budget ← .each (List.range instructionCount) (fun _ => decodeInstruction keys keyCount) {}
  pure (budget.info instructionCount numSignatures isVersioned)

/-! v1. -/

def Cursor.leU32 : Decode Nat := do
  let taken ← Cursor.take 4
  let taken ← .ofExcept (toArray 4 taken)
  pure (leValue taken)

structure V1Config where
  feeLow : Option Nat := none
  feeHigh : Option Nat := none
  limit : Option Nat := none
  deriving DecidableEq, Repr

def maskBits (mask : Nat) : List Nat :=
  (List.range 32).filter (fun bit => mask &&& (1 <<< bit) != 0)

def V1Config.set (config : V1Config) (bit value : Nat) : V1Config :=
  match bit with
  | 0 => { config with feeLow := some value }
  | 1 => { config with feeHigh := some value }
  | 2 => { config with limit := some value }
  | _ => config

def decodeConfigValue (bit : Nat) (config : V1Config) : Decode V1Config := do
  let value ← Cursor.leU32
  pure (config.set bit value)

def V1Config.fee (config : V1Config) : Except Stop (Option Nat) :=
  match config.feeLow, config.feeHigh with
  | some low, some high => .ok (some (((high <<< 32) % 2 ^ 64) ||| low))
  | none, none => .ok none
  | _, _ => .error (.err .invalidBudget)

/-- An instruction header: the length of the payloads, this one included. -/
def decodeV1Header (numAddresses : Nat) (payloadLen : Nat) : Decode Nat := do
  let programIndex ← Cursor.byte
  if numAddresses ≤ programIndex.toNat then .fail (.err .unparsed)
  else
    let accounts ← Cursor.byte
    let dataLen ← Cursor.take 2
    let dataLen ← .ofExcept (toArray 2 dataLen)
    let payload ← .ofExcept (addIn 64 accounts.toNat (leValue dataLen))
    .ofExcept (addIn 64 payloadLen payload)

def v1Price (effectiveCuLimit : Nat) : Option Nat → Except Stop (Option Nat)
  | none => .ok none
  | some fee => do
    let scaled ← mulIn 128 fee 1000000
    if effectiveCuLimit = 0 then pure (some 0)
    else pure (some (min (scaled / effectiveCuLimit) (2 ^ 64 - 1)))

def decodeV1Reader : Decode TransactionInfo := do
  Cursor.skip 1
  let numSignatures ← Cursor.byte
  Cursor.skip 2
  let mask ← Cursor.leU32
  Cursor.skip 32
  let numInstructions ← Cursor.byte
  let numAddresses ← Cursor.byte
  let addressesLen ← .ofExcept (mulIn 64 numAddresses.toNat 32)
  Cursor.skip addressesLen
  let config ← .each (maskBits mask) decodeConfigValue {}
  let fee ← .ofExcept config.fee
  let payloadLen ← .each (List.range numInstructions.toNat)
    (fun _ => decodeV1Header numAddresses.toNat) 0
  Cursor.skip payloadLen
  let remaining ← .remaining
  let signaturesLen ← .ofExcept (mulIn 64 numSignatures.toNat 64)
  if remaining ≠ signaturesLen then .fail (.err .unparsed)
  else
    let cuLimit := config.limit.getD 0
    let price ← .ofExcept (v1Price (min cuLimit maxComputeUnits) fee)
    pure
      { cuLimit := cuLimit
        cuLimitDefaulted := config.limit.isNone
        cuPriceMicroLamports := price
        requestedPriorityFeeLamports := fee
        numInstructions := numInstructions.toNat
        numSignatures := numSignatures.toNat
        isVersioned := true }

def decodeV1 (bytes : List UInt8) : Except Stop TransactionInfo :=
  (decodeV1Reader (Cursor.new bytes)).map Prod.fst

def decodeTransaction (bytes : List UInt8) : Except Stop TransactionInfo :=
  if bytes.head? = some v1Prefix then decodeV1 bytes
  else if bytes.head?.any (v1Prefix < ·) then .error (.err .unsupported)
  else (decodeLegacy (Cursor.new bytes)).map Prod.fst

end RpcPlane
