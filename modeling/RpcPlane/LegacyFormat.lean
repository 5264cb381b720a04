import RpcPlane.ComputeBudget
import RpcPlane.ShortVec
import Mathlib.Algebra.Order.Floor.Div
import Mathlib.GroupTheory.GroupAction.Ring

/-! The legacy and v0 transaction format, as far as the decoder reads it: what is decoded is
exactly what the format encodes. -/

namespace RpcPlane

structure Instruction where
  programIndex : UInt8
  accounts : List UInt8
  data : List UInt8
  accounts_lt : accounts.length < 65536
  data_lt : data.length < 65536

/-- A legacy or v0 transaction up to its instructions. -/
structure Transaction where
  signatures : List (List.Vector UInt8 64)
  versioned : Bool
  header : List.Vector UInt8 3
  keys : List (List.Vector UInt8 32)
  blockhash : List.Vector UInt8 32
  instructions : List Instruction
  signatures_lt : signatures.length < 65536
  keys_lt : keys.length < 65536
  instructions_lt : instructions.length < 65536
  /-- the high bit would be a version byte -/
  header_low : versioned = false → header.head.toNat < 128
  indexed : ∀ ix ∈ instructions, ix.programIndex.toNat < keys.length

def Instruction.encode (ix : Instruction) : List UInt8 :=
  [ix.programIndex] ++ (base128 ix.accounts.length ++ (ix.accounts ++
    (base128 ix.data.length ++ ix.data)))

def Transaction.encodeHeader (tx : Transaction) : List UInt8 :=
  (if tx.versioned then [0x80] else []) ++ tx.header.toList

def Transaction.encode (tx : Transaction) : List UInt8 :=
  base128 tx.signatures.length ++ (tx.signatures.flatMap List.Vector.toList ++
    (tx.encodeHeader ++ (base128 tx.keys.length ++ (tx.keys.flatMap List.Vector.toList ++
      (tx.blockhash.toList ++ (base128 tx.instructions.length ++
        tx.instructions.flatMap Instruction.encode))))))

def programKey (keys : List (List.Vector UInt8 32)) (ix : Instruction) : List UInt8 :=
  match keys[ix.programIndex.toNat]? with
  | some key => key.toList
  | none => []

def Transaction.calls (tx : Transaction) : List (List UInt8 × List UInt8) :=
  tx.instructions.map (fun ix => (programKey tx.keys ix, ix.data))

def Transaction.BudgetOk (tx : Transaction) : Prop := RpcPlane.BudgetOk (budgetData tx.calls)

/-- The value of the one instruction with this tag. -/
def Transaction.budgetValue (tx : Transaction) (tag : UInt8) (width : Nat) : Option Nat :=
  (tagged tag (budgetData tx.calls)).head?.map (tagValue width)

def Transaction.defaultLimit (tx : Transaction) : Nat :=
  min maxComputeUnits ((tx.calls.map (instructionUnits ·.1)).sum)

def Transaction.summary (tx : Transaction) : TransactionInfo :=
  let limit := (tx.budgetValue 2 4).getD tx.defaultLimit
  { cuLimit := limit
    cuLimitDefaulted := (tx.budgetValue 2 4).isNone
    cuPriceMicroLamports := tx.budgetValue 3 8
    requestedPriorityFeeLamports := (tx.budgetValue 3 8).map
      (fun price => min (2 ^ 64 - 1) ((min limit maxComputeUnits * price) ⌈/⌉ 10 ^ 6))
    numInstructions := tx.instructions.length
    numSignatures := tx.signatures.length
    isVersioned := tx.versioned }

/-! The summary is what the decoder computes. -/

theorem tagValue_lt (width : Nat) (data : List UInt8) : tagValue width data < 256 ^ width := by
  have hlen : ((data.drop 1).take width).length ≤ width := List.length_take_le _ _
  exact (leValue_lt _).trans_le (Nat.pow_le_pow_right (by decide) hlen)

/-- Below the largest limit no product saturates. -/
theorem priorityFee_eq {limit price : Nat} (hlimit : limit ≤ maxComputeUnits)
    (hprice : price < 2 ^ 64) :
    priorityFee limit price = min (2 ^ 64 - 1) ((limit * price) ⌈/⌉ 10 ^ 6) := by
  have hproduct : limit * price ≤ 1400000 * 2 ^ 64 :=
    Nat.mul_le_mul hlimit hprice.le
  unfold priorityFee saturate
  dsimp only
  generalize limit * price = product at hproduct
  rw [Nat.ceilDiv_eq_add_pred_div]
  omega

theorem budget_info (tx : Transaction) :
    (({} : Budget).after tx.calls).info tx.instructions.length tx.signatures.length tx.versioned =
      tx.summary := by
  have hlimit : (({} : Budget).after tx.calls).explicitLimit = tx.budgetValue 2 4 := Option.or_none
  have hprice : (({} : Budget).after tx.calls).price = tx.budgetValue 3 8 := Option.or_none
  have hdefault : min (({} : Budget).after tx.calls).defaultLimit maxComputeUnits =
      tx.defaultLimit := by
    simp only [Budget.after, saturate, Transaction.defaultLimit, maxComputeUnits]
    omega
  have hfee : ∀ limit ≤ maxComputeUnits,
      (tx.budgetValue 3 8).map (priorityFee limit) =
        (tx.budgetValue 3 8).map
          (fun price => min (2 ^ 64 - 1) ((limit * price) ⌈/⌉ 10 ^ 6)) := by
    intro limit hle
    refine Option.map_congr ?_
    intro price hp
    obtain ⟨data, -, rfl⟩ := Option.map_eq_some_iff.mp hp
    exact priorityFee_eq hle (tagValue_lt 8 data)
  unfold Budget.info Transaction.summary
  dsimp only
  rw [hlimit, hprice]
  cases htag : tx.budgetValue 2 4 with
  | some limit =>
    dsimp only
    rw [hfee _ (Nat.min_le_right _ _)]
    rfl
  | none =>
    have hle : tx.defaultLimit ≤ maxComputeUnits := Nat.min_le_left _ _
    dsimp only
    rw [hdefault, hfee _ hle, Option.getD_none, min_eq_left hle]
    rfl

/-! Reading the parts. -/

theorem Reads.header (tx : Transaction) :
    Reads decodeHeader tx.encodeHeader (.ok tx.versioned) := by
  obtain ⟨h₁, h₂, h₃, hh⟩ : ∃ h₁ h₂ h₃, tx.header.toList = [h₁, h₂, h₃] :=
    List.length_eq_three.mp tx.header.toList_length
  unfold Transaction.encodeHeader
  rw [hh]
  cases hv : tx.versioned with
  | true =>
    change Reads decodeHeader ([0x80] ++ [h₁, h₂, h₃]) (.ok true)
    refine (Reads.byte 0x80).bind ?_
    rw [if_pos (by decide), if_neg (by decide)]
    exact (Reads.skip rfl).bind_nil (Reads.pure true)
  | false =>
    have hlow := tx.header_low hv
    have hfirst : tx.header.head = h₁ := by
      have heq : tx.header = ⟨[h₁, h₂, h₃], rfl⟩ := Subtype.ext hh
      rw [heq]
      rfl
    rw [hfirst] at hlow
    change Reads decodeHeader ([h₁] ++ [h₂, h₃]) (.ok false)
    refine (Reads.byte h₁).bind ?_
    rw [if_neg (by simpa using and_high_eq_zero.mpr hlow)]
    exact (Reads.skip rfl).bind_nil (Reads.pure false)

theorem decodeHeader_ok {versioned : Bool} {c c' : Cursor UInt8}
    (h : decodeHeader c = .ok (versioned, c')) :
    ∃ header : List.Vector UInt8 3, (versioned = false → header.head.toNat < 128) ∧
      c.rest = (if versioned then [0x80] else []) ++ header.toList ++ c'.rest := by
  obtain ⟨b, c₁, hb, h⟩ := Reader.bind_ok.mp h
  have hrest := Cursor.byte_ok hb
  by_cases hhigh : b &&& 0x80 ≠ 0
  · rw [if_pos hhigh] at h
    by_cases hv : b ≠ 0x80
    · rw [if_pos hv] at h
      exact absurd (Reader.fail_ok.mp h) id
    · rw [if_neg hv] at h
      obtain ⟨u, c₂, hs, h⟩ := Reader.bind_ok.mp h
      obtain ⟨rfl, rfl⟩ := Reader.pure_ok.mp h
      obtain ⟨s, hlen, hs⟩ := Cursor.skip_ok hs
      refine ⟨⟨s, hlen⟩, by simp, ?_⟩
      rw [hrest, hs, not_not.mp hv]
      rfl
  · rw [if_neg hhigh] at h
    obtain ⟨u, c₂, hs, h⟩ := Reader.bind_ok.mp h
    obtain ⟨rfl, rfl⟩ := Reader.pure_ok.mp h
    obtain ⟨s, hlen, hs⟩ := Cursor.skip_ok hs
    refine ⟨⟨b :: s, by simp [hlen]⟩, fun _ => ?_, ?_⟩
    · exact and_high_eq_zero.mp (not_not.mp hhigh)
    · rw [hrest, hs]
      rfl

theorem slice_keys {keys : List (List.Vector UInt8 32)} {ix : Instruction}
    (h : ix.programIndex.toNat < keys.length) :
    slice (keys.flatMap List.Vector.toList) (ix.programIndex.toNat * 32)
      (ix.programIndex.toNat * 32 + 32) = .ok (programKey keys ix) := by
  have hget : keys[ix.programIndex.toNat]? = some keys[ix.programIndex.toNat] :=
    List.getElem?_eq_getElem h
  have hbound : ix.programIndex.toNat * 32 + 32 ≤ (keys.flatMap List.Vector.toList).length := by
    rw [flatMap_blocks_length]
    omega
  rw [slice, if_pos ⟨by omega, hbound⟩, Nat.add_sub_cancel_left, take_drop_blocks hget, programKey,
    hget]

theorem Reads.instruction {keys : List (List.Vector UInt8 32)} {ix : Instruction}
    (h : ix.programIndex.toNat < keys.length) (b : Budget) :
    Reads (decodeInstruction (keys.flatMap List.Vector.toList) keys.length b) ix.encode
      (b.instruction (programKey keys ix) ix.data) := by
  have hlt := ix.programIndex.toNat_lt
  refine (Reads.byte ix.programIndex).bind ?_
  rw [if_neg (by omega)]
  refine (Reads.shortvec ix.accounts_lt).bind ((Reads.skip rfl).bind
    ((Reads.shortvec ix.data_lt).bind ((Reads.take rfl).bind_nil ?_)))
  refine Reads.ofExcept_bind (if_pos (by omega)) (Reads.ofExcept_bind (if_pos (by omega)) ?_)
  exact Reads.ofExcept_bind (slice_keys h) (Reads.ofExcept _)

theorem decodeInstruction_ok {keys : List (List.Vector UInt8 32)} {b b' : Budget}
    {c c' : Cursor UInt8}
    (h : decodeInstruction (keys.flatMap List.Vector.toList) keys.length b c = .ok (b', c')) :
    ∃ ix : Instruction, ix.programIndex.toNat < keys.length ∧ c.rest = ix.encode ++ c'.rest ∧
      b.instruction (programKey keys ix) ix.data = .ok b' := by
  obtain ⟨index, c₁, hindex, h⟩ := Reader.bind_ok.mp h
  have hrest := Cursor.byte_ok hindex
  by_cases hbad : keys.length ≤ index.toNat
  · rw [if_pos hbad] at h
    exact absurd (Reader.fail_ok.mp h) id
  · rw [if_neg hbad] at h
    obtain ⟨accounts, c₂, haccounts, h⟩ := Reader.bind_ok.mp h
    obtain ⟨haccounts_lt, hrest₁⟩ := Cursor.shortvec_ok haccounts
    obtain ⟨u, c₃, hskip, h⟩ := Reader.bind_ok.mp h
    obtain ⟨skipped, hskipped, hrest₂⟩ := Cursor.skip_ok hskip
    obtain ⟨dataLen, c₄, hdataLen, h⟩ := Reader.bind_ok.mp h
    obtain ⟨hdata_lt, hrest₃⟩ := Cursor.shortvec_ok hdataLen
    obtain ⟨data, c₅, htake, h⟩ := Reader.bind_ok.mp h
    obtain ⟨hdata, hrest₄⟩ := Cursor.take_ok htake
    let ix : Instruction := ⟨index, skipped, data, hskipped ▸ haccounts_lt, hdata ▸ hdata_lt⟩
    have hix : ix.programIndex.toNat < keys.length := not_le.mp hbad
    obtain ⟨lo, c₆, h₆, h⟩ := Reader.bind_ok.mp h
    obtain ⟨hi, c₇, h₇, h⟩ := Reader.bind_ok.mp h
    obtain ⟨key, c₈, h₈, h⟩ := Reader.bind_ok.mp h
    obtain ⟨hlo, rfl⟩ := Reader.ofExcept_ok.mp h₆
    obtain ⟨hhi, rfl⟩ := Reader.ofExcept_ok.mp h₇
    obtain ⟨hkey, rfl⟩ := Reader.ofExcept_ok.mp h₈
    obtain ⟨hcall, rfl⟩ := Reader.ofExcept_ok.mp h
    refine ⟨ix, hix, ?_, ?_⟩
    · rw [hrest, hrest₁, hrest₂, hrest₃, hrest₄, ← hskipped, ← hdata]
      simp [Instruction.encode, ix]
    · rw [mulIn_ok hlo] at hhi
      rw [mulIn_ok hlo, addIn_ok hhi] at hkey
      obtain rfl : programKey keys ix = key := Except.ok.inj ((slice_keys hix).symm.trans hkey)
      exact hcall

theorem decodeInstructions_ok {keys : List (List.Vector UInt8 32)} {n : Nat} {b b' : Budget}
    {c c' : Cursor UInt8}
    (h : Reader.each (List.range n)
      (fun _ => decodeInstruction (keys.flatMap List.Vector.toList) keys.length) b c =
        .ok (b', c')) :
    ∃ instructions : List Instruction, instructions.length = n ∧
      (∀ ix ∈ instructions, ix.programIndex.toNat < keys.length) ∧
      c.rest = instructions.flatMap Instruction.encode ++ c'.rest ∧
      instructions.foldlM (fun (b : Budget) ix => b.instruction (programKey keys ix) ix.data) b =
        .ok b' := by
  refine Reader.times_ok ?_ h
  intro b c b' c' hturn
  exact decodeInstruction_ok hturn

/-- What the decoder makes of the instructions of a transaction. -/
def Transaction.result (tx : Transaction) : Except Stop TransactionInfo :=
  (tx.instructions.foldlM
    (fun (b : Budget) ix => b.instruction (programKey tx.keys ix) ix.data) {}).map
      (·.info tx.instructions.length tx.signatures.length tx.versioned)

theorem Transaction.result_eq (tx : Transaction) :
    (tx.BudgetOk → tx.result = .ok tx.summary) ∧
    (¬ tx.BudgetOk → tx.result = .error (.err .invalidBudget)) := by
  have hfold : tx.instructions.foldlM
      (fun (b : Budget) ix => b.instruction (programKey tx.keys ix) ix.data) {} =
      tx.calls.foldlM (fun (b : Budget) call => b.instruction call.1 call.2) {} := by
    rw [Transaction.calls, List.foldlM_map]
  obtain ⟨hok, herror⟩ := foldlM_budget tx.calls (b := {}) (by decide)
  rw [budgetFrom_start] at hok herror
  unfold Transaction.result
  rw [hfold]
  refine ⟨fun h => ?_, fun h => ?_⟩
  · rw [hok h, ← budget_info tx]
    rfl
  · rw [herror h]
    rfl

/-- The decoder reads an encoding to its end, or to the instruction that breaks the
condition on ComputeBudget data. -/
theorem Reads.transaction (tx : Transaction) : Reads decodeLegacy tx.encode tx.result := by
  have hsigs := tx.signatures_lt
  have hkeys := tx.keys_lt
  refine (Reads.shortvec hsigs).bind ?_
  refine Reads.ofExcept_bind (if_pos (by omega)) ?_
  refine (Reads.skip (flatMap_blocks_length _)).bind ((Reads.header tx).bind ?_)
  refine (Reads.shortvec hkeys).bind ?_
  refine Reads.ofExcept_bind (if_pos (by omega)) ?_
  refine (Reads.take (flatMap_blocks_length _)).bind ?_
  refine (Reads.skip tx.blockhash.toList_length).bind ?_
  refine (Reads.shortvec tx.instructions_lt).bind ?_
  have hloop := Reads.times (fun b ix hix => Reads.instruction (tx.indexed ix hix) b) {}
  exact hloop.bind_pure _

theorem decodeLegacy_ok {info : TransactionInfo} {c c' : Cursor UInt8}
    (h : decodeLegacy c = .ok (info, c')) :
    ∃ tx : Transaction, c.rest = tx.encode ++ c'.rest ∧ tx.result = .ok info := by
  obtain ⟨numSignatures, c₁, h₁, h⟩ := Reader.bind_ok.mp h
  obtain ⟨signaturesLen, c₂, h₂, h⟩ := Reader.bind_ok.mp h
  obtain ⟨u₁, c₃, h₃, h⟩ := Reader.bind_ok.mp h
  obtain ⟨versioned, c₄, h₄, h⟩ := Reader.bind_ok.mp h
  obtain ⟨keyCount, c₅, h₅, h⟩ := Reader.bind_ok.mp h
  obtain ⟨keysLen, c₆, h₆, h⟩ := Reader.bind_ok.mp h
  obtain ⟨keyBytes, c₇, h₇, h⟩ := Reader.bind_ok.mp h
  obtain ⟨u₂, c₈, h₈, h⟩ := Reader.bind_ok.mp h
  obtain ⟨instructionCount, c₉, h₉, h⟩ := Reader.bind_ok.mp h
  obtain ⟨budget, c₁₀, h₁₀, h⟩ := Reader.bind_ok.mp h
  obtain ⟨hinfo, rfl⟩ := Reader.pure_ok.mp h
  obtain ⟨hsigs, hrest₁⟩ := Cursor.shortvec_ok h₁
  obtain ⟨hsigsLen, rfl⟩ := Reader.ofExcept_ok.mp h₂
  obtain ⟨sigBytes, hsigBytes, hrest₃⟩ := Cursor.skip_ok h₃
  obtain ⟨header, hlow, hrest₄⟩ := decodeHeader_ok h₄
  obtain ⟨hkeyCount, hrest₅⟩ := Cursor.shortvec_ok h₅
  obtain ⟨hkeysLen, rfl⟩ := Reader.ofExcept_ok.mp h₆
  obtain ⟨hkeyBytes, hrest₇⟩ := Cursor.take_ok h₇
  obtain ⟨blockhash, hblockhash, hrest₈⟩ := Cursor.skip_ok h₈
  obtain ⟨hcount, hrest₉⟩ := Cursor.shortvec_ok h₉
  obtain ⟨signatures, rfl, rfl⟩ := exists_blocks (hsigBytes.trans (checkedMul_ok hsigsLen))
  obtain ⟨keys, rfl, rfl⟩ := exists_blocks (hkeyBytes.trans (checkedMul_ok hkeysLen))
  obtain ⟨instructions, rfl, hindexed, hrest₁₀, hfold⟩ := decodeInstructions_ok h₁₀
  refine ⟨⟨signatures, versioned, header, keys, ⟨blockhash, hblockhash⟩, instructions, hsigs,
    hkeyCount, hcount, hlow, hindexed⟩, ?_, ?_⟩
  · rw [hrest₁, hrest₃, hrest₄, hrest₅, hrest₇, hrest₈, hrest₉, hrest₁₀]
    simp only [Transaction.encode, Transaction.encodeHeader, List.append_assoc]
    rfl
  · rw [Transaction.result, hfold, ← hinfo]
    rfl

/-- Within the packet size the signature count is one byte, below every version prefix. -/
theorem Transaction.encode_head {tx : Transaction} {tail : List UInt8}
    (hlen : (tx.encode ++ tail).length ≤ maxLegacyLen) :
    ∃ b : UInt8, (tx.encode ++ tail).head? = some b ∧ b.toNat < 128 := by
  have hsigs : tx.signatures.length * 64 ≤ maxLegacyLen := by
    refine le_trans ?_ hlen
    rw [← flatMap_blocks_length, Transaction.encode]
    simp only [List.length_append]
    omega
  have hsmall : tx.signatures.length < 128 := by
    rw [maxLegacyLen] at hsigs
    omega
  refine ⟨UInt8.ofNat tx.signatures.length, ?_, ?_⟩
  · rw [Transaction.encode, base128_of_lt hsmall]
    rfl
  · rw [UInt8.toNat_ofNat']
    omega

theorem decodeTransaction_legacy {b : List UInt8} {first : UInt8} (hhead : b.head? = some first)
    (hlow : first.toNat < 128) :
    decodeTransaction b = (decodeLegacy (Cursor.new b)).map Prod.fst := by
  have hne : b.head? ≠ some v1Prefix := by
    rw [hhead]
    intro h
    obtain rfl := Option.some.inj h
    exact absurd hlow (by decide)
  have hle : ¬ (b.head?.any (v1Prefix < ·)) = true := by
    rw [hhead, Option.any_some, decide_eq_true_eq, UInt8.lt_iff_toNat_lt]
    change ¬ 129 < first.toNat
    omega
  rw [decodeTransaction, if_neg hne, if_neg hle]

theorem decodeTransaction_encode {tx : Transaction} {tail : List UInt8}
    (hlen : (tx.encode ++ tail).length ≤ maxLegacyLen) :
    decodeTransaction (tx.encode ++ tail) = tx.result := by
  obtain ⟨first, hhead, hlow⟩ := Transaction.encode_head hlen
  have hfits : 0 + tx.encode.length < 2 ^ 64 := by
    rw [maxLegacyLen, List.length_append] at hlen
    omega
  have hread := Reads.transaction tx (Cursor.new (tx.encode ++ tail)) tail rfl hfits
  rw [decodeTransaction_legacy hhead hlow, hread]
  cases tx.result <;> rfl

theorem decodeTransaction_ok {b : List UInt8} {info : TransactionInfo}
    (hfirst : b.head? ≠ some v1Prefix) (h : decodeTransaction b = .ok info) :
    ∃ (tx : Transaction) (tail : List UInt8), b = tx.encode ++ tail ∧ tx.result = .ok info := by
  unfold decodeTransaction at h
  rw [if_neg hfirst] at h
  by_cases hbig : b.head?.any (v1Prefix < ·)
  · rw [if_pos hbig] at h
    cases h
  · rw [if_neg hbig] at h
    cases hread : decodeLegacy (Cursor.new b) with
    | error e =>
      rw [hread] at h
      cases h
    | ok r =>
      obtain ⟨info', c'⟩ := r
      rw [hread] at h
      obtain rfl : info' = info := Except.ok.inj h
      obtain ⟨tx, hrest, hresult⟩ := decodeLegacy_ok hread
      exact ⟨tx, c'.rest, hrest, hresult⟩

/-- What `decode_request` hands over is decoded exactly when it is the encoding of a legacy
or v0 transaction and something after it, and then to its summary; a transaction that breaks
the condition on its ComputeBudget instructions is refused for that. -/
theorem legacy_decoding (b : List UInt8) (hlen : b.length ≤ maxLegacyLen)
    (hfirst : b.head? ≠ some v1Prefix) :
    (∀ info, decodeTransaction b = .ok info ↔ ∃ (tx : Transaction) (tail : List UInt8),
      b = tx.encode ++ tail ∧ tx.BudgetOk ∧ info = tx.summary) ∧
    ∀ (tx : Transaction) (tail : List UInt8), b = tx.encode ++ tail → ¬ tx.BudgetOk →
      decodeTransaction b = .error (.err .invalidBudget) := by
  refine ⟨?_, ?_⟩
  · intro info
    constructor
    · intro h
      obtain ⟨tx, tail, hb, hresult⟩ := decodeTransaction_ok hfirst h
      have hbudget : tx.BudgetOk := by
        by_contra hbad
        rw [tx.result_eq.2 hbad] at hresult
        cases hresult
      rw [tx.result_eq.1 hbudget] at hresult
      exact ⟨tx, tail, hb, hbudget, (Except.ok.inj hresult).symm⟩
    · rintro ⟨tx, tail, rfl, hbudget, rfl⟩
      exact (decodeTransaction_encode hlen).trans (tx.result_eq.1 hbudget)
  · rintro tx tail rfl hbad
    exact (decodeTransaction_encode hlen).trans (tx.result_eq.2 hbad)

/-- One signature and one ComputeBudget instruction: a price of one lamport a unit. -/
def pricedTransaction : Transaction where
  signatures := [⟨List.replicate 64 0, rfl⟩]
  versioned := true
  header := ⟨[1, 0, 0], rfl⟩
  keys := [⟨computeBudgetId, rfl⟩]
  blockhash := ⟨List.replicate 32 0, rfl⟩
  instructions := [⟨0, [], [3, 0x40, 0x42, 0x0F, 0, 0, 0, 0, 0], by decide, by decide⟩]
  signatures_lt := by decide
  keys_lt := by decide
  instructions_lt := by decide
  header_low := by decide
  indexed := by decide

theorem pricedTransaction_bytes :
    pricedTransaction.encode.length = 147 ∧ pricedTransaction.encode.head? ≠ some v1Prefix := by
  have hencode : pricedTransaction.encode = base128 1 ++ (List.replicate 64 0 ++
      ([0x80, 1, 0, 0] ++ (base128 1 ++ (computeBudgetId ++ (List.replicate 32 0 ++ (base128 1 ++
        ([0] ++ (base128 0 ++ ([] ++ (base128 9 ++ [3, 0x40, 0x42, 0x0F, 0, 0, 0, 0, 0]))) ++
          []))))))) := rfl
  rw [hencode, base128_of_lt (by decide), base128_of_lt (by decide), base128_of_lt (by decide)]
  decide +kernel

theorem pricedTransaction_budgetOk : pricedTransaction.BudgetOk :=
  ⟨by decide, by decide, by decide, by decide, by decide⟩

theorem pricedTransaction_summary :
    pricedTransaction.summary = ⟨3000, true, some 1000000, some 3000, 1, 1, true⟩ := by
  decide +kernel

theorem legacy_decoding_priced : decodeTransaction pricedTransaction.encode =
    .ok ⟨3000, true, some 1000000, some 3000, 1, 1, true⟩ := by
  obtain ⟨hlen, hhead⟩ := pricedTransaction_bytes
  have hfits : pricedTransaction.encode.length ≤ maxLegacyLen := by
    rw [hlen]
    decide
  exact ((legacy_decoding _ hfits hhead).1 _).mpr ⟨pricedTransaction, [],
    (List.append_nil _).symm, pricedTransaction_budgetOk, pricedTransaction_summary.symm⟩

/-- Bytes after it make no difference up to the limit. -/
theorem decode_pricedTransaction {tail : List UInt8} (h : tail.length ≤ 1085) :
    decodeTransaction (pricedTransaction.encode ++ tail) =
      .ok ⟨3000, true, some 1000000, some 3000, 1, 1, true⟩ := by
  have hfits : (pricedTransaction.encode ++ tail).length ≤ maxLegacyLen := by
    rw [List.length_append, pricedTransaction_bytes.1, maxLegacyLen]
    omega
  rw [decodeTransaction_encode hfits, pricedTransaction.result_eq.1 pricedTransaction_budgetOk,
    pricedTransaction_summary]

end RpcPlane
