import RpcPlane.HistoricalJob
import RpcPlane.LegacyFormat
import RpcPlane.TextEncoding
import RpcPlane.V1Format

/-! `decode_request`: from the body of a `sendTransaction` request to its transaction. The
limits on the text and on the bytes come down to limits on the bytes. -/

namespace RpcPlane

def maxV1Len : Nat := 4096

def maxBase58Len : Nat := 1683

def maxBase64Len : Nat := 5464

/-- The decoders of `bs58` and of the standard engine of `base64`; they invert the encodings. -/
structure TextCodec where
  base58 : String → Option (List UInt8)
  base64 : String → Option (List UInt8)
  base58_encode : ∀ bytes, base58 (String.ofList (RpcPlane.base58.encode bytes)) = some bytes
  base64_encode : ∀ bytes, base64 (String.ofList (encodeBase64 bytes)) = some bytes

def orUnparsed {α : Type} (o : Option α) : Except Stop α :=
  match o with
  | some a => .ok a
  | none => .error (.err .unparsed)

/-- The arms of the match on the encoding. -/
def decodeText (codec : TextCodec) (encoding encoded : String) : Except Stop (List UInt8) :=
  if encoding = "base58" then
    if maxBase58Len < encoded.utf8ByteSize then .error (.err .unparsed)
    else orUnparsed (codec.base58 encoded)
  else if encoding = "base64" then orUnparsed (codec.base64 encoded)
  else .error (.err .unsupported)

/-- The most bytes that a transaction with this first byte may have. -/
def maxLen (bytes : List UInt8) : Nat :=
  if bytes.head? = some v1Prefix then maxV1Len else maxLegacyLen

def decodeRequest (parser : ValueParser) (codec : TextCodec) (body : Body) :
    Except Stop TransactionInfo := do
  let request ← orUnparsed (parser.parse body)
  let params ← orUnparsed ((request.valueGet "params").bind Json.asArray)
  let encoded ← orUnparsed (params.head?.bind Json.asStr)
  if maxBase64Len < encoded.utf8ByteSize then .error (.err .unparsed)
  else
    let config := params[1]?.bind (Json.valueGet "encoding")
    let encoding := (config.bind Json.asStr).getD "base58"
    let bytes ← decodeText codec encoding encoded
    if maxLen bytes < bytes.length then .error (.err .unparsed) else decodeTransaction bytes

/-! The size of a text. -/

theorem base58_size : base58.size = 58 := by decide

/-- The longest legacy transaction has `maxBase58Len` digits of base 58; with the first byte of
v1 before as many bytes there is a digit more. -/
theorem base58_limits :
    256 ^ maxLegacyLen ≤ 58 ^ maxBase58Len ∧ 58 ^ maxBase58Len ≤ 129 * 256 ^ maxLegacyLen := by
  have hle : 256 ^ 112 ≤ 58 ^ 153 := by norm_num
  have hge : 2 * 58 ^ 153 ≤ 3 * 256 ^ 112 := by norm_num
  have hlegacy : maxLegacyLen = 112 * 11 := rfl
  have htext : maxBase58Len = 153 * 11 := rfl
  have hbelow := Nat.pow_le_pow_left hle 11
  have habove := Nat.pow_le_pow_left hge 11
  rw [mul_pow, mul_pow] at habove
  rw [hlegacy, htext, pow_mul, pow_mul]
  exact ⟨hbelow, by omega⟩

theorem base58_digits {m : Nat} (h : m ≤ maxLegacyLen) :
    256 ^ m ≤ 58 ^ (m + (maxBase58Len - maxLegacyLen)) := by
  obtain ⟨d, hd⟩ := Nat.exists_eq_add_of_le h
  have hsum : maxBase58Len = m + (maxBase58Len - maxLegacyLen) + d := by
    unfold maxBase58Len maxLegacyLen at *
    omega
  apply Nat.le_of_mul_le_mul_right _ (Nat.pow_pos (n := d) (show 0 < 256 by norm_num))
  calc 256 ^ m * 256 ^ d = 256 ^ maxLegacyLen := by rw [← pow_add, ← hd]
    _ ≤ 58 ^ maxBase58Len := base58_limits.1
    _ = 58 ^ (m + (maxBase58Len - maxLegacyLen)) * 58 ^ d := by rw [← pow_add, ← hsum]
    _ ≤ 58 ^ (m + (maxBase58Len - maxLegacyLen)) * 256 ^ d :=
        Nat.mul_le_mul_left _ (Nat.pow_le_pow_left (by norm_num) d)

theorem leadingZeros_le (bytes : List UInt8) : leadingZeros bytes ≤ bytes.length :=
  (List.takeWhile_sublist _).length_le

theorem base58_text_fits {bytes : List UInt8} (h : bytes.length ≤ maxLegacyLen) :
    (base58.encode bytes).length ≤ maxBase58Len := by
  have hzeros := leadingZeros_le bytes
  have hgap : maxLegacyLen ≤ maxBase58Len := by decide
  have hroom : maxBase58Len = leadingZeros bytes + (maxBase58Len - leadingZeros bytes) := by omega
  rw [hroom, Alphabet.encode_length_le_iff, base58_size]
  calc beValue bytes < 256 ^ (bytes.length - leadingZeros bytes) := beValue_lt bytes
    _ ≤ 58 ^ (bytes.length - leadingZeros bytes + (maxBase58Len - maxLegacyLen)) :=
        base58_digits (by omega)
    _ ≤ 58 ^ (maxBase58Len - leadingZeros bytes) := Nat.pow_le_pow_right (by norm_num) (by omega)

/-- The first byte of a v1 transaction makes 1233 bytes one digit too long. -/
theorem base58_v1_too_long {bytes : List UInt8} (hv : bytes.head? = some v1Prefix)
    (h : maxLegacyLen < bytes.length) : maxBase58Len < (base58.encode bytes).length := by
  obtain ⟨rest, rfl⟩ : ∃ rest, bytes = v1Prefix :: rest := List.head?_eq_some_iff.mp hv
  have hnone : leadingZeros (v1Prefix :: rest) = 0 := by
    rw [leadingZeros, List.takeWhile_cons_of_neg (by decide)]
    rfl
  have hrest : maxLegacyLen ≤ rest.length := Nat.le_of_lt_succ h
  have hvalue : 58 ^ maxBase58Len ≤ beValue (v1Prefix :: rest) :=
    calc 58 ^ maxBase58Len ≤ 129 * 256 ^ maxLegacyLen := base58_limits.2
      _ ≤ 129 * 256 ^ rest.length := Nat.mul_le_mul_left _ (Nat.pow_le_pow_right (by norm_num) hrest)
      _ ≤ beValue (v1Prefix :: rest) := beValue_cons_ge v1Prefix rest
  by_contra hle
  have hfits : (base58.encode (v1Prefix :: rest)).length ≤
      leadingZeros (v1Prefix :: rest) + maxBase58Len := by omega
  rw [Alphabet.encode_length_le_iff, base58_size] at hfits
  exact absurd hfits (not_lt.mpr hvalue)

theorem base58_byteSize (bytes : List UInt8) :
    (String.ofList (base58.encode bytes)).utf8ByteSize = (base58.encode bytes).length :=
  utf8ByteSize_ofList (base58.encode_ascii bytes)

theorem base64_byteSize (bytes : List UInt8) :
    (String.ofList (encodeBase64 bytes)).utf8ByteSize = 4 * ((bytes.length + 2) / 3) := by
  rw [utf8ByteSize_ofList (encodeBase64_ascii bytes), encodeBase64_length]

/-! The request. -/

/-- `{"params": [text, {"encoding": encoding}]}` -/
def transactionRequest (text : JsonString) (encoding : String) : Json :=
  .obj [(⟨"params", false⟩, .arr [.str text, .obj [(⟨"encoding", false⟩, .str ⟨encoding, false⟩)]])]

section gates

variable {parser : ValueParser} {codec : TextCodec} {body : Body} {text : JsonString}
  {encoding : String} {bytes : List UInt8}

theorem decodeRequest_eq (hbody : parser.parse body = some (transactionRequest text encoding)) :
    decodeRequest parser codec body =
      if maxBase64Len < text.text.utf8ByteSize then .error (.err .unparsed)
      else (decodeText codec encoding text.text).bind (fun bytes =>
        if maxLen bytes < bytes.length then .error (.err .unparsed) else decodeTransaction bytes) := by
  rw [decodeRequest, hbody]
  rfl

/-- A text that decodes goes through exactly when it and its bytes are not too long. -/
theorem decodeRequest_of_decoded
    (hbody : parser.parse body = some (transactionRequest text encoding))
    (hdecoded : decodeText codec encoding text.text = .ok bytes) {fits : Prop} [Decidable fits]
    (hfits : fits ↔ text.text.utf8ByteSize ≤ maxBase64Len ∧ bytes.length ≤ maxLen bytes) :
    decodeRequest parser codec body =
      if fits then decodeTransaction bytes else .error (.err .unparsed) := by
  rw [decodeRequest_eq hbody, hdecoded]
  by_cases hlong : maxBase64Len < text.text.utf8ByteSize
  · rw [if_pos hlong, if_neg (fun h => absurd (hfits.mp h).1 (not_le.mpr hlong))]
  · rw [if_neg hlong]
    by_cases hmany : maxLen bytes < bytes.length
    · rw [if_neg (fun h => absurd (hfits.mp h).2 (not_le.mpr hmany))]
      exact if_pos hmany
    · rw [if_pos (hfits.mpr ⟨not_lt.mp hlong, not_lt.mp hmany⟩)]
      exact if_neg hmany

theorem decodeRequest_of_refused
    (hbody : parser.parse body = some (transactionRequest text encoding))
    (hrefused : decodeText codec encoding text.text = .error (.err .unparsed)) :
    decodeRequest parser codec body = .error (.err .unparsed) := by
  rw [decodeRequest_eq hbody, hrefused]
  exact ite_self _

theorem decodeText_base64 (bytes : List UInt8) :
    decodeText codec "base64" (String.ofList (encodeBase64 bytes)) = .ok bytes := by
  rw [decodeText, if_neg (by decide), if_pos rfl, codec.base64_encode]
  rfl

theorem decodeText_base58 (bytes : List UInt8) :
    decodeText codec "base58" (String.ofList (base58.encode bytes)) =
      if maxBase58Len < (base58.encode bytes).length then .error (.err .unparsed) else .ok bytes := by
  rw [decodeText, if_pos rfl, base58_byteSize, codec.base58_encode]
  rfl

theorem maxLen_v1 (h : bytes.head? = some v1Prefix) : maxLen bytes = 4096 := if_pos h

theorem maxLen_legacy (h : bytes.head? ≠ some v1Prefix) : maxLen bytes = 1232 := if_neg h

/-- A text of base 64 is within its limit when the bytes are within theirs. -/
theorem base64_gates (bytes : List UInt8) :
    (bytes.length ≤ 1232 ∨ bytes.head? = some v1Prefix ∧ bytes.length ≤ 4096) ↔
      (String.ofList (encodeBase64 bytes)).utf8ByteSize ≤ maxBase64Len ∧
        bytes.length ≤ maxLen bytes := by
  rw [base64_byteSize, maxBase64Len]
  by_cases hv : bytes.head? = some v1Prefix
  · rw [maxLen_v1 hv]
    simp only [hv, true_and]
    omega
  · rw [maxLen_legacy hv]
    simp only [hv, false_and, or_false]
    omega

theorem base58_gates (hlen : (base58.encode bytes).length ≤ maxBase58Len) :
    bytes.length ≤ 1232 ↔
      (String.ofList (base58.encode bytes)).utf8ByteSize ≤ maxBase64Len ∧
        bytes.length ≤ maxLen bytes := by
  have hsize : (String.ofList (base58.encode bytes)).utf8ByteSize ≤ maxBase64Len :=
    base58_byteSize bytes ▸ hlen.trans (by decide)
  rw [and_iff_right hsize]
  by_cases hv : bytes.head? = some v1Prefix
  · have hshort : bytes.length ≤ 1232 := by
      by_contra hlong
      exact absurd hlen (not_le.mpr (base58_v1_too_long hv (not_le.mp hlong)))
    rw [maxLen_v1 hv]
    omega
  · rw [maxLen_legacy hv]

end gates

/-- The limits on the text and on the bytes are limits on the bytes alone: 1232 of them, or 4096 of
a v1 transaction in base 64. -/
theorem decode_request_size_gates (parser : ValueParser) (codec : TextCodec) (bytes : List UInt8)
    (escaped : Bool) (body : Body) :
    (parser.parse body =
        some (transactionRequest ⟨String.ofList (encodeBase64 bytes), escaped⟩ "base64") →
      decodeRequest parser codec body =
        if bytes.length ≤ 1232 ∨ bytes.head? = some v1Prefix ∧ bytes.length ≤ 4096 then
          decodeTransaction bytes
        else .error (.err .unparsed)) ∧
    (parser.parse body =
        some (transactionRequest ⟨String.ofList (base58.encode bytes), escaped⟩ "base58") →
      decodeRequest parser codec body =
        if bytes.length ≤ 1232 then decodeTransaction bytes else .error (.err .unparsed)) := by
  refine ⟨?_, ?_⟩
  · intro hbody
    exact decodeRequest_of_decoded hbody (decodeText_base64 bytes) (base64_gates bytes)
  · intro hbody
    by_cases hlong : maxBase58Len < (base58.encode bytes).length
    · have hrefused : decodeText codec "base58" (String.ofList (base58.encode bytes)) =
          .error (.err .unparsed) := by rw [decodeText_base58, if_pos hlong]
      have hmany : ¬ bytes.length ≤ 1232 := fun h => absurd (base58_text_fits h) (not_le.mpr hlong)
      rw [decodeRequest_of_refused hbody hrefused, if_neg hmany]
    · have hdecoded : decodeText codec "base58" (String.ofList (base58.encode bytes)) = .ok bytes := by
        rw [decodeText_base58, if_neg hlong]
      exact decodeRequest_of_decoded hbody hdecoded (base58_gates (not_lt.mp hlong))

def standardCodec : TextCodec where
  base58 text := base58.decode text.toList
  base64 text := decodeBase64 text.toList
  base58_encode bytes := by rw [String.toList_ofList, Alphabet.decode_encode]
  base64_encode bytes := by rw [String.toList_ofList, decodeBase64_encode]

/-- A request for this transaction text. -/
def transactionBody (text encoding : String) : Body :=
  .object (utf8Bytes ("\"params\":[\"" ++ text ++ "\",\x7b\"encoding\":\"" ++ encoding ++ "\"\x7d]\x7d"))
    [(⟨"params", false⟩,
      .arr [.str ⟨text, false⟩, .obj [(⟨"encoding", false⟩, .str ⟨encoding, false⟩)]])]

def base64Body (bytes : List UInt8) : Body :=
  transactionBody (String.ofList (encodeBase64 bytes)) "base64"

def base58Body (bytes : List UInt8) : Body :=
  transactionBody (String.ofList (base58.encode bytes)) "base58"

def longInstruction : V1Instruction :=
  ⟨0, [1], List.replicate 1200 7, by decide, List.length_replicate.trans_lt (by decide)⟩

/-- `pricedV1` with a long instruction. -/
def largeV1 : V1Transaction :=
  { pricedV1 with
    instructions := [pricedInstruction, longInstruction]
    instructions_lt := by decide
    indexed := by decide }

theorem largeV1_length : largeV1.encode.length = 1396 := by
  decide +kernel

/-- The priced transaction filled up to 1232 bytes and to one more, and a v1 transaction
above that limit. -/
theorem decode_request_size_gates_priced :
    decodeRequest documents standardCodec
        (base64Body (pricedTransaction.encode ++ List.replicate 1085 0)) =
          .ok ⟨3000, true, some 1000000, some 3000, 1, 1, true⟩ ∧
      decodeRequest documents standardCodec
        (base58Body (pricedTransaction.encode ++ List.replicate 1085 0)) =
          .ok ⟨3000, true, some 1000000, some 3000, 1, 1, true⟩ ∧
      decodeRequest documents standardCodec
        (base64Body (pricedTransaction.encode ++ List.replicate 1086 0)) =
          .error (.err .unparsed) ∧
      decodeRequest documents standardCodec
        (base58Body (pricedTransaction.encode ++ List.replicate 1086 0)) =
          .error (.err .unparsed) ∧
      decodeRequest documents standardCodec (base64Body largeV1.encode) =
        .ok ⟨222603, false, some 1302, some 290, 2, 1, true⟩ ∧
      decodeRequest documents standardCodec (base58Body largeV1.encode) =
        .error (.err .unparsed) := by
  obtain ⟨hpriced, hhead⟩ := pricedTransaction_bytes
  have hlength : ∀ n, (pricedTransaction.encode ++ List.replicate n 0).length = 147 + n := by
    intro n
    rw [List.length_append, hpriced, List.length_replicate]
  have hfull := decode_pricedTransaction (List.length_replicate (n := 1085) (a := 0)).le
  have hstart : (pricedTransaction.encode ++ List.replicate 1086 0).head? ≠ some v1Prefix := by
    rwa [List.head?_append_of_ne_nil _ (List.ne_nil_of_length_pos (by omega))]
  have hsummary : largeV1.summary = ⟨222603, false, some 1302, some 290, 2, 1, true⟩ := by
    decide +kernel
  have hlarge : decodeTransaction largeV1.encode = .ok largeV1.summary :=
    decodeTransaction_v1_encode largeV1 (by decide)
  have hgates := decode_request_size_gates documents standardCodec
  refine ⟨?_, ?_, ?_, ?_, ?_, ?_⟩
  · rw [(hgates _ false _).1 rfl, if_pos (.inl (by rw [hlength])), hfull]
  · rw [(hgates _ false _).2 rfl, if_pos (by rw [hlength]), hfull]
  · rw [(hgates _ false _).1 rfl, hlength, if_neg]
    rintro (h | ⟨h, -⟩)
    · omega
    · exact hstart h
  · rw [(hgates _ false _).2 rfl, hlength, if_neg (by decide)]
  · rw [(hgates _ false _).1 rfl, largeV1_length, if_pos (.inr ⟨rfl, by decide⟩), hlarge, hsummary]
  · rw [(hgates _ false _).2 rfl, largeV1_length, if_neg (by decide)]

end RpcPlane
