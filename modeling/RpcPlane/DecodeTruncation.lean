import RpcPlane.LegacyFormat
import RpcPlane.Truncation
import RpcPlane.V1Format

/-! Transactions cut short and transactions with more bytes after them. -/

namespace RpcPlane

/-- The error of a read past the end. -/
def cutShort : Stop := .err .unparsed

/-! The reads of the decoder. -/

theorem Definite.take (len : Nat) : Definite cutShort (Cursor.take len) := Definite.takeOr cutShort len

theorem Definite.skip (len : Nat) : Definite cutShort (Cursor.skip len) :=
  (Definite.take len).bind fun _ => Definite.pure ()

theorem Definite.byte : Definite cutShort Cursor.byte := by
  refine (Definite.take 1).bind fun taken => ?_
  cases taken[0]? with
  | none => exact Definite.fail Stop.panic
  | some b => exact Definite.pure b

theorem Definite.shortvecFrom (shifts : List Nat) (value : Nat) :
    Definite cutShort (shortvecFrom shifts value) := by
  induction shifts generalizing value with
  | nil => exact Definite.fail _
  | cons shift shifts ih =>
    refine Definite.byte.bind fun b => (Definite.fail _).ite ?_
    exact ((Definite.fail _).ite (Definite.pure _)).ite (ih _)

theorem Definite.shortvec : Definite cutShort Cursor.shortvec := Definite.shortvecFrom [0, 7, 14] 0

theorem Definite.leU32 : Definite cutShort Cursor.leU32 :=
  (Definite.take 4).bind fun _ => (Definite.ofExcept _).bind fun _ => Definite.pure _

theorem Definite.decodeInstruction (keys : List UInt8) (keyCount : Nat) (b : Budget) :
    Definite cutShort (decodeInstruction keys keyCount b) := by
  refine Definite.byte.bind fun index => (Definite.fail _).ite ?_
  refine Definite.shortvec.bind fun accounts => (Definite.skip _).bind fun _ => ?_
  refine Definite.shortvec.bind fun dataLen => (Definite.take _).bind fun data => ?_
  refine (Definite.ofExcept _).bind fun lo => (Definite.ofExcept _).bind fun hi => ?_
  exact (Definite.ofExcept _).bind fun key => Definite.ofExcept _

theorem Definite.decodeHeader : Definite cutShort decodeHeader := by
  refine Definite.byte.bind fun first => ?_
  refine ((Definite.fail _).ite ?_).ite ?_
  · exact (Definite.skip 3).bind fun _ => Definite.pure true
  · exact (Definite.skip 2).bind fun _ => Definite.pure false

theorem Definite.decodeLegacy : Definite cutShort decodeLegacy := by
  refine Definite.shortvec.bind fun numSignatures => (Definite.ofExcept _).bind fun signaturesLen => ?_
  refine (Definite.skip _).bind fun _ => Definite.decodeHeader.bind fun versioned => ?_
  refine Definite.shortvec.bind fun keyCount => (Definite.ofExcept _).bind fun keysLen => ?_
  refine (Definite.take _).bind fun keys => (Definite.skip 32).bind fun _ => ?_
  refine Definite.shortvec.bind fun count => ?_
  have hloop := Definite.each (fun _ b => Definite.decodeInstruction keys keyCount b)
    (List.range count) {}
  exact hloop.bind fun budget => Definite.pure _

theorem Definite.decodeConfigValue (bit : Nat) (config : V1Config) :
    Definite cutShort (decodeConfigValue bit config) :=
  Definite.leU32.bind fun _ => Definite.pure _

theorem Definite.decodeV1Header (numAddresses payloadLen : Nat) :
    Definite cutShort (decodeV1Header numAddresses payloadLen) := by
  refine Definite.byte.bind fun index => (Definite.fail _).ite ?_
  refine Definite.byte.bind fun accounts => (Definite.take 2).bind fun dataLen => ?_
  refine (Definite.ofExcept _).bind fun dataLen => (Definite.ofExcept _).bind fun payload => ?_
  exact Definite.ofExcept _

/-- The last test of v1 is that the signatures are all that is left. -/
theorem Exact.decodeV1Reader : Exact cutShort decodeV1Reader := by
  refine Exact.bind (Definite.skip 1) fun _ => Exact.bind Definite.byte fun numSignatures => ?_
  refine Exact.bind (Definite.skip 2) fun _ => Exact.bind Definite.leU32 fun mask => ?_
  refine Exact.bind (Definite.skip 32) fun _ => Exact.bind Definite.byte fun numInstructions => ?_
  refine Exact.bind Definite.byte fun numAddresses => Exact.bind (Definite.ofExcept _) fun _ => ?_
  refine Exact.bind (Definite.skip _) fun _ => ?_
  refine Exact.bind (Definite.each Definite.decodeConfigValue _ _) fun config => ?_
  refine Exact.bind (Definite.ofExcept _) fun fee => ?_
  refine Exact.bind (Definite.each (fun _ n => Definite.decodeV1Header _ n) _ _) fun payloadLen => ?_
  refine Exact.bind (Definite.skip _) fun _ => Exact.remaining ?_
  intro n c info c' h m hm d
  obtain ⟨signaturesLen, c₁, hlen, h⟩ := Reader.bind_ok.mp h
  obtain ⟨hlen, -⟩ := Reader.ofExcept_ok.mp hlen
  have hn : n = signaturesLen := by
    by_contra hne
    rw [if_pos hne] at h
    exact absurd (Reader.fail_ok.mp h) id
  have hsame : Reader.ofExcept (mulIn 64 numSignatures.toNat 64) d = .ok (signaturesLen, d) := by
    rw [hlen]
    rfl
  rw [Reader.bind_of_ok hsame, if_pos (hn ▸ hm)]
  rfl

/-! The first byte decides between the formats. -/

theorem head?_of_prefix {p b : List UInt8} (h : p <+: b) : p.head? = none ∨ p.head? = b.head? := by
  obtain ⟨rest, rfl⟩ := h
  cases p with
  | nil => exact .inl rfl
  | cons first p => exact .inr rfl

theorem decodeTransaction_nil : decodeTransaction [] = .error cutShort := rfl

theorem decodeTransaction_v1 {b : List UInt8} (h : b.head? = some v1Prefix) :
    decodeTransaction b = (decodeV1Reader (Cursor.new b)).map Prod.fst := if_pos h

theorem decodeTransaction_older {b : List UInt8}
    (h : b.head? ≠ some v1Prefix ∧ ¬ b.head?.any (v1Prefix < ·)) :
    decodeTransaction b = (decodeLegacy (Cursor.new b)).map Prod.fst := by
  rw [decodeTransaction, if_neg h.1, if_neg h.2]

theorem decodeLegacy_of_ok {b : List UInt8} {info : TransactionInfo} (h : decodeTransaction b = .ok info)
    (hv : b.head? ≠ some v1Prefix) :
    (b.head? ≠ some v1Prefix ∧ ¬ b.head?.any (v1Prefix < ·)) ∧
      ∃ c, decodeLegacy (Cursor.new b) = .ok (info, c) := by
  by_cases hlater : b.head?.any (v1Prefix < ·)
  · rw [decodeTransaction, if_neg hv, if_pos hlater] at h
    cases h
  · rw [decodeTransaction_older ⟨hv, hlater⟩] at h
    refine ⟨⟨hv, hlater⟩, ?_⟩
    cases hread : decodeLegacy (Cursor.new b) with
    | error e =>
      rw [hread] at h
      cases h
    | ok r =>
      rw [hread] at h
      obtain rfl := Except.ok.inj h
      exact ⟨r.2, rfl⟩

/-- What a legacy decode consumes decides it, and no bytes after it are looked at. -/
theorem legacy_cut {b : List UInt8} {info : TransactionInfo} (h : decodeTransaction b = .ok info)
    (hv : b.head? ≠ some v1Prefix) :
    ∃ n ≤ b.length, (∀ x, decodeTransaction (b.take n ++ x) = .ok info) ∧
      ∀ p, p <+: b.take n → p ≠ b.take n → decodeTransaction p = .error cutShort := by
  obtain ⟨holder, c, hread⟩ := decodeLegacy_of_ok h hv
  obtain ⟨w, hw⟩ := Definite.decodeLegacy _ _ _ hread
  have hfit : 0 + w.length < 2 ^ 64 := by
    have hfits := hw.fits (Nat.two_pow_pos 64)
    rw [hw.pos] at hfits
    exact hfits
  have hb : b = w ++ c.rest := hw.rest
  have htake : b.take w.length = w := by rw [hb, List.take_left]
  have hne : w ≠ [] := by
    rintro rfl
    have hempty := hw.reads (Cursor.new []) [] rfl (by decide)
    have herror : decodeLegacy (Cursor.new []) = .error cutShort := rfl
    rw [herror] at hempty
    cases hempty
  refine ⟨w.length, ?_, ?_, ?_⟩
  · rw [hb, List.length_append]
    omega
  · intro x
    rw [htake]
    have hhead : (w ++ x).head? = b.head? := by
      rw [hb, List.head?_append_of_ne_nil w hne, List.head?_append_of_ne_nil w hne]
    rw [decodeTransaction_older (hhead ▸ holder), hw.reads (Cursor.new (w ++ x)) x rfl hfit]
    rfl
  · intro p hp hneq
    rw [htake] at hp hneq
    have hpb : p <+: b := hp.trans ⟨c.rest, hb.symm⟩
    have hstart : p.head? ≠ some v1Prefix ∧ ¬ p.head?.any (v1Prefix < ·) := by
      rcases head?_of_prefix hpb with hnone | hsame
      · rw [hnone]
        exact ⟨by simp, by simp⟩
      · rw [hsame]
        exact holder
    rw [decodeTransaction_older hstart, hw.cuts (Cursor.new p) hp hneq hfit]
    rfl

/-- An accepted v1 transaction is refused when bytes are taken away or added. -/
theorem v1_exact {b d : List UInt8} {info : TransactionInfo} (h : decodeTransaction b = .ok info)
    (hv : b.head? = some v1Prefix) (hd : d <+: b ∨ b <+: d) (hne : d ≠ b) :
    decodeTransaction d = .error cutShort := by
  have hstart : d.head? = none ∨ d.head? = some v1Prefix := by
    rcases hd with hd | hd
    · rw [← hv]
      exact head?_of_prefix hd
    · rcases head?_of_prefix hd with hnone | hsame
      · rw [hv] at hnone
        cases hnone
      · exact .inr (hsame.symm.trans hv)
  rcases hstart with hnil | hsame
  · rw [List.head?_eq_none_iff.mp hnil]
    exact decodeTransaction_nil
  · rw [decodeTransaction_v1 hv] at h
    rw [decodeTransaction_v1 hsame]
    cases hread : decodeV1Reader (Cursor.new b) with
    | error e =>
      rw [hread] at h
      cases h
    | ok r =>
      rw [Exact.decodeV1Reader _ _ _ hread (Nat.two_pow_pos 64) (Cursor.new d) rfl hd hne]
      rfl

/-- An accepted v1 transaction is accepted in full only. An accepted legacy or v0 transaction is
accepted with anything after the bytes that were read, and not without the last of them. -/
theorem transaction_truncation (b : List UInt8) (info : TransactionInfo)
    (h : decodeTransaction b = .ok info) :
    (b.head? = some v1Prefix →
      (∀ p, p <+: b → p ≠ b → decodeTransaction p = .error (.err .unparsed)) ∧
      ∀ x, x ≠ [] → decodeTransaction (b ++ x) = .error (.err .unparsed)) ∧
    (b.head? ≠ some v1Prefix →
      ∃ n ≤ b.length, (∀ x, decodeTransaction (b.take n ++ x) = .ok info) ∧
        ∀ p, p <+: b.take n → p ≠ b.take n → decodeTransaction p = .error (.err .unparsed)) := by
  refine ⟨?_, fun hv => legacy_cut h hv⟩
  intro hv
  refine ⟨?_, ?_⟩
  · intro p hp hne
    exact v1_exact h hv (.inl hp) hne
  · intro x hx
    exact v1_exact h hv (.inr (List.prefix_append b x)) (by simpa using hx)

/-- A v0 transaction with five more bytes after it, and a v1 transaction with an instruction. -/
theorem transaction_truncation_priced :
    (∃ n ≤ 152, (∀ x, decodeTransaction
          ((pricedTransaction.encode ++ List.replicate 5 0x20).take n ++ x) =
            .ok ⟨3000, true, some 1000000, some 3000, 1, 1, true⟩) ∧
        ∀ p, p <+: (pricedTransaction.encode ++ List.replicate 5 0x20).take n →
          p ≠ (pricedTransaction.encode ++ List.replicate 5 0x20).take n →
          decodeTransaction p = .error (.err .unparsed)) ∧
      (∀ n < pricedV1.encode.length,
        decodeTransaction (pricedV1.encode.take n) = .error (.err .unparsed)) ∧
      decodeTransaction (pricedV1.encode ++ [0]) = .error (.err .unparsed) := by
  obtain ⟨hlen, hhead⟩ := pricedTransaction_bytes
  have hlegacy : decodeTransaction (pricedTransaction.encode ++ List.replicate 5 0x20) =
      .ok ⟨3000, true, some 1000000, some 3000, 1, 1, true⟩ := decode_pricedTransaction (by simp)
  have hstart : (pricedTransaction.encode ++ List.replicate 5 0x20).head? ≠ some v1Prefix := by
    rwa [List.head?_append_of_ne_nil _ (List.ne_nil_of_length_pos (by omega))]
  obtain ⟨n, hn, hread⟩ := (transaction_truncation _ _ hlegacy).2 hstart
  have hv1 := decodeTransaction_v1_encode pricedV1 (by decide)
  obtain ⟨hless, hmore⟩ := (transaction_truncation pricedV1.encode _ hv1).1 rfl
  refine ⟨⟨n, ?_, hread⟩, ?_, hmore [0] (by simp)⟩
  · simpa [hlen] using hn
  · intro m hm
    refine hless _ (List.take_prefix m _) ?_
    intro he
    have hcut := congrArg List.length he
    rw [List.length_take] at hcut
    omega

end RpcPlane
