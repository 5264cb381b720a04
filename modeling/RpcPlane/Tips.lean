import RpcPlane.Config
import Mathlib.Logic.Function.Basic

/-! Slots per commitment, the tips they are compared with, and the ring of round tips. -/

namespace RpcPlane

def Commitment.all : List Commitment := [.processed, .confirmed, .finalized]

structure CommitmentSlots where
  processed : Option Nat := none
  confirmed : Option Nat := none
  finalized : Option Nat := none
  deriving DecidableEq, Repr

def CommitmentSlots.get (s : CommitmentSlots) : Commitment → Option Nat
  | .processed => s.processed
  | .confirmed => s.confirmed
  | .finalized => s.finalized

/-- A commitment whose probe leg failed keeps its earlier slot. -/
def CommitmentSlots.merge (s new : CommitmentSlots) : CommitmentSlots where
  processed := if new.processed.isSome then new.processed else s.processed
  confirmed := if new.confirmed.isSome then new.confirmed else s.confirmed
  finalized := if new.finalized.isSome then new.finalized else s.finalized

def maxOption : Option Nat → Option Nat → Option Nat
  | some a, some b => some (max a b)
  | a, b => a.or b

def CommitmentSlots.observeMax (s slots : CommitmentSlots) : CommitmentSlots where
  processed := maxOption s.processed slots.processed
  confirmed := maxOption s.confirmed slots.confirmed
  finalized := maxOption s.finalized slots.finalized

structure SlotTips where
  processed : Nat := 0
  confirmed : Nat := 0
  finalized : Nat := 0
  deriving DecidableEq, Repr

def SlotTips.get (t : SlotTips) : Commitment → Nat
  | .processed => t.processed
  | .confirmed => t.confirmed
  | .finalized => t.finalized

def SlotTips.observe (t : SlotTips) (slots : CommitmentSlots) : SlotTips where
  processed := max t.processed (slots.processed.getD 0)
  confirmed := max t.confirmed (slots.confirmed.getD 0)
  finalized := max t.finalized (slots.finalized.getD 0)

structure CommitmentRounds where
  processed : Option Nat := none
  confirmed : Option Nat := none
  finalized : Option Nat := none
  deriving DecidableEq, Repr

def CommitmentRounds.get (r : CommitmentRounds) : Commitment → Option Nat
  | .processed => r.processed
  | .confirmed => r.confirmed
  | .finalized => r.finalized

def CommitmentRounds.stamp (r : CommitmentRounds) (slots : CommitmentSlots)
    (round : Option Nat) : CommitmentRounds where
  processed := if slots.processed.isSome then round else r.processed
  confirmed := if slots.confirmed.isSome then round else r.confirmed
  finalized := if slots.finalized.isSome then round else r.finalized

def tipRounds : Nat := 4

abbrev RoundTips := Fin tipRounds → Option (Nat × SlotTips)

def RoundTips.index (round : Nat) : Fin tipRounds :=
  ⟨round % tipRounds, Nat.mod_lt _ (by decide)⟩

def RoundTips.observe (tips : RoundTips) (round : Nat) (slots : CommitmentSlots) : RoundTips :=
  match tips (RoundTips.index round) with
  | some (r, t) =>
    if r = round then Function.update tips (RoundTips.index round) (some (r, t.observe slots))
    -- a straggler from a round the ring has already moved past
    else if round < r then tips
    else Function.update tips (RoundTips.index round) (some (round, ({} : SlotTips).observe slots))
  | none =>
    Function.update tips (RoundTips.index round) (some (round, ({} : SlotTips).observe slots))

def RoundTips.get (tips : RoundTips) (round : Nat) : Option SlotTips :=
  match tips (RoundTips.index round) with
  | some (r, t) => if r = round then some t else none
  | none => none

abbrev TipSource := Commitment → Option Nat → Nat

def SlotTips.tip (t : SlotTips) : TipSource := fun c _ => t.get c

structure TipBook where
  latest : SlotTips
  rounds : RoundTips

def TipBook.tip (book : TipBook) : TipSource := fun c round =>
  match round.bind book.rounds.get with
  | some t => t.get c
  | none => book.latest.get c

end RpcPlane
