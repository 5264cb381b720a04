import RpcPlane.ByteReader
import RpcPlane.HistoricalJob
import Mathlib.Data.List.Sort
import Mathlib.Data.String.Basic

/-! `hash_json`: the bytes a `serde_json::Value` is hashed by, and values up to the order of
object members. -/

namespace RpcPlane

/-- What the text of a number is made of: digits, a sign, a point, an exponent mark. -/
def isNumberByte (b : UInt8) : Bool :=
  (0x30 ≤ b && b ≤ 0x39) || b == 0x2B || b == 0x2D || b == 0x2E || b == 0x45 || b == 0x65

/-- A number by the bytes of its rendered text. -/
structure Number where
  text : List UInt8
  plain : ∀ b ∈ text, isNumberByte b = true
  deriving DecidableEq

inductive Value where
  | null
  | bool (b : Bool)
  | number (n : Number)
  | string (s : String)
  | array (values : List Value)
  | object (members : List (String × Value))

def writeUsize (n : Nat) : List UInt8 := leBytes 8 n

def byKey {α : Type} (x y : String × α) : Prop := x.1 ≤ y.1

instance {α : Type} : DecidableRel (byKey (α := α)) := fun x y => inferInstanceAs (Decidable (x.1 ≤ y.1))

def sortKeys {α : Type} (members : List (String × α)) : List (String × α) :=
  members.insertionSort byKey

mutual

/-- The bytes written to the hasher. -/
def hashJson : Value → List UInt8
  | .null => [0]
  | .bool b => [1, if b then 1 else 0]
  | .number n => 2 :: n.text
  | .string s => 3 :: (writeUsize s.utf8ByteSize ++ utf8Bytes s)
  | .array values => 4 :: (writeUsize values.length ++ hashItems values)
  | .object members =>
    5 :: (writeUsize members.length ++ (sortKeys (hashMembers members)).flatMap (fun m =>
      writeUsize m.1.utf8ByteSize ++ (utf8Bytes m.1 ++ m.2)))

def hashItems : List Value → List UInt8
  | [] => []
  | v :: values => hashJson v ++ hashItems values

def hashMembers : List (String × Value) → List (String × List UInt8)
  | [] => []
  | (key, v) :: members => (key, hashJson v) :: hashMembers members

end

mutual

/-- Equal up to the order of the members of objects. -/
def Value.Same : Value → Value → Prop
  | .null, .null => True
  | .bool b, .bool c => b = c
  | .number n, .number m => n.text = m.text
  | .string s, .string t => s = t
  | .array vs, .array ws => SameItems vs ws
  | .object ms, .object ns => ms.length = ns.length ∧ SameMembers ms ns
  | _, _ => False

def SameItems : List Value → List Value → Prop
  | [], [] => True
  | v :: vs, w :: ws => v.Same w ∧ SameItems vs ws
  | _, _ => False

def SameMembers : List (String × Value) → List (String × Value) → Prop
  | [], _ => True
  | (key, v) :: ms, ns => (∃ w, (key, w) ∈ ns ∧ v.Same w) ∧ SameMembers ms ns

end

mutual

/-- A value of a 64-bit program: the keys of an object are distinct, no length is over
`isize::MAX`. -/
def Value.Valid : Value → Prop
  | .string s => s.utf8ByteSize < 2 ^ 63
  | .array vs => vs.length < 2 ^ 63 ∧ ValidItems vs
  | .object ms => ms.length < 2 ^ 63 ∧ (ms.map Prod.fst).Nodup ∧ ValidMembers ms
  | _ => True

def ValidItems : List Value → Prop
  | [] => True
  | v :: vs => v.Valid ∧ ValidItems vs

def ValidMembers : List (String × Value) → Prop
  | [] => True
  | (key, v) :: ms => (key.utf8ByteSize < 2 ^ 63 ∧ v.Valid) ∧ ValidMembers ms

end

mutual

/-- The members of every object in the order of their keys. -/
def Value.canonical : Value → Value
  | .array vs => .array (canonicalItems vs)
  | .object ms => .object (sortKeys (canonicalMembers ms))
  | v => v

def canonicalItems : List Value → List Value
  | [] => []
  | v :: vs => v.canonical :: canonicalItems vs

def canonicalMembers : List (String × Value) → List (String × Value)
  | [] => []
  | (key, v) :: ms => (key, v.canonical) :: canonicalMembers ms

end

/-- Induction over a value, with the hypothesis for each item and each member. -/
theorem Value.ind {motive : Value → Prop} (null : motive .null) (bool : ∀ b, motive (.bool b))
    (number : ∀ n, motive (.number n)) (string : ∀ s, motive (.string s))
    (array : ∀ vs, (∀ v ∈ vs, motive v) → motive (.array vs))
    (object : ∀ ms, (∀ m ∈ ms, motive m.2) → motive (.object ms)) (v : Value) : motive v := by
  refine Value.rec (motive_1 := motive) (motive_2 := fun vs => ∀ v ∈ vs, motive v)
    (motive_3 := fun ms => ∀ m ∈ ms, motive m.2) (motive_4 := fun m => motive m.2)
    null bool number string array object ?_ ?_ ?_ ?_ ?_ v
  · simp
  · intro head tail hhead htail
    simpa using ⟨hhead, htail⟩
  · simp
  · intro head tail hhead htail m hm
    rcases List.mem_cons.mp hm with rfl | hm
    · exact hhead
    · exact htail m hm
  · intro key v hv
    exact hv

theorem hashItems_eq (vs : List Value) : hashItems vs = vs.flatMap hashJson := by
  induction vs with
  | nil => rfl
  | cons v vs ih => rw [hashItems, ih, List.flatMap_cons]

theorem hashMembers_eq (ms : List (String × Value)) :
    hashMembers ms = ms.map (fun m => (m.1, hashJson m.2)) := by
  induction ms with
  | nil => rfl
  | cons m ms ih => rw [hashMembers, ih, List.map_cons]

theorem canonicalItems_eq (vs : List Value) : canonicalItems vs = vs.map Value.canonical := by
  induction vs with
  | nil => rfl
  | cons v vs ih => rw [canonicalItems, ih, List.map_cons]

theorem canonicalMembers_eq (ms : List (String × Value)) :
    canonicalMembers ms = ms.map (fun m => (m.1, m.2.canonical)) := by
  induction ms with
  | nil => rfl
  | cons m ms ih => rw [canonicalMembers, ih, List.map_cons]

theorem sameItems_iff (vs ws : List Value) :
    SameItems vs ws ↔ List.Forall₂ Value.Same vs ws := by
  induction vs generalizing ws with
  | nil => cases ws <;> simp [SameItems]
  | cons v vs ih => cases ws <;> simp [SameItems, ih]

theorem sameMembers_iff (ms ns : List (String × Value)) :
    SameMembers ms ns ↔ ∀ m ∈ ms, ∃ w, (m.1, w) ∈ ns ∧ m.2.Same w := by
  induction ms with
  | nil => simp [SameMembers]
  | cons m ms ih => simp [SameMembers, ih]

theorem validItems_iff (vs : List Value) : ValidItems vs ↔ ∀ v ∈ vs, v.Valid := by
  induction vs with
  | nil => simp [ValidItems]
  | cons v vs ih => simp [ValidItems, ih]

theorem validMembers_iff (ms : List (String × Value)) :
    ValidMembers ms ↔ ∀ m ∈ ms, m.1.utf8ByteSize < 2 ^ 63 ∧ m.2.Valid := by
  induction ms with
  | nil => simp [ValidMembers]
  | cons m ms ih => simp [ValidMembers, ih]

theorem toByteArray_eq (s : String) : s.toByteArray = (utf8Bytes s).toByteArray := by
  have h := String.toByteArray_ofList (l := s.toList)
  rw [String.ofList_toList] at h
  exact h

theorem utf8Bytes_length (s : String) : (utf8Bytes s).length = s.utf8ByteSize := by
  rw [← String.size_toByteArray, toByteArray_eq, List.size_toByteArray]

theorem utf8Bytes_inj {s t : String} (h : utf8Bytes s = utf8Bytes t) : s = t := by
  apply String.toByteArray_inj.mp
  rw [toByteArray_eq, toByteArray_eq, h]

/-! Members in the order of their keys. -/

section Keys

variable {α β : Type}

theorem sortKeys_perm (ms : List (String × α)) : (sortKeys ms).Perm ms := List.perm_insertionSort _ ms

theorem mem_sortKeys {ms : List (String × α)} {m : String × α} : m ∈ sortKeys ms ↔ m ∈ ms :=
  List.mem_insertionSort _

@[simp] theorem sortKeys_length (ms : List (String × α)) : (sortKeys ms).length = ms.length :=
  List.length_insertionSort _ ms

theorem sortKeys_map (f : α → β) (ms : List (String × α)) :
    sortKeys (ms.map (fun m => (m.1, f m.2))) = (sortKeys ms).map (fun m => (m.1, f m.2)) :=
  (List.map_insertionSort byKey byKey (fun m : String × α => (m.1, f m.2)) ms
    (fun _ _ _ _ => Iff.rfl)).symm

theorem sortKeys_pairwise (ms : List (String × α)) : (sortKeys ms).Pairwise byKey := by
  have : Std.Total (byKey (α := α)) := ⟨fun x y => le_total x.1 y.1⟩
  have : IsTrans (String × α) byKey := ⟨fun _ _ _ => le_trans⟩
  exact List.pairwise_insertionSort _ ms

theorem sortKeys_idem (ms : List (String × α)) : sortKeys (sortKeys ms) = sortKeys ms :=
  (sortKeys_pairwise ms).insertionSort_eq

theorem sortKeys_strict {ms : List (String × α)} (h : (ms.map Prod.fst).Nodup) :
    (sortKeys ms).Pairwise (fun x y => x.1 < y.1) := by
  have hkeys : ((sortKeys ms).map Prod.fst).Nodup :=
    ((sortKeys_perm ms).map Prod.fst).nodup_iff.mpr h
  have hne := List.pairwise_map.mp hkeys
  exact (sortKeys_pairwise ms).imp₂ (fun _ _ hle hne => lt_of_le_of_ne hle hne) hne

theorem sortKeys_eq_of_perm {ms ns : List (String × α)} (hkeys : (ms.map Prod.fst).Nodup)
    (h : ms.Perm ns) : sortKeys ms = sortKeys ns := by
  have hkeys' : (ns.map Prod.fst).Nodup := (h.map Prod.fst).nodup_iff.mp hkeys
  have hperm : (sortKeys ms).Perm (sortKeys ns) :=
    (sortKeys_perm ms).trans (h.trans (sortKeys_perm ns).symm)
  refine hperm.eq_of_pairwise ?_ (sortKeys_strict hkeys) (sortKeys_strict hkeys')
  intro x y _ _ hxy hyx
  exact absurd hyx (lt_asymm hxy)

theorem perm_of_sortKeys_eq {ms ns : List (String × α)} (h : sortKeys ms = sortKeys ns) :
    ms.Perm ns := by
  have hright := sortKeys_perm ns
  rw [← h] at hright
  exact (sortKeys_perm ms).symm.trans hright

end Keys

/-! Equal up to the order of members is equal in key order. -/

theorem canonical_array (vs : List Value) :
    (Value.array vs).canonical = .array (vs.map Value.canonical) := by
  rw [Value.canonical, canonicalItems_eq]

theorem canonical_object (ms : List (String × Value)) :
    (Value.object ms).canonical =
      .object ((sortKeys ms).map (fun m => (m.1, m.2.canonical))) := by
  rw [Value.canonical, canonicalMembers_eq, sortKeys_map]

theorem Value.Valid.items {vs : List Value} (h : (Value.array vs).Valid) :
    vs.length < 2 ^ 63 ∧ ∀ v ∈ vs, v.Valid := ⟨h.1, (validItems_iff vs).mp h.2⟩

theorem Value.Valid.members {ms : List (String × Value)} (h : (Value.object ms).Valid) :
    ms.length < 2 ^ 63 ∧ (ms.map Prod.fst).Nodup ∧
      ∀ m ∈ ms, m.1.utf8ByteSize < 2 ^ 63 ∧ m.2.Valid := ⟨h.1, h.2.1, (validMembers_iff ms).mp h.2.2⟩

/-- Objects whose members agree up to their order have equal members in key order. -/
theorem canonical_object_iff {ms ns : List (String × Value)} (hms : (ms.map Prod.fst).Nodup) :
    (Value.object ms).canonical = (Value.object ns).canonical ↔ ms.length = ns.length ∧
      ∀ m ∈ ms, ∃ w, (m.1, w) ∈ ns ∧ m.2.canonical = w.canonical := by
  have hcanon : ∀ ls : List (String × Value),
      (ls.map (fun m => (m.1, m.2.canonical))).map Prod.fst = ls.map Prod.fst := by
    intro ls
    rw [List.map_map]
    rfl
  rw [canonical_object, canonical_object, Value.object.injEq, ← sortKeys_map, ← sortKeys_map]
  constructor
  · intro h
    have hperm := perm_of_sortKeys_eq h
    refine ⟨by simpa using hperm.length_eq, ?_⟩
    intro m hm
    have hmem : (m.1, m.2.canonical) ∈ ns.map (fun m => (m.1, m.2.canonical)) :=
      hperm.subset (List.mem_map_of_mem hm)
    obtain ⟨⟨key, w⟩, hw, he⟩ := List.mem_map.mp hmem
    obtain ⟨rfl, hv⟩ := Prod.mk.inj he
    exact ⟨w, hw, hv.symm⟩
  · rintro ⟨hlen, hall⟩
    have hkeys : ((ms.map (fun m => (m.1, m.2.canonical))).map Prod.fst).Nodup := by rwa [hcanon]
    refine sortKeys_eq_of_perm hkeys ?_
    have hnodup := List.Nodup.of_map _ hkeys
    have hsub : ms.map (fun m => (m.1, m.2.canonical)) ⊆ ns.map (fun m => (m.1, m.2.canonical)) := by
      intro x hx
      obtain ⟨m, hm, rfl⟩ := List.mem_map.mp hx
      obtain ⟨w, hw, hv⟩ := hall m hm
      exact List.mem_map.mpr ⟨(m.1, w), hw, by rw [hv]⟩
    exact (hnodup.subperm hsub).perm_of_length_le (by simp [hlen])

theorem same_iff_canonical {a b : Value} (ha : a.Valid) (hb : b.Valid) :
    a.Same b ↔ a.canonical = b.canonical := by
  induction a using Value.ind generalizing b with
  | number n =>
    cases b with
    | number m =>
      simp only [Value.Same, Value.canonical, Value.number.injEq]
      constructor
      · intro h
        cases n
        cases m
        simpa using h
      · rintro rfl
        rfl
    | _ => simp [Value.Same, Value.canonical]
  | array vs ih =>
    cases b with
    | array ws =>
      have hvs := ha.items.2
      have hws := hb.items.2
      clear ha hb
      rw [Value.Same, sameItems_iff, canonical_array, canonical_array, Value.array.injEq]
      induction vs generalizing ws with
      | nil => simp [eq_comm]
      | cons v vs ihvs =>
        cases ws with
        | nil => simp
        | cons w ws =>
          have hhead : v.Same w ↔ v.canonical = w.canonical :=
            ih v List.mem_cons_self (hvs v List.mem_cons_self) (hws w List.mem_cons_self)
          have htail := ihvs (fun x hx {b} => ih x (List.mem_cons_of_mem _ hx)) ws
            (fun x hx => hvs x (List.mem_cons_of_mem _ hx))
            (fun x hx => hws x (List.mem_cons_of_mem _ hx))
          simp only [List.forall₂_cons, List.map_cons, List.cons.injEq, hhead, htail]
    | _ => simp [Value.Same, Value.canonical]
  | object ms ih =>
    cases b with
    | object ns =>
      obtain ⟨-, hms, hmsv⟩ := ha.members
      obtain ⟨-, -, hnsv⟩ := hb.members
      rw [canonical_object_iff hms, Value.Same, sameMembers_iff]
      have hmember : ∀ m ∈ ms, ∀ w, (m.1, w) ∈ ns →
          (m.2.Same w ↔ m.2.canonical = w.canonical) := by
        intro m hm w hw
        exact ih m hm (hmsv m hm).2 (hnsv _ hw).2
      constructor
      · rintro ⟨hlen, hall⟩
        refine ⟨hlen, ?_⟩
        intro m hm
        obtain ⟨w, hw, hsame⟩ := hall m hm
        exact ⟨w, hw, (hmember m hm w hw).mp hsame⟩
      · rintro ⟨hlen, hall⟩
        refine ⟨hlen, ?_⟩
        intro m hm
        obtain ⟨w, hw, hcanon⟩ := hall m hm
        exact ⟨w, hw, (hmember m hm w hw).mpr hcanon⟩
    | _ => simp [Value.Same, Value.canonical]
  | _ => cases b <;> simp [Value.Same, Value.canonical]

def writeMember (m : String × Value) : List UInt8 :=
  writeUsize m.1.utf8ByteSize ++ (utf8Bytes m.1 ++ hashJson m.2)

theorem hashJson_array (vs : List Value) :
    hashJson (.array vs) = 4 :: (writeUsize vs.length ++ vs.flatMap hashJson) := by
  rw [hashJson, hashItems_eq]

theorem hashJson_object (ms : List (String × Value)) :
    hashJson (.object ms) = 5 :: (writeUsize ms.length ++ (sortKeys ms).flatMap writeMember) := by
  rw [hashJson, hashMembers_eq, sortKeys_map, List.flatMap_map]
  rfl

/-- The bytes do not depend on the order of members. -/
theorem hashJson_canonical (v : Value) : hashJson v.canonical = hashJson v := by
  induction v using Value.ind with
  | array vs ih =>
    rw [canonical_array, hashJson_array, hashJson_array, List.length_map, List.flatMap_map,
      List.flatMap_congr ih]
  | object ms ih =>
    have hmember : ∀ m ∈ sortKeys ms, writeMember (m.1, m.2.canonical) = writeMember m := by
      intro m hm
      rw [writeMember, ih m (mem_sortKeys.mp hm)]
      rfl
    rw [canonical_object, hashJson_object, hashJson_object, List.length_map, sortKeys_length,
      sortKeys_map, sortKeys_idem, List.flatMap_map, List.flatMap_congr hmember]
  | _ => rfl

end RpcPlane
