import RpcPlane.Keyed
import Mathlib.Algebra.Group.Int.Defs
import Mathlib.Algebra.Group.Nat.Defs

/-! JSON documents, and what a derived one-field struct reads from one. -/

namespace RpcPlane

/-- A string literal: the text it denotes, and whether its spelling uses an escape. -/
structure JsonString where
  text : String
  escaped : Bool
  deriving DecidableEq, Repr

/-- A number literal. `real` is one that is only ever read as a float: it has a
fraction or an exponent, or is `-0`. -/
inductive JsonNumber where
  | integer (n : Int)
  | real (text : String)
  deriving DecidableEq, Repr

inductive Json where
  | null
  | bool (b : Bool)
  | num (n : JsonNumber)
  | str (s : JsonString)
  | arr (items : List Json)
  | obj (members : List (JsonString × Json))
  deriving Repr

def Json.isObject : Json → Bool
  | .obj _ => true
  | _ => false

def Json.isNull : Json → Bool
  | .null => true
  | _ => false

def Json.member? (key : String) : Json → Option Json
  | .obj members => (members.find? (·.1.text == key)).map Prod.snd
  | _ => none

def Json.KeysDistinct : Json → Prop
  | .obj members => (members.map (·.1.text)).Nodup
  | _ => True

/-! Readers: `none` is a deserialization error. -/

def readIgnored (_ : Json) : Option Unit := some ()

def readI64 : Json → Option Int
  | .num (.integer n) => if -2 ^ 63 ≤ n ∧ n < 2 ^ 63 then some n else none
  | _ => none

/-- A borrowed `&str` can only point at a literal that is spelled without escapes. -/
def readBorrowedStr : Json → Option String
  | .str s => if s.escaped then none else some s.text
  | _ => none

def readOption {α : Type} (read : Json → Option α) : Json → Option (Option α)
  | .null => some none
  | j => (read j).map some

def readVec {α : Type} (read : Json → Option α) : Json → Option (List α)
  | .arr items => items.mapM read
  | _ => none

/-- A derived struct whose only field is `key : Option<_>`. From an object, other
members are ignored, an absent field is `None` and a repeated one is an error; an
array must hold exactly the field's value. -/
def readField {α : Type} (key : String) (read : Json → Option α) : Json → Option (Option α)
  | .obj members =>
    match members.filter (·.1.text == key) with
    | [] => some none
    | [m] => readOption read m.2
    | _ => none
  | .arr [item] => readOption read item
  | _ => none

theorem readField_obj {α : Type} (key : String) (read : Json → Option α)
    {members : List (JsonString × Json)} (h : (members.map (·.1.text)).Nodup) :
    readField key read (.obj members) =
      match Json.member? key (.obj members) with
      | none => some none
      | some v => readOption read v := by
  simp only [readField, Json.member?, filter_key_of_nodup (fun m : JsonString × Json => m.1.text) h key]
  cases members.find? (·.1.text == key) <;> rfl

theorem readField_arr_singleton {α : Type} (key : String) (read : Json → Option α) (item : Json) :
    readField key read (.arr [item]) = readOption read item := rfl

theorem readField_arr_ne {α : Type} (key : String) (read : Json → Option α) {items : List Json}
    (h : items.length ≠ 1) : readField key read (.arr items) = none := by
  match items, h with
  | [], _ => rfl
  | _ :: _ :: _, _ => rfl

theorem readOption_ignored (j : Json) :
    readOption readIgnored j = some (if j.isNull then none else some ()) := by
  cases j <;> rfl

theorem readOption_isSome {α : Type} {read : Json → Option α} {j : Json} {a : α}
    (h : readOption read j = some (some a)) : j.isNull = false := by
  cases j <;> first | rfl | simp [readOption] at h

theorem readField_ignored {α : Type} {key : String} {read : Json → Option α} {j : Json} {a : α}
    (h : readField key read j = some (some a)) :
    readField key readIgnored j = some (some ()) := by
  have hread : ∀ v, readOption read v = some (some a) → readOption readIgnored v = some (some ()) := by
    intro v hv
    rw [readOption_ignored, readOption_isSome hv]
    rfl
  match j, h with
  | .obj members, h =>
    cases hf : members.filter (·.1.text == key) with
    | nil => simp [readField, hf] at h
    | cons m ms =>
      cases ms with
      | nil =>
        simp only [readField, hf] at h ⊢
        exact hread m.2 h
      | cons m' ms => simp [readField, hf] at h
  | .arr [item], h => exact hread item h

theorem readField_ignored_iff (key : String) {j : Json} (h : j.KeysDistinct) :
    readField key readIgnored j = some (some ()) ↔
      (∃ v, j.member? key = some v ∧ v.isNull = false) ∨ ∃ v, j = .arr [v] ∧ v.isNull = false := by
  cases j with
  | obj members =>
    rw [readField_obj key readIgnored h]
    cases hm : Json.member? key (.obj members) with
    | none => simp
    | some v => cases hv : v.isNull <;> simp [readOption_ignored, hv]
  | arr items =>
    by_cases hl : items.length = 1
    · obtain ⟨item, rfl⟩ := List.length_eq_one_iff.mp hl
      rw [readField_arr_singleton, readOption_ignored]
      cases hv : item.isNull <;> simp [Json.member?, hv]
    · rw [readField_arr_ne key readIgnored hl]
      simp only [reduceCtorEq, Json.member?, false_and, exists_false, false_or, false_iff]
      rintro ⟨v, he, -⟩
      obtain rfl : items = [v] := Json.arr.inj he
      exact hl rfl
  | _ => simp [readField, Json.member?]

/-! Bodies as `serde_json::from_slice` sees them. -/

def utf8Bytes (s : String) : List UInt8 := s.toList.flatMap String.utf8EncodeChar

def isAsciiWhitespace (b : UInt8) : Bool :=
  b == 0x20 || b == 0x09 || b == 0x0A || b == 0x0C || b == 0x0D

def firstByte (bytes : List UInt8) : Option UInt8 :=
  bytes.find? (!isAsciiWhitespace ·)

/-- A message body: its bytes and the document they spell, `none` when they are not
JSON. A document starts with a brace exactly when it is an object. -/
structure Body where
  bytes : List UInt8
  json : Option Json
  opens : ∀ j, json = some j → ∃ b, firstByte bytes = some b ∧ (b = 0x7B ↔ j.isObject = true)

def Body.object (tail : List UInt8) (members : List (JsonString × Json)) : Body where
  bytes := 0x7B :: tail
  json := some (.obj members)
  opens := by
    rintro j hj
    obtain rfl := Option.some.inj hj
    exact ⟨0x7B, rfl, iff_of_true rfl rfl⟩

def Body.array (tail : List UInt8) (items : List Json) : Body where
  bytes := 0x5B :: tail
  json := some (.arr items)
  opens := by
    rintro j hj
    obtain rfl := Option.some.inj hj
    exact ⟨0x5B, rfl, iff_of_false (by decide) (by simp [Json.isObject])⟩

def Body.fromSlice {α : Type} (read : Json → Option α) (body : Body) : Option α :=
  body.json.bind read

theorem mapM_isSome_iff {α β : Type} {f : α → Option β} {l : List α} :
    (l.mapM f).isSome = true ↔ ∀ a ∈ l, (f a).isSome = true := by
  induction l with
  | nil => simp
  | cons a l ih =>
    rw [List.mapM_cons]
    cases ha : f a <;> cases hl : l.mapM f <;> simp_all

theorem mem_of_mapM {α β : Type} {f : α → Option β} {l : List α} {bs : List β}
    (h : l.mapM f = some bs) {a : α} (ha : a ∈ l) {b : β} (hb : f a = some b) : b ∈ bs := by
  induction l generalizing bs with
  | nil => simp at ha
  | cons x l ih =>
    rw [List.mapM_cons] at h
    obtain ⟨y, hy, h⟩ := Option.bind_eq_some_iff.mp h
    obtain ⟨ys, hys, h⟩ := Option.bind_eq_some_iff.mp h
    obtain rfl : y :: ys = bs := by simpa using h
    rcases List.mem_cons.mp ha with rfl | ha
    · have he : y = b := Option.some.inj (hy.symm.trans hb)
      simp [he]
    · exact List.mem_cons_of_mem _ (ih hys ha)

end RpcPlane
