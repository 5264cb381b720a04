import RpcPlane.Json

/-! `classify_request`: what the proxy reads from a request body before routing it. -/

namespace RpcPlane

inductive TransactionRequest where
  | none
  | single
  | batch
  deriving DecidableEq, Repr

inductive HistoricalRequestClass where
  | none
  | single
  | batch (eligibleCalls : Nat)
  deriving DecidableEq, Repr

def maxBatchLabelMethods : Nat := 5
def maxMethodLabelLen : Nat := 128

structure RequestClass where
  method : String
  calls : Nat
  batch : Bool
  fullHistory : Bool
  transaction : TransactionRequest
  historical : HistoricalRequestClass
  deriving DecidableEq, Repr

def truncateChars : Nat → List Char → List Char
  | _, [] => []
  | limit, c :: cs =>
    if c.utf8Size ≤ limit then c :: truncateChars (limit - c.utf8Size) cs else []

def truncateLabel (label : String) : String :=
  if maxMethodLabelLen < label.utf8ByteSize then
    String.ofList (truncateChars maxMethodLabelLen label.toList)
  else label

def uniqueMethods (methods : List String) : List String :=
  methods.foldl (fun uniques m => if uniques.contains m then uniques else uniques ++ [m]) []

def batchLabel (uniques : List String) : String :=
  let shown := min uniques.length maxBatchLabelMethods
  let label := ",".intercalate (uniques.take shown)
  if shown < uniques.length then label ++ "+" ++ toString (uniques.length - shown) else label

def readMethod : Json → Option (Option String) := readField "method" readBorrowedStr

def classifySingle (m : String) (fullHistoryMethods : List String) : RequestClass where
  method := m
  calls := 1
  batch := false
  fullHistory := fullHistoryMethods.contains m
  transaction := if m = "sendTransaction" then .single else .none
  historical := if m = "getTransaction" then .single else .none

def classifyBatch (methods : List String) (fullHistoryMethods : List String) :
    Option RequestClass :=
  let uniques := uniqueMethods methods
  let historicalCalls := methods.count "getTransaction"
  if uniques.isEmpty then none
  else some
    { method := truncateLabel (batchLabel uniques)
      calls := methods.length
      batch := true
      fullHistory := uniques.any fullHistoryMethods.contains
      transaction := if methods.contains "sendTransaction" then .batch else .none
      historical := if 0 < historicalCalls then .batch historicalCalls else .none }

def classifyRequest (body : Body) (fullHistoryMethods : List String) : Option RequestClass := do
  let first ← firstByte body.bytes
  if first = 0x7B then
    let method ← body.fromSlice readMethod
    method.map (classifySingle · fullHistoryMethods)
  else
    let arr ← body.fromSlice (readVec readMethod)
    classifyBatch (arr.filterMap id) fullHistoryMethods

def RequestClass.unknown : RequestClass where
  method := "unknown"
  calls := 1
  batch := false
  fullHistory := false
  transaction := .none
  historical := .none

/-! JSON-RPC calls of a document, whatever the derived reader makes of them. -/

def Json.calls : Json → List Json
  | .arr items => items
  | j => [j]

/-- The call names `m`, however its string is spelled. -/
def Json.CallsMethod (call : Json) (m : String) : Prop :=
  ∃ members, call = .obj members ∧
    ∃ e ∈ members, e.1.text = "method" ∧ ∃ s, e.2 = .str s ∧ s.text = m

def CallsListed (body : Body) (listed : List String) : Prop :=
  ∃ j, body.json = some j ∧ ∃ call ∈ j.calls, ∃ m ∈ listed, call.CallsMethod m

/-- Every call of the body reads as a `MethodField`. -/
def Readable (body : Body) : Prop :=
  ∃ j, body.json = some j ∧ ∀ call ∈ j.calls, (readMethod call).isSome = true

theorem mem_uniqueMethods {methods : List String} {m : String} :
    m ∈ uniqueMethods methods ↔ m ∈ methods := by
  have hfold : ∀ us : List String, m ∈ methods.foldl
      (fun uniques m => if uniques.contains m then uniques else uniques ++ [m]) us ↔
      m ∈ us ∨ m ∈ methods := by
    induction methods with
    | nil => simp
    | cons x xs ih =>
      intro us
      rw [List.foldl_cons, ih, List.mem_cons]
      by_cases hx : x ∈ us
      · simp only [List.contains_iff_mem, hx, if_true]
        constructor
        · rintro (h | h)
          · exact Or.inl h
          · exact Or.inr (Or.inr h)
        · rintro (h | rfl | h)
          · exact Or.inl h
          · exact Or.inl hx
          · exact Or.inr h
      · simp only [List.contains_iff_mem, hx, if_false, List.mem_append, List.mem_singleton, or_assoc]
  simpa [uniqueMethods] using hfold []

theorem readMethod_of_callsMethod {call : Json} {m : String} (hc : call.CallsMethod m)
    (hr : (readMethod call).isSome = true) : readMethod call = some (some m) := by
  obtain ⟨members, rfl, e, he, hk, s, hs, hm⟩ := hc
  have hmem : e ∈ members.filter (·.1.text == "method") :=
    List.mem_filter.mpr ⟨he, by simp [hk]⟩
  simp only [readMethod, readField] at hr ⊢
  cases hf : members.filter (·.1.text == "method") with
  | nil => rw [hf] at hmem; exact absurd hmem List.not_mem_nil
  | cons x xs =>
    cases xs with
    | nil =>
      rw [hf] at hmem hr
      obtain rfl : e = x := by simpa using hmem
      simp only [readOption, hs, readBorrowedStr] at hr ⊢
      cases hesc : s.escaped with
      | true => simp [hesc] at hr
      | false => simp [hm]
    | cons y ys => rw [hf] at hr; simp at hr

theorem firstByte_of_json {body : Body} {j : Json} (hj : body.json = some j) :
    ∃ b, firstByte body.bytes = some b ∧ (b = 0x7B ↔ j.isObject = true) := body.opens j hj

theorem classifyRequest_obj {body : Body} {j : Json} (hj : body.json = some j)
    (ho : j.isObject = true) (listed : List String) :
    classifyRequest body listed =
      (readMethod j).bind (·.map (classifySingle · listed)) := by
  obtain ⟨b, hb, hiff⟩ := firstByte_of_json hj
  simp [classifyRequest, hb, hiff.mpr ho, Body.fromSlice, hj]

theorem classifyRequest_not_obj {body : Body} {j : Json} (hj : body.json = some j)
    (ho : j.isObject = false) (listed : List String) :
    classifyRequest body listed =
      (readVec readMethod j).bind (fun arr => classifyBatch (arr.filterMap id) listed) := by
  obtain ⟨b, hb, hiff⟩ := firstByte_of_json hj
  have hne : b ≠ 0x7B := fun he => by simp [hiff.mp he] at ho
  simp [classifyRequest, hb, hne, Body.fromSlice, hj]

theorem classifyRequest_listed {body : Body} {listed : List String} (hl : CallsListed body listed)
    (hr : Readable body) :
    ∃ cls, classifyRequest body listed = some cls ∧ cls.fullHistory = true := by
  obtain ⟨j, hj, call, hcall, m, hm, hc⟩ := hl
  obtain ⟨j', hj', hread⟩ := hr
  obtain rfl : j = j' := Option.some.inj (hj.symm.trans hj')
  have hmethod := readMethod_of_callsMethod hc (hread call hcall)
  cases j with
  | obj members =>
    obtain rfl : call = .obj members := by simpa [Json.calls] using hcall
    refine ⟨classifySingle m listed, ?_, ?_⟩
    · rw [classifyRequest_obj hj rfl, hmethod]
      rfl
    · simpa [classifySingle] using hm
  | arr items =>
    have hsome : (items.mapM readMethod).isSome = true := mapM_isSome_iff.mpr hread
    obtain ⟨arr, harr⟩ := Option.isSome_iff_exists.mp hsome
    have hin : m ∈ uniqueMethods (arr.filterMap id) :=
      mem_uniqueMethods.mpr (List.mem_filterMap.mpr ⟨some m, mem_of_mapM harr hcall hmethod, rfl⟩)
    have hne : (uniqueMethods (arr.filterMap id)).isEmpty = false := by
      cases hu : uniqueMethods (arr.filterMap id) with
      | nil => rw [hu] at hin; exact absurd hin List.not_mem_nil
      | cons u us => rfl
    rw [classifyRequest_not_obj hj rfl, readVec, harr, Option.bind_some, classifyBatch]
    simp only [hne, Bool.false_eq_true, if_false, Option.some.injEq, exists_eq_left']
    exact List.any_eq_true.mpr ⟨m, hin, by simpa using hm⟩
  | _ =>
    obtain ⟨members, he, -⟩ := hc
    simp [Json.calls, he] at hcall

/-- One call that does not read as a `MethodField` makes the whole body unknown. -/
theorem classifyRequest_unreadable {body : Body} {listed : List String}
    (hl : CallsListed body listed) (hr : ¬ Readable body) : classifyRequest body listed = none := by
  obtain ⟨j, hj, call, hcall, m, hm, hc⟩ := hl
  have hbad : ¬ ∀ call ∈ j.calls, (readMethod call).isSome = true := fun h => hr ⟨j, hj, h⟩
  cases j with
  | obj members =>
    have hnone : readMethod (.obj members) = none := by simpa [Json.calls] using hbad
    rw [classifyRequest_obj hj rfl, hnone]
    rfl
  | arr items =>
    have hnone : items.mapM readMethod = none := by
      rw [← Option.not_isSome_iff_eq_none, mapM_isSome_iff]
      exact hbad
    rw [classifyRequest_not_obj hj rfl, readVec, hnone]
    rfl
  | _ =>
    obtain ⟨members, he, -⟩ := hc
    simp [Json.calls, he] at hcall

end RpcPlane
