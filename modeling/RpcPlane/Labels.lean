import RpcPlane.Classify

/-! Request labels against the calls of a body. A batch label is cut to the ceiling, the label
of a single request is its method as the client sent it. -/

namespace RpcPlane

/-- The method a call names, however its string is spelled. -/
def Json.method? : Json → Option String
  | .obj members =>
    match members.find? (·.1.text == "method") with
    | some (_, .str s) => some s.text
    | _ => none
  | _ => none

/-- An array of one string is no call. The derived reader takes the members of its struct
by position there, and finds a method. -/
def Json.isPositional : Json → Bool
  | .arr [.str _] => true
  | _ => false

/-- The method that the derived reader finds, where it does not fail. -/
def Json.readMethod? : Json → Option String
  | .arr [.str s] => some s.text
  | call => call.method?

def Json.methods (j : Json) : List String := j.calls.filterMap Json.method?

def Body.NamesOnly (body : Body) (m : String) : Prop :=
  ∃ j, body.json = some j ∧ ∀ call ∈ j.calls, call.method? = some m

/-- No element of the body is an array that the derived reader takes for a call. -/
def Body.NonPositional (body : Body) : Prop :=
  ∀ j, body.json = some j → ∀ call ∈ j.calls, call.isPositional = false

/-- `body` is one call of `m` by itself. -/
def Body.SingleFor (body : Body) (m : String) : Prop :=
  ∃ members, body.json = some (.obj members) ∧ (Json.obj members).method? = some m

/-- A label within the ceiling, and counts of what is in the body. -/
structure RequestClass.Exact (cls : RequestClass) (body : Body) (listed : List String) : Prop where
  label_le : cls.method.utf8ByteSize ≤ maxMethodLabelLen
  calls : ∃ j, body.json = some j ∧ cls.calls = j.methods.length
  full_history : cls.fullHistory = true ↔ ∃ j, body.json = some j ∧ ∃ m ∈ j.methods, m ∈ listed
  batch : cls.batch = true ↔ ∃ items, body.json = some (.arr items)
  same_label : cls.batch = true → ∀ m, body.NamesOnly m → ∀ single, single.SingleFor m →
    ∀ cls', classifyRequest single listed = some cls' → cls.method = cls'.method

theorem readOption_borrowedStr {j : Json} {o : Option String}
    (h : readOption readBorrowedStr j = some o) :
    o = match j with
      | .str s => some s.text
      | _ => none := by
  cases j with
  | null => exact (Option.some.inj h).symm
  | str s =>
    cases he : s.escaped <;> simp [readOption, readBorrowedStr, he] at h
    exact h.symm
  | _ => simp [readOption, readBorrowedStr] at h

theorem readMethod_eq {call : Json} {o : Option String} (h : readMethod call = some o) :
    call.readMethod? = o := by
  match call, h with
  | .obj members, h =>
    have hfind : members.find? (·.1.text == "method") =
        (members.filter (·.1.text == "method")).head? := (List.head?_filter ..).symm
    simp only [readMethod, readField] at h
    cases hf : members.filter (·.1.text == "method") with
    | nil =>
      rw [hf] at h hfind
      simp only [Json.readMethod?, Json.method?, hfind, List.head?_nil]
      exact Option.some.inj h
    | cons x xs =>
      rw [hf] at h hfind
      cases xs with
      | nil =>
        obtain ⟨key, value⟩ := x
        have hread := readOption_borrowedStr h
        simp only [Json.readMethod?, Json.method?, hfind, List.head?_cons]
        rw [hread]
        cases value <;> rfl
      | cons y ys => simp at h
  | .arr [item], h =>
    rw [readOption_borrowedStr (h : readOption readBorrowedStr item = some o)]
    cases item <;> rfl

theorem filterMap_method {items : List Json} {arr : List (Option String)}
    (h : items.mapM readMethod = some arr) :
    arr.filterMap id = items.filterMap Json.readMethod? := by
  induction items generalizing arr with
  | nil =>
    obtain rfl : [] = arr := by simpa using h
    rfl
  | cons call items ih =>
    rw [List.mapM_cons] at h
    obtain ⟨o, ho, h⟩ := Option.bind_eq_some_iff.mp h
    obtain ⟨os, hos, h⟩ := Option.bind_eq_some_iff.mp h
    obtain rfl : o :: os = arr := by simpa using h
    rw [List.filterMap_cons, List.filterMap_cons, readMethod_eq ho, ih hos]
    rfl

theorem Json.isPositional_iff {call : Json} :
    call.isPositional = true ↔ ∃ s, call = .arr [.str s] := by
  unfold isPositional
  split
  · simp
  · rename_i hne
    simpa using hne

theorem Json.readMethod?_of_member {call : Json} (h : call.isPositional = false) :
    call.readMethod? = call.method? := by
  unfold readMethod?
  split
  · simp [isPositional] at h
  · rfl

theorem Json.readMethod?_of_method? {call : Json} {m : String} (h : call.method? = some m) :
    call.readMethod? = some m := by
  cases hp : call.isPositional with
  | false => rw [readMethod?_of_member hp, h]
  | true =>
    obtain ⟨s, rfl⟩ := isPositional_iff.mp hp
    cases h

/-- Each call that is read by position is one more than the body holds. -/
theorem length_filterMap_readMethod (items : List Json) :
    (items.filterMap Json.readMethod?).length =
      (items.filterMap Json.method?).length + items.countP Json.isPositional := by
  induction items with
  | nil => rfl
  | cons call items ih =>
    rw [List.countP_cons]
    cases hp : call.isPositional with
    | false =>
      rw [List.filterMap_cons, List.filterMap_cons, Json.readMethod?_of_member hp]
      cases hm : call.method? with
      | none => simpa [hm] using ih
      | some m =>
        simp only [List.length_cons, ih, Bool.false_eq_true, if_false]
        omega
    | true =>
      obtain ⟨s, rfl⟩ := Json.isPositional_iff.mp hp
      have hread : (Json.arr [.str s]).readMethod? = some s.text := rfl
      have hnone : (Json.arr [.str s]).method? = none := rfl
      rw [List.filterMap_cons_some hread, List.filterMap_cons_none hnone]
      simp only [List.length_cons, ih, if_true]
      omega

theorem filterMap_readMethod {items : List Json}
    (h : ∀ call ∈ items, call.isPositional = false) :
    items.filterMap Json.readMethod? = items.filterMap Json.method? :=
  List.filterMap_congr fun call hc => Json.readMethod?_of_member (h call hc)

theorem utf8ByteSize_ofList_cons (c : Char) (cs : List Char) :
    (String.ofList (c :: cs)).utf8ByteSize = c.utf8Size + (String.ofList cs).utf8ByteSize := by
  rw [← List.singleton_append, String.ofList_append, ← String.singleton_eq_ofList,
    String.utf8ByteSize_append, String.utf8ByteSize_singleton]

theorem truncateChars_le (limit : Nat) (cs : List Char) :
    (String.ofList (truncateChars limit cs)).utf8ByteSize ≤ limit := by
  induction cs generalizing limit with
  | nil => simp [truncateChars]
  | cons c cs ih =>
    by_cases hc : c.utf8Size ≤ limit
    · have hrest := ih (limit - c.utf8Size)
      rw [truncateChars, if_pos hc, utf8ByteSize_ofList_cons]
      omega
    · rw [truncateChars, if_neg hc]
      simp

theorem truncateLabel_le (label : String) :
    (truncateLabel label).utf8ByteSize ≤ maxMethodLabelLen := by
  by_cases h : maxMethodLabelLen < label.utf8ByteSize
  · rw [truncateLabel, if_pos h]
    exact truncateChars_le _ _
  · rw [truncateLabel, if_neg h]
    omega

theorem truncateLabel_eq_self {label : String} :
    truncateLabel label = label ↔ label.utf8ByteSize ≤ maxMethodLabelLen := by
  constructor
  · intro h
    rw [← h]
    exact truncateLabel_le label
  · intro h
    rw [truncateLabel, if_neg (by omega)]

theorem uniqueMethods_replicate (m : String) (n : Nat) :
    uniqueMethods (List.replicate (n + 1) m) = [m] := by
  have hstay : ∀ n, (List.replicate n m).foldl
      (fun uniques m => if uniques.contains m then uniques else uniques ++ [m]) [m] = [m] := by
    intro n
    induction n with
    | zero => rfl
    | succ n ih =>
      rw [List.replicate_succ, List.foldl_cons]
      simpa using ih
  rw [uniqueMethods, List.replicate_succ, List.foldl_cons]
  simpa using hstay n

theorem classifyBatch_spec {methods listed : List String} {cls : RequestClass}
    (h : classifyBatch methods listed = some cls) :
    methods ≠ [] ∧ cls.method = truncateLabel (batchLabel (uniqueMethods methods)) ∧
      cls.calls = methods.length ∧ cls.batch = true ∧
      (cls.fullHistory = true ↔ ∃ m ∈ methods, m ∈ listed) := by
  unfold classifyBatch at h
  by_cases he : (uniqueMethods methods).isEmpty = true
  · simp [he] at h
  · simp only [he, Bool.false_eq_true, if_false, Option.some.injEq] at h
    obtain rfl := h
    refine ⟨?_, rfl, rfl, rfl, ?_⟩
    · rintro rfl
      exact he rfl
    · simp only [List.any_eq_true, mem_uniqueMethods, List.contains_iff_mem]

theorem classifyBatch_replicate {m : String} {n : Nat} {listed : List String} {cls : RequestClass}
    (h : classifyBatch (List.replicate (n + 1) m) listed = some cls) :
    cls.method = truncateLabel m := by
  obtain ⟨-, hlabel, -⟩ := classifyBatch_spec h
  rw [hlabel, uniqueMethods_replicate]
  rfl

/-- A body that classifies is an object that names a method, or an array of readable calls. -/
theorem classifyRequest_cases {body : Body} {listed : List String} {cls : RequestClass}
    (h : classifyRequest body listed = some cls) :
    (∃ members m, body.json = some (.obj members) ∧ (Json.obj members).method? = some m ∧
      cls = classifySingle m listed) ∨
    ∃ items, body.json = some (.arr items) ∧
      classifyBatch (items.filterMap Json.readMethod?) listed = some cls := by
  cases hj : body.json with
  | none =>
    simp only [classifyRequest, Body.fromSlice, hj] at h
    obtain ⟨first, -, h⟩ := Option.bind_eq_some_iff.mp h
    split_ifs at h <;> simp at h
  | some j =>
    cases ho : j.isObject with
    | true =>
      rw [classifyRequest_obj hj ho] at h
      obtain ⟨o, hread, h⟩ := Option.bind_eq_some_iff.mp h
      obtain ⟨m, rfl, rfl⟩ := Option.map_eq_some_iff.mp h
      cases j with
      | obj members => exact Or.inl ⟨members, m, rfl, readMethod_eq hread, rfl⟩
      | _ => simp [Json.isObject] at ho
    | false =>
      rw [classifyRequest_not_obj hj ho] at h
      obtain ⟨arr, harr, hbatch⟩ := Option.bind_eq_some_iff.mp h
      cases j with
      | arr items =>
        rw [filterMap_method harr] at hbatch
        exact Or.inr ⟨items, rfl, hbatch⟩
      | _ => simp [readVec] at harr

theorem classifyRequest_single {single : Body} {m : String} (hs : single.SingleFor m)
    {listed : List String} {cls : RequestClass} (h : classifyRequest single listed = some cls) :
    cls.method = m := by
  obtain ⟨members, hj, hm⟩ := hs
  obtain ⟨members', m', hj', hm', rfl⟩ | ⟨items, hj', -⟩ := classifyRequest_cases h
  · obtain rfl : members = members' := Json.obj.inj (Option.some.inj (hj.symm.trans hj'))
    exact Option.some.inj (hm'.symm.trans hm)
  · cases hj.symm.trans hj'

theorem Body.NamesOnly.array {body : Body} {items : List Json} {m : String}
    (hn : body.NamesOnly m) (hj : body.json = some (.arr items)) :
    items.filterMap Json.readMethod? = List.replicate items.length m := by
  obtain ⟨j, hj', hall⟩ := hn
  obtain rfl : Json.arr items = j := Option.some.inj (hj.symm.trans hj')
  simp only [Json.calls] at hall
  clear hj hj'
  induction items with
  | nil => rfl
  | cons call items ih =>
    rw [List.filterMap_cons_some (Json.readMethod?_of_method? (hall call List.mem_cons_self))]
    simp only [List.length_cons, List.replicate_succ]
    rw [ih (fun c hc => hall c (List.mem_cons_of_mem _ hc))]

theorem classifyRequest_batch {body : Body} {m : String} {items : List Json} {listed : List String}
    {cls : RequestClass} (hn : body.NamesOnly m) (hj : body.json = some (.arr items))
    (h : classifyBatch (items.filterMap Json.readMethod?) listed = some cls) :
    cls.method = truncateLabel m := by
  rw [hn.array hj] at h
  cases hlen : items.length with
  | zero =>
    rw [hlen] at h
    exact absurd rfl (classifyBatch_spec h).1
  | succ n =>
    rw [hlen] at h
    exact classifyBatch_replicate h

def Body.call (m : String) : Body :=
  .object [] [(⟨"method", false⟩, .str ⟨m, false⟩)]

theorem Body.call_single (m : String) : (Body.call m).SingleFor m := ⟨_, rfl, rfl⟩

theorem classifyRequest_call (m : String) (listed : List String) :
    classifyRequest (.call m) listed = some (classifySingle m listed) := by
  rw [classifyRequest_obj (rfl : (Body.call m).json = _) rfl]
  rfl

theorem Body.nonPositional_obj {body : Body} {members : List (JsonString × Json)}
    (hj : body.json = some (.obj members)) : body.NonPositional := by
  intro j hj' call hc
  obtain rfl : Json.obj members = j := Option.some.inj (hj.symm.trans hj')
  obtain rfl : call = .obj members := by simpa [Json.calls] using hc
  rfl

theorem classifySingle_exact_iff {body : Body} {members : List (JsonString × Json)} {m : String}
    {listed : List String} (hj : body.json = some (.obj members))
    (hm : (Json.obj members).method? = some m) :
    (classifySingle m listed).Exact body listed ↔
      ∀ m, body.NamesOnly m → m.utf8ByteSize ≤ maxMethodLabelLen := by
  constructor
  · intro hexact m' hn
    obtain ⟨j, hj', hall⟩ := hn
    obtain rfl : Json.obj members = j := Option.some.inj (hj.symm.trans hj')
    have he : some m = some m' := hm.symm.trans (hall _ (by simp [Json.calls]))
    rw [← Option.some.inj he]
    exact hexact.label_le
  · intro hshort
    have hmethods : (Json.obj members).methods = [m] := by simp [Json.methods, Json.calls, hm]
    refine ⟨hshort m ⟨_, hj, by simpa [Json.calls] using hm⟩, ⟨_, hj, ?_⟩, ?_, ?_, ?_⟩
    · rw [hmethods]
      rfl
    · simp [hj, hmethods, classifySingle]
    · simp [hj, classifySingle]
    · intro hb
      cases hb

theorem classifyBatch_exact_iff {body : Body} {items : List Json} {listed : List String}
    {cls : RequestClass} (hj : body.json = some (.arr items))
    (hbatch : classifyBatch (items.filterMap Json.readMethod?) listed = some cls) :
    cls.Exact body listed ↔
      body.NonPositional ∧ ∀ m, body.NamesOnly m → m.utf8ByteSize ≤ maxMethodLabelLen := by
  obtain ⟨-, hlabel, hcalls, hb, hfull⟩ := classifyBatch_spec hbatch
  constructor
  · intro hexact
    refine ⟨?_, ?_⟩
    · obtain ⟨j, hj', hcount⟩ := hexact.calls
      obtain rfl : Json.arr items = j := Option.some.inj (hj.symm.trans hj')
      have hlen := length_filterMap_readMethod items
      have hmethods : (Json.arr items).methods = items.filterMap Json.method? := rfl
      have hnone : items.countP Json.isPositional = 0 := by
        rw [hmethods] at hcount
        omega
      intro j hj' call hc
      obtain rfl : Json.arr items = j := Option.some.inj (hj.symm.trans hj')
      exact Bool.eq_false_iff.mpr (List.countP_eq_zero.mp hnone call hc)
    · intro m hn
      have hcut := classifyRequest_batch hn hj hbatch
      have hsame :=
        hexact.same_label hb m hn _ (Body.call_single m) _ (classifyRequest_call m listed)
      exact truncateLabel_eq_self.mp (hcut.symm.trans hsame)
  · rintro ⟨hnon, hshort⟩
    have hread : items.filterMap Json.readMethod? = items.filterMap Json.method? :=
      filterMap_readMethod (hnon _ hj)
    refine ⟨?_, ⟨_, hj, ?_⟩, ?_, ?_, ?_⟩
    · rw [hlabel]
      exact truncateLabel_le _
    · rw [hcalls, hread]
      rfl
    · rw [hfull, hread]
      simp [hj, Json.methods, Json.calls]
    · simp [hj, hb]
    · intro _ m hn single hs cls' hcls'
      rw [classifyRequest_single hs hcls', classifyRequest_batch hn hj hbatch]
      exact truncateLabel_eq_self.mpr (hshort m hn)

/-- The class is exact unless the derived reader takes an array for a call, which the body
does not hold, or the calls all name one method that is longer than the ceiling: such a name
is the label of a single request uncut, and of a batch cut. -/
theorem classifyRequest_exact_iff {body : Body} {listed : List String} {cls : RequestClass}
    (h : classifyRequest body listed = some cls) :
    cls.Exact body listed ↔
      body.NonPositional ∧ ∀ m, body.NamesOnly m → m.utf8ByteSize ≤ maxMethodLabelLen := by
  obtain ⟨members, m, hj, hm, rfl⟩ | ⟨items, hj, hbatch⟩ := classifyRequest_cases h
  · rw [classifySingle_exact_iff hj hm]
    exact (and_iff_right (Body.nonPositional_obj hj)).symm
  · exact classifyBatch_exact_iff hj hbatch

def callOf (m : String) : Json := .obj [(⟨"method", false⟩, .str ⟨m, false⟩)]

/-- Eight calls of seven methods. The label shows the first five methods. -/
def mixedBatch : Body :=
  .array [] [callOf "getSlot", callOf "getHealth", callOf "getSlot", callOf "getVersion",
    callOf "getEpochInfo", callOf "getBlock", callOf "getBalance", callOf "getTransaction"]

def mixedClass : RequestClass where
  method := "getSlot,getHealth,getVersion,getEpochInfo,getBlock+2"
  calls := 8
  batch := true
  fullHistory := true
  transaction := .none
  historical := .batch 1

theorem classifyRequest_exact_mixed :
    classifyRequest mixedBatch ["getTransaction"] = some mixedClass ∧
      mixedClass.Exact mixedBatch ["getTransaction"] := by
  have hclass : classifyRequest mixedBatch ["getTransaction"] = some mixedClass := by
    decide +kernel
  refine ⟨hclass, (classifyRequest_exact_iff hclass).mpr ⟨?_, ?_⟩⟩
  · intro j hj
    obtain rfl := Option.some.inj hj
    decide
  · intro m ⟨j, hj, hall⟩
    obtain rfl := Option.some.inj hj
    have hslot : some "getSlot" = some m := hall (callOf "getSlot") (by simp [Json.calls])
    rw [← Option.some.inj hslot]
    decide

/-- `[["getSlot"]]` holds no call, and one is counted. -/
example : (classifyRequest (.array [] [.arr [.str ⟨"getSlot", false⟩]]) []).map (·.calls) = some 1 ∧
    (Json.arr [.arr [.str ⟨"getSlot", false⟩]]).methods = [] := by decide +kernel

/-- A method name one byte over the ceiling. -/
def longMethod : String := String.ofList (List.replicate 129 'a')

theorem longMethod_size : longMethod.utf8ByteSize = 129 := by
  have hsize : ∀ n, (String.ofList (List.replicate n 'a')).utf8ByteSize = n := by
    intro n
    induction n with
    | zero => rfl
    | succ n ih =>
      rw [List.replicate_succ, utf8ByteSize_ofList_cons, ih]
      exact Nat.add_comm 1 n
  exact hsize 129

theorem longMethod_uncut :
    classifyRequest (.call longMethod) [] = some (classifySingle longMethod []) ∧
      ¬ (classifySingle longMethod []).Exact (.call longMethod) [] := by
  refine ⟨classifyRequest_call _ _, ?_⟩
  intro hexact
  have hle : longMethod.utf8ByteSize ≤ 128 := hexact.label_le
  have hsize := longMethod_size
  omega

end RpcPlane
