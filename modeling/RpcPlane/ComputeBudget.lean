import RpcPlane.Transaction

/-! What the instructions of a transaction say about its compute budget, and the loop that
collects it. A call is a program key and the instruction's data. -/

namespace RpcPlane

/-- The data of the calls to the ComputeBudget program. -/
def budgetData (calls : List (List UInt8 × List UInt8)) : List (List UInt8) :=
  (calls.filter (·.1 = computeBudgetId)).map Prod.snd

def tagged (tag : UInt8) (datas : List (List UInt8)) : List (List UInt8) :=
  datas.filter (·.head? == some tag)

/-- The little-endian value after the tag. -/
def tagValue (width : Nat) (data : List UInt8) : Nat := leValue ((data.drop 1).take width)

/-- With `field` read so far, the tag comes at most once, and its value is there. -/
structure Once (tag : UInt8) (width : Nat) (field : Option Nat) (datas : List (List UInt8)) :
    Prop where
  once : (tagged tag datas).length + field.toList.length ≤ 1
  long : ∀ d ∈ tagged tag datas, width + 1 ≤ d.length

def onceValue (tag : UInt8) (width : Nat) (field : Option Nat) (datas : List (List UInt8)) :
    Option Nat :=
  ((tagged tag datas).head?.map (tagValue width)).or field

section once

variable {tag : UInt8} {width : Nat} {field : Option Nat} {d : List UInt8}

theorem tagged_cons_self (h : d.head? = some tag) (datas : List (List UInt8)) :
    tagged tag (d :: datas) = d :: tagged tag datas :=
  List.filter_cons_of_pos (by simp [h])

theorem tagged_cons_other (h : d.head? ≠ some tag) (datas : List (List UInt8)) :
    tagged tag (d :: datas) = tagged tag datas :=
  List.filter_cons_of_neg (by simpa using h)

variable {datas : List (List UInt8)}

theorem once_cons_self (h : d.head? = some tag) (hlong : width + 1 ≤ d.length) (v : Nat) :
    Once tag width none (d :: datas) ↔ Once tag width (some v) datas := by
  have htagged := tagged_cons_self h datas
  constructor
  · rintro ⟨honce, hall⟩
    rw [htagged] at honce hall
    refine ⟨?_, fun e he => hall e (List.mem_cons_of_mem _ he)⟩
    simpa using honce
  · rintro ⟨honce, hall⟩
    refine ⟨?_, ?_⟩
    · rw [htagged]
      simpa using honce
    · rw [htagged]
      intro e he
      rcases List.mem_cons.mp he with rfl | he
      · exact hlong
      · exact hall e he

theorem not_once_cons_self (h : d.head? = some tag)
    (hbad : ¬ (width + 1 ≤ d.length ∧ field = none)) : ¬ Once tag width field (d :: datas) := by
  rintro ⟨honce, hall⟩
  rw [tagged_cons_self h] at honce hall
  refine hbad ⟨hall d List.mem_cons_self, ?_⟩
  cases field with
  | none => rfl
  | some v => simp at honce

theorem once_cons_other (h : d.head? ≠ some tag) :
    Once tag width field (d :: datas) ↔ Once tag width field datas := by
  have htagged := tagged_cons_other h datas
  exact ⟨fun ⟨honce, hall⟩ => ⟨htagged ▸ honce, htagged ▸ hall⟩,
    fun ⟨honce, hall⟩ => ⟨htagged.symm ▸ honce, htagged.symm ▸ hall⟩⟩

theorem onceValue_cons_self (h : d.head? = some tag)
    (honce : Once tag width (some (tagValue width d)) datas) :
    onceValue tag width (some (tagValue width d)) datas = onceValue tag width none (d :: datas) := by
  have hnil : tagged tag datas = [] := by
    have hlen := honce.once
    exact List.length_eq_zero_iff.mp (by simpa using hlen)
  simp [onceValue, tagged_cons_self h, hnil]

theorem onceValue_cons_other (h : d.head? ≠ some tag) :
    onceValue tag width field (d :: datas) = onceValue tag width field datas := by
  rw [onceValue, onceValue, tagged_cons_other h]

theorem readOnce_ok (hlong : width + 1 ≤ d.length) :
    readOnce none d width = .ok (some (tagValue width d)) := by
  have hlen : ((d.drop 1).take (width + 1 - 1)).length = width := by
    rw [List.length_take, List.length_drop]
    omega
  have hslice : slice d 1 (width + 1) = .ok ((d.drop 1).take (width + 1 - 1)) :=
    if_pos ⟨by omega, hlong⟩
  have harray : toArray width ((d.drop 1).take (width + 1 - 1)) =
      .ok ((d.drop 1).take (width + 1 - 1)) := if_pos hlen
  rw [readOnce, if_neg (by simp; omega), ok_bind hslice, ok_bind harray]
  rfl

theorem readOnce_error (hbad : ¬ (width + 1 ≤ d.length ∧ field = none)) :
    readOnce field d width = .error (.err .invalidBudget) := by
  refine if_pos ?_
  by_contra hgood
  rw [not_or] at hgood
  exact hbad ⟨by omega, by simpa using hgood.2⟩

/-- Past `d` a field that was `field` is `field'`: what is required of it and what it ends
with are the same. -/
def Once.Past (tag : UInt8) (width : Nat) (field : Option Nat) (d : List UInt8)
    (field' : Option Nat) : Prop :=
  ∀ datas : List (List UInt8),
    (Once tag width field (d :: datas) ↔ Once tag width field' datas) ∧
    (Once tag width field' datas →
      onceValue tag width field' datas = onceValue tag width field (d :: datas))

theorem Once.past_other (h : d.head? ≠ some tag) : Once.Past tag width field d field :=
  fun _ => ⟨once_cons_other h, fun _ => (onceValue_cons_other h).symm⟩

/-- Reading a tagged value: it is refused, and so is every list that begins with it, or it
is the value from there on. -/
theorem readOnce_step (h : d.head? = some tag) (width : Nat) (field : Option Nat) :
    (readOnce field d width = .error (.err .invalidBudget) ∧
      ∀ datas, ¬ Once tag width field (d :: datas)) ∨
    ∃ v, readOnce field d width = .ok (some v) ∧ Once.Past tag width field d (some v) := by
  by_cases hok : width + 1 ≤ d.length ∧ field = none
  · obtain ⟨hlong, rfl⟩ := hok
    exact Or.inr ⟨tagValue width d, readOnce_ok hlong,
      fun datas => ⟨once_cons_self h hlong _, onceValue_cons_self h⟩⟩
  · exact Or.inl ⟨readOnce_error hok, fun datas => not_once_cons_self h hok⟩

end once

/-- What the loop still requires of the ComputeBudget data ahead of it. -/
structure BudgetFrom (b : Budget) (datas : List (List UInt8)) : Prop where
  nonempty : ∀ d ∈ datas, d ≠ []
  limit : Once 2 4 b.explicitLimit datas
  price : Once 3 8 b.price datas

def Budget.after (b : Budget) (calls : List (List UInt8 × List UInt8)) : Budget where
  explicitLimit := onceValue 2 4 b.explicitLimit (budgetData calls)
  price := onceValue 3 8 b.price (budgetData calls)
  defaultLimit := saturate 64 (b.defaultLimit + (calls.map (instructionUnits ·.1)).sum)

theorem charge_after (b : Budget) (key data : List UInt8) (rest : List (List UInt8 × List UInt8)) :
    saturate 64 ((b.charge key).defaultLimit + (rest.map (instructionUnits ·.1)).sum) =
      saturate 64 (b.defaultLimit + (((key, data) :: rest).map (instructionUnits ·.1)).sum) := by
  simp only [Budget.charge, saturate, List.map_cons, List.sum_cons]
  omega

section instruction

variable {key : List UInt8}

theorem budgetData_cons_self (hkey : key = computeBudgetId) (data : List UInt8)
    (rest : List (List UInt8 × List UInt8)) :
    budgetData ((key, data) :: rest) = data :: budgetData rest := by
  rw [budgetData, List.filter_cons_of_pos (by simpa using hkey)]
  rfl

theorem budgetData_cons_other (hkey : key ≠ computeBudgetId) (data : List UInt8)
    (rest : List (List UInt8 × List UInt8)) :
    budgetData ((key, data) :: rest) = budgetData rest := by
  rw [budgetData, List.filter_cons_of_neg (by simpa using hkey)]
  rfl

/-- Past one instruction the loop is at `b₁`: what is required of the calls and what they
come to are the same. -/
structure Budget.Past (b : Budget) (key data : List UInt8) (b₁ : Budget) : Prop where
  limit_le : b₁.defaultLimit ≤ 2 ^ 64 - 1
  required : ∀ rest,
    BudgetFrom b (budgetData ((key, data) :: rest)) ↔ BudgetFrom b₁ (budgetData rest)
  after : ∀ rest, BudgetFrom b₁ (budgetData rest) → b₁.after rest = b.after ((key, data) :: rest)

theorem Budget.past_other (b : Budget) (hkey : key ≠ computeBudgetId)
    (data : List UInt8) : b.Past key data (b.charge key) := by
  have hdata := budgetData_cons_other hkey data
  refine ⟨Nat.min_le_right _ _, fun rest => ?_, fun rest _ => ?_⟩
  · rw [hdata]
    exact ⟨fun h => ⟨h.nonempty, h.limit, h.price⟩, fun h => ⟨h.nonempty, h.limit, h.price⟩⟩
  · simp only [Budget.after, hdata, Budget.mk.injEq]
    exact ⟨rfl, rfl, charge_after b key data rest⟩

/-- An instruction of the ComputeBudget program, from what it is to each of the two fields. -/
theorem Budget.past_fields (b : Budget) (hkey : key = computeBudgetId) {data : List UInt8}
    {limit price : Option Nat} (hne : data ≠ [])
    (hlimit : Once.Past 2 4 b.explicitLimit data limit)
    (hprice : Once.Past 3 8 b.price data price) :
    b.Past key data { b.charge key with explicitLimit := limit, price := price } := by
  have hdata := budgetData_cons_self hkey data
  refine ⟨Nat.min_le_right _ _, fun rest => ?_, fun rest hrest => ?_⟩
  · rw [hdata]
    constructor
    · intro h
      exact ⟨fun d hd => h.nonempty d (List.mem_cons_of_mem _ hd), (hlimit _).1.mp h.limit,
        (hprice _).1.mp h.price⟩
    · intro h
      exact ⟨List.forall_mem_cons.mpr ⟨hne, h.nonempty⟩, (hlimit _).1.mpr h.limit,
        (hprice _).1.mpr h.price⟩
  · simp only [Budget.after, hdata, Budget.mk.injEq]
    exact ⟨(hlimit _).2 hrest.limit, (hprice _).2 hrest.price, charge_after b key data rest⟩

theorem Budget.instruction_tag (b : Budget) (hkey : key = computeBudgetId) {tag : UInt8}
    {data : List UInt8} (hhead : data.head? = some tag) : b.instruction key data =
      if tag = 2 then do
        let limit ← readOnce b.explicitLimit data 4
        pure { b.charge key with explicitLimit := limit }
      else if tag = 3 then do
        let price ← readOnce b.price data 8
        pure { b.charge key with price := price }
      else .ok (b.charge key) := by
  unfold Budget.instruction
  rw [if_neg (not_not_intro hkey), hhead]
  rfl

/-- One instruction: it is refused, and so is every list that begins with it, or the loop
is past it. -/
theorem Budget.instruction_step (b : Budget) (key data : List UInt8) :
    (b.instruction key data = .error (.err .invalidBudget) ∧
      ∀ rest, ¬ BudgetFrom b (budgetData ((key, data) :: rest))) ∨
    ∃ b₁, b.instruction key data = .ok b₁ ∧ b.Past key data b₁ := by
  by_cases hkey : key = computeBudgetId
  swap
  · exact Or.inr ⟨_, if_pos hkey, b.past_other hkey data⟩
  have hdata := budgetData_cons_self hkey data
  simp only [hdata]
  cases hhead : data.head? with
  | none =>
    refine Or.inl ⟨?_, fun rest h => ?_⟩
    · unfold Budget.instruction
      rw [if_neg (not_not_intro hkey), hhead]
    · exact h.nonempty data List.mem_cons_self (List.head?_eq_none_iff.mp hhead)
  | some tag =>
    have hstart := b.instruction_tag hkey hhead
    have hne : data ≠ [] := by
      rintro rfl
      simp at hhead
    have hother : ∀ {tag'}, tag ≠ tag' → data.head? ≠ some tag' := by
      intro tag' hne'
      simpa [hhead] using hne'
    by_cases h2 : tag = 2
    · subst h2
      have h3 := hother (by decide : (2 : UInt8) ≠ 3)
      rw [if_pos rfl] at hstart
      rcases readOnce_step hhead 4 b.explicitLimit with ⟨hread, hbad⟩ | ⟨v, hread, hpast⟩
      · rw [hread] at hstart
        exact Or.inl ⟨hstart, fun rest h => hbad _ h.limit⟩
      · rw [hread] at hstart
        exact Or.inr ⟨_, hstart, b.past_fields hkey hne hpast (Once.past_other h3)⟩
    by_cases h3 : tag = 3
    · subst h3
      rw [if_neg h2, if_pos rfl] at hstart
      rcases readOnce_step hhead 8 b.price with ⟨hread, hbad⟩ | ⟨v, hread, hpast⟩
      · rw [hread] at hstart
        exact Or.inl ⟨hstart, fun rest h => hbad _ h.price⟩
      · rw [hread] at hstart
        exact Or.inr ⟨_, hstart, b.past_fields hkey hne (Once.past_other (hother h2)) hpast⟩
    · rw [if_neg h2, if_neg h3] at hstart
      exact Or.inr ⟨_, hstart, b.past_fields hkey hne (Once.past_other (hother h2))
        (Once.past_other (hother h3))⟩

end instruction

theorem budgetFrom_nil (b : Budget) : BudgetFrom b [] := by
  refine ⟨by simp, ⟨?_, by simp [tagged]⟩, ⟨?_, by simp [tagged]⟩⟩
  · cases b.explicitLimit <;> simp [tagged]
  · cases b.price <;> simp [tagged]

theorem Budget.after_nil {b : Budget} (hb : b.defaultLimit ≤ 2 ^ 64 - 1) : b.after [] = b := by
  cases b
  simp only [Budget.after, saturate, budgetData, onceValue, tagged, List.filter_nil, List.map_nil,
    List.sum_nil, List.head?_nil, Option.map_none, Option.none_or, Nat.add_zero,
    Budget.mk.injEq, true_and] at *
  omega

theorem foldlM_budget (calls : List (List UInt8 × List UInt8)) {b : Budget}
    (hb : b.defaultLimit ≤ 2 ^ 64 - 1) :
    (BudgetFrom b (budgetData calls) →
      calls.foldlM (fun b call => b.instruction call.1 call.2) b = .ok (b.after calls)) ∧
    (¬ BudgetFrom b (budgetData calls) →
      calls.foldlM (fun b call => b.instruction call.1 call.2) b =
        .error (.err .invalidBudget)) := by
  induction calls generalizing b with
  | nil =>
    refine ⟨fun _ => ?_, fun h => absurd (budgetFrom_nil b) h⟩
    rw [Budget.after_nil hb]
    rfl
  | cons call rest ih =>
    rw [List.foldlM_cons]
    rcases b.instruction_step call.1 call.2 with ⟨hstep, hbad⟩ | ⟨b₁, hstep, hpast⟩
    · rw [hstep]
      exact ⟨fun h => absurd h (hbad rest), fun _ => rfl⟩
    · obtain ⟨hok, herror⟩ := ih hpast.limit_le
      have hiff := hpast.required rest
      rw [hstep]
      refine ⟨fun h => ?_, fun h => herror (fun hrest => h (hiff.mpr hrest))⟩
      have hrest := hiff.mp h
      exact (hok hrest).trans (congrArg Except.ok (hpast.after rest hrest))

/-- The condition on the ComputeBudget data of a whole transaction. -/
structure BudgetOk (datas : List (List UInt8)) : Prop where
  nonempty : ∀ d ∈ datas, d ≠ []
  limit_once : (tagged 2 datas).length ≤ 1
  limit_long : ∀ d ∈ tagged 2 datas, 5 ≤ d.length
  price_once : (tagged 3 datas).length ≤ 1
  price_long : ∀ d ∈ tagged 3 datas, 9 ≤ d.length

theorem budgetFrom_start {datas : List (List UInt8)} : BudgetFrom {} datas ↔ BudgetOk datas :=
  ⟨fun h => ⟨h.nonempty, h.limit.once, h.limit.long, h.price.once, h.price.long⟩,
    fun h => ⟨h.nonempty, ⟨h.limit_once, h.limit_long⟩, ⟨h.price_once, h.price_long⟩⟩⟩

end RpcPlane
