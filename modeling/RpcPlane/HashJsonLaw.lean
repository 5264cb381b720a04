import RpcPlane.HashJson

/-! When the bytes of `hash_json` determine the value. Every kind writes its length or has a
fixed one except a number, so a number can run on into the length of the key after it. -/

namespace RpcPlane

/-- The length of the key that follows a member. -/
def nextKey (ms : List (String × Value)) (next : Option Nat) : Option Nat :=
  match ms with
  | [] => next
  | m :: _ => some m.1.utf8ByteSize

def nextItem (vs : List Value) (next : Option Nat) : Option Nat := if vs.isEmpty then next else none

mutual

/-- The numbers that are written right before a key, each with the length of that key; `next`
is the length of the key after the value. Members count in the order they are listed. -/
def Value.spots : Value → Option Nat → List (Number × Nat)
  | .number n, some len => [(n, len)]
  | .array vs, next => itemSpots vs next
  | .object ms, next => memberSpots ms next
  | _, _ => []

def itemSpots : List Value → Option Nat → List (Number × Nat)
  | [], _ => []
  | v :: vs, next => v.spots (nextItem vs next) ++ itemSpots vs next

def memberSpots : List (String × Value) → Option Nat → List (Number × Nat)
  | [], _ => []
  | (_, v) :: ms, next => v.spots (nextKey ms next) ++ memberSpots ms next

end

/-- Before a key of `len` bytes `n` runs on into `n'` before a key of `len'` bytes: the first
bytes after `n` extend its text to that of `n'`, and the next eight are the length `len'`. -/
def RunsOn (n : Number) (len : Nat) (n' : Number) (len' : Nat) : Prop :=
  ∃ u z, u ≠ [] ∧ n'.text = n.text ++ u ∧ writeUsize len ++ z = u ++ writeUsize len' ∧ 0 < len'

def Separated (C : Number → Nat → Prop) : Prop :=
  ∀ n len n' len', C n len → C n' len' → ¬ RunsOn n len n' len'

/-- What is written after a value: a key of the given length, or no byte of a number. -/
def Follows (next : Option Nat) (rest : List UInt8) : Prop :=
  match next with
  | none => ∀ b ∈ rest.head?, isNumberByte b = false
  | some len => 0 < len ∧ ∃ tail, rest = writeUsize len ++ tail

theorem follows_tag {b : UInt8} (hb : isNumberByte b = false) (rest : List UInt8) :
    Follows none (b :: rest) := by
  intro c hc
  obtain rfl : b = c := by simpa using hc
  exact hb

theorem hashJson_tag (v : Value) :
    ∃ b rest, hashJson v = b :: rest ∧ isNumberByte b = false := by
  cases v with
  | null => exact ⟨0, _, rfl, rfl⟩
  | bool b => exact ⟨1, _, rfl, rfl⟩
  | number n => exact ⟨2, _, rfl, rfl⟩
  | string s => exact ⟨3, _, rfl, rfl⟩
  | array vs => exact ⟨4, _, rfl, rfl⟩
  | object ms => exact ⟨5, _, rfl, rfl⟩

theorem follows_items (vs : List Value) {next : Option Nat} {rest : List UInt8}
    (h : Follows next rest) : Follows (nextItem vs next) (vs.flatMap hashJson ++ rest) := by
  cases vs with
  | nil => exact h
  | cons v vs =>
    obtain ⟨b, tail, hv, hb⟩ := hashJson_tag v
    rw [List.flatMap_cons, hv]
    exact follows_tag hb _

theorem follows_members {ms : List (String × Value)} {next : Option Nat} {rest : List UInt8}
    (hkeys : ∀ m ∈ ms, m.1 ≠ "") (h : Follows next rest) :
    Follows (nextKey ms next) (ms.flatMap writeMember ++ rest) := by
  cases ms with
  | nil => exact h
  | cons m ms =>
    have hne : m.1.utf8ByteSize ≠ 0 := by
      rw [Ne, String.utf8ByteSize_eq_zero_iff]
      exact hkeys m List.mem_cons_self
    refine ⟨by omega, utf8Bytes m.1 ++ (hashJson m.2 ++ (ms.flatMap writeMember ++ rest)), ?_⟩
    simp only [List.flatMap_cons, writeMember, List.append_assoc]

section Determined

variable {C : Number → Nat → Prop}

def SpotsIn (C : Number → Nat → Prop) (spots : List (Number × Nat)) : Prop := ∀ s ∈ spots, C s.1 s.2

/-- What may stand after a value, and the spots it is then in. -/
structure Fits (C : Number → Nat → Prop) (v : Value) (next : Option Nat) (rest : List UInt8) :
    Prop where
  valid : v.Valid
  follows : Follows next rest
  spots : SpotsIn C (v.canonical.spots next)

/-- The bytes of `v` with what follows them give `v` and what follows. -/
def Determined (C : Number → Nat → Prop) (v : Value) : Prop :=
  ∀ w next next' rest rest', next.isSome = next'.isSome → Fits C v next rest →
    Fits C w next' rest' → hashJson v ++ rest = hashJson w ++ rest' →
    v.canonical = w.canonical ∧ rest = rest'

theorem no_run (hsep : Separated C) {n n' : Number}
    {next next' : Option Nat} {u rest' : List UInt8} (hn : n'.text = n.text ++ u)
    (hnext : next.isSome = next'.isSome) (hrest : Follows next (u ++ rest'))
    (hrest' : Follows next' rest') (hspot : SpotsIn C ((Value.number n).spots next))
    (hspot' : SpotsIn C ((Value.number n').spots next')) : u = [] := by
  by_contra hne
  have hu : ∀ b ∈ u, isNumberByte b = true := by
    intro b hb
    apply n'.plain
    rw [hn]
    exact List.mem_append_right _ hb
  cases next with
  | none =>
    cases u with
    | nil => exact hne rfl
    | cons b u =>
      have hno : isNumberByte b = false := hrest b rfl
      rw [hu b List.mem_cons_self] at hno
      cases hno
  | some len =>
    cases next' with
    | none => cases hnext
    | some len' =>
      have hc : C n len := hspot (n, len) (by simp [Value.spots])
      have hc' : C n' len' := hspot' (n', len') (by simp [Value.spots])
      obtain ⟨-, tail, htail⟩ := hrest
      obtain ⟨hpos, tail', rfl⟩ := hrest'
      have hbytes : writeUsize len ++ tail.take u.length = u ++ writeUsize len' := by
        have hh := congrArg (List.take (8 + u.length)) htail
        simpa [List.take_append, writeUsize, List.take_of_length_le, Nat.add_comm] using hh.symm
      exact hsep n len n' len' hc hc' ⟨u, _, hne, hn, hbytes, hpos⟩

theorem determined_number (hsep : Separated C) (n : Number) : Determined C (.number n) := by
  intro w next next' rest rest' hnext hv hw h
  cases w with
  | number n' =>
    have htext : n.text ++ rest = n'.text ++ rest' := (List.cons.inj h).2
    have hspot := hv.spots
    have hspot' := hw.spots
    simp only [Value.canonical] at hspot hspot' ⊢
    rcases List.append_eq_append_iff.mp htext with ⟨u, hn, hrest⟩ | ⟨u, hn, hrest⟩
    · have hnil : u = [] := no_run hsep hn hnext (hrest ▸ hv.follows) hw.follows hspot hspot'
      subst hnil
      refine ⟨?_, by simpa using hrest⟩
      cases n
      cases n'
      simpa using hn.symm
    · have hnil : u = [] :=
        no_run hsep hn hnext.symm (hrest ▸ hw.follows) hv.follows hspot' hspot
      subst hnil
      refine ⟨?_, by simpa using hrest.symm⟩
      cases n
      cases n'
      simpa using hn
  | _ => cases h

theorem writeUsize_inj {m n : Nat} {r r' : List UInt8} (hm : m < 2 ^ 63) (hn : n < 2 ^ 63)
    (h : writeUsize m ++ r = writeUsize n ++ r') : m = n ∧ r = r' := by
  obtain ⟨hlen, hrest⟩ := List.append_inj h (by simp [writeUsize])
  exact ⟨leBytes_inj (lt_trans hm (by norm_num)) (lt_trans hn (by norm_num)) hlen, hrest⟩

theorem writeText_inj {s t : String} {r r' : List UInt8} (hs : s.utf8ByteSize < 2 ^ 63)
    (ht : t.utf8ByteSize < 2 ^ 63)
    (h : writeUsize s.utf8ByteSize ++ (utf8Bytes s ++ r) =
      writeUsize t.utf8ByteSize ++ (utf8Bytes t ++ r')) : s = t ∧ r = r' := by
  obtain ⟨hlen, hrest⟩ := writeUsize_inj hs ht h
  obtain ⟨hbytes, htail⟩ := List.append_inj hrest (by rw [utf8Bytes_length, utf8Bytes_length, hlen])
  exact ⟨utf8Bytes_inj hbytes, htail⟩

theorem nextItem_isSome {vs ws : List Value} (h : vs.length = ws.length) {next next' : Option Nat}
    (hnext : next.isSome = next'.isSome) : (nextItem vs next).isSome = (nextItem ws next').isSome := by
  cases vs <;> cases ws <;> simp_all [nextItem]

theorem nextKey_isSome {ms ns : List (String × Value)} (h : ms.length = ns.length)
    {next next' : Option Nat} (hnext : next.isSome = next'.isSome) :
    (nextKey ms next).isSome = (nextKey ns next').isSome := by
  cases ms <;> cases ns <;> simp_all [nextKey]

theorem determined_items {vs ws : List Value} (hdet : ∀ v ∈ vs, Determined C v)
    (hlen : vs.length = ws.length) {next next' : Option Nat} {rest rest' : List UInt8}
    (hnext : next.isSome = next'.isSome) (hv : ∀ v ∈ vs, v.Valid) (hw : ∀ w ∈ ws, w.Valid)
    (hrest : Follows next rest) (hrest' : Follows next' rest')
    (hspots : SpotsIn C (itemSpots (vs.map Value.canonical) next))
    (hspots' : SpotsIn C (itemSpots (ws.map Value.canonical) next'))
    (h : vs.flatMap hashJson ++ rest = ws.flatMap hashJson ++ rest') :
    vs.map Value.canonical = ws.map Value.canonical ∧ rest = rest' := by
  induction vs generalizing ws with
  | nil =>
    obtain rfl := List.length_eq_zero_iff.mp hlen.symm
    exact ⟨rfl, h⟩
  | cons v vs ih =>
    cases ws with
    | nil => cases hlen
    | cons w ws =>
      have hlen' : vs.length = ws.length := Nat.succ.inj hlen
      have hitem : nextItem (vs.map Value.canonical) next = nextItem vs next := by simp [nextItem]
      have hitem' : nextItem (ws.map Value.canonical) next' = nextItem ws next' := by simp [nextItem]
      simp only [List.map_cons, itemSpots, hitem, hitem'] at hspots hspots'
      rw [List.flatMap_cons, List.flatMap_cons, List.append_assoc, List.append_assoc] at h
      have hfit : Fits C v (nextItem vs next) (vs.flatMap hashJson ++ rest) :=
        ⟨hv v List.mem_cons_self, follows_items vs hrest,
          fun s hs => hspots s (List.mem_append_left _ hs)⟩
      have hfit' : Fits C w (nextItem ws next') (ws.flatMap hashJson ++ rest') :=
        ⟨hw w List.mem_cons_self, follows_items ws hrest',
          fun s hs => hspots' s (List.mem_append_left _ hs)⟩
      obtain ⟨hhead, htail⟩ := hdet v List.mem_cons_self w _ _ _ _
        (nextItem_isSome hlen' hnext) hfit hfit' h
      obtain ⟨hrestv, hrests⟩ := ih (fun x hx => hdet x (List.mem_cons_of_mem _ hx)) hlen'
        (fun x hx => hv x (List.mem_cons_of_mem _ hx)) (fun x hx => hw x (List.mem_cons_of_mem _ hx))
        (fun s hs => hspots s (List.mem_append_right _ hs))
        (fun s hs => hspots' s (List.mem_append_right _ hs)) htail
      exact ⟨by rw [List.map_cons, List.map_cons, hhead, hrestv], hrests⟩

/-- Members in the order of their keys, as the object writes them. -/
structure Written (ms : List (String × Value)) : Prop where
  sized : ∀ m ∈ ms, m.1.utf8ByteSize < 2 ^ 63 ∧ m.2.Valid
  strict : ms.Pairwise (fun x y => x.1 < y.1)

theorem Written.tail {m : String × Value} {ms : List (String × Value)} (h : Written (m :: ms)) :
    Written ms ∧ ∀ m' ∈ ms, m'.1 ≠ "" := by
  obtain ⟨hfirst, hrest⟩ := List.pairwise_cons.mp h.strict
  refine ⟨⟨fun m' hm' => h.sized m' (List.mem_cons_of_mem _ hm'), hrest⟩, ?_⟩
  intro m' hm' hempty
  have hlt := hfirst m' hm'
  rw [hempty] at hlt
  exact List.not_lt_nil _ (String.lt_iff_toList_lt.mp hlt)

theorem determined_members {ms ns : List (String × Value)} (hdet : ∀ m ∈ ms, Determined C m.2)
    (hlen : ms.length = ns.length) {next next' : Option Nat} {rest rest' : List UInt8}
    (hnext : next.isSome = next'.isSome) (hm : Written ms) (hn : Written ns)
    (hrest : Follows next rest) (hrest' : Follows next' rest')
    (hspots : SpotsIn C (memberSpots (ms.map (fun m => (m.1, m.2.canonical))) next))
    (hspots' : SpotsIn C (memberSpots (ns.map (fun m => (m.1, m.2.canonical))) next'))
    (h : ms.flatMap writeMember ++ rest = ns.flatMap writeMember ++ rest') :
    ms.map (fun m => (m.1, m.2.canonical)) = ns.map (fun m => (m.1, m.2.canonical)) ∧
      rest = rest' := by
  induction ms generalizing ns with
  | nil =>
    obtain rfl := List.length_eq_zero_iff.mp hlen.symm
    exact ⟨rfl, h⟩
  | cons m ms ih =>
    cases ns with
    | nil => cases hlen
    | cons n ns =>
      have hlen' : ms.length = ns.length := Nat.succ.inj hlen
      obtain ⟨hmt, hmkeys⟩ := hm.tail
      obtain ⟨hnt, hnkeys⟩ := hn.tail
      obtain ⟨hmsize, hmvalid⟩ := hm.sized m List.mem_cons_self
      obtain ⟨hnsize, hnvalid⟩ := hn.sized n List.mem_cons_self
      have hkey : nextKey (ms.map (fun m => (m.1, m.2.canonical))) next = nextKey ms next := by
        cases ms <;> rfl
      have hkey' : nextKey (ns.map (fun m => (m.1, m.2.canonical))) next' = nextKey ns next' := by
        cases ns <;> rfl
      simp only [List.map_cons, memberSpots, hkey, hkey'] at hspots hspots'
      simp only [List.flatMap_cons, writeMember, List.append_assoc] at h
      obtain ⟨hname, hbytes⟩ := writeText_inj hmsize hnsize h
      have hfit : Fits C m.2 (nextKey ms next) (ms.flatMap writeMember ++ rest) :=
        ⟨hmvalid, follows_members hmkeys hrest, fun s hs => hspots s (List.mem_append_left _ hs)⟩
      have hfit' : Fits C n.2 (nextKey ns next') (ns.flatMap writeMember ++ rest') :=
        ⟨hnvalid, follows_members hnkeys hrest', fun s hs => hspots' s (List.mem_append_left _ hs)⟩
      obtain ⟨hvalue, htail⟩ := hdet m List.mem_cons_self n.2 _ _ _ _
        (nextKey_isSome hlen' hnext) hfit hfit' hbytes
      obtain ⟨hmembers, hrests⟩ := ih (fun x hx => hdet x (List.mem_cons_of_mem _ hx)) hlen' hmt hnt
        (fun s hs => hspots s (List.mem_append_right _ hs))
        (fun s hs => hspots' s (List.mem_append_right _ hs)) htail
      exact ⟨by rw [List.map_cons, List.map_cons, hname, hvalue, hmembers], hrests⟩

theorem Value.Valid.written {ms : List (String × Value)} (h : (Value.object ms).Valid) :
    Written (sortKeys ms) := by
  obtain ⟨-, hkeys, hsized⟩ := h.members
  exact ⟨fun m hm => hsized m (mem_sortKeys.mp hm), sortKeys_strict hkeys⟩

/-- Values none of whose numbers runs on into another are read back from their bytes. -/
theorem determined (hsep : Separated C) (v : Value) : Determined C v := by
  induction v using Value.ind with
  | number n => exact determined_number hsep n
  | null =>
    intro w next next' rest rest' hnext hv hw h
    cases w with
    | null => exact ⟨rfl, (List.cons.inj h).2⟩
    | _ => cases h
  | bool b =>
    intro w next next' rest rest' hnext hv hw h
    cases w with
    | bool c =>
      cases b <;> cases c <;> first | exact ⟨rfl, (List.cons.inj (List.cons.inj h).2).2⟩ | cases h
    | _ => cases h
  | string s =>
    intro w next next' rest rest' hnext hv hw h
    cases w with
    | string t =>
      simp only [hashJson, List.cons_append, List.append_assoc, List.cons.injEq, true_and] at h
      obtain ⟨rfl, hrest⟩ := writeText_inj hv.valid hw.valid h
      exact ⟨rfl, hrest⟩
    | _ => cases h
  | array vs ih =>
    intro w next next' rest rest' hnext hv hw h
    cases w with
    | array ws =>
      obtain ⟨hvlen, hvs⟩ := hv.valid.items
      obtain ⟨hwlen, hws⟩ := hw.valid.items
      have hspots := hv.spots
      have hspots' := hw.spots
      rw [canonical_array] at hspots hspots' ⊢
      rw [canonical_array]
      simp only [hashJson_array, List.cons_append, List.append_assoc, List.cons.injEq, true_and] at h
      obtain ⟨hlen, hitems⟩ := writeUsize_inj hvlen hwlen h
      obtain ⟨hvalues, hrest⟩ := determined_items ih hlen hnext hvs hws hv.follows hw.follows
        hspots hspots' hitems
      exact ⟨by rw [hvalues], hrest⟩
    | _ => cases h
  | object ms ih =>
    intro w next next' rest rest' hnext hv hw h
    cases w with
    | object ns =>
      have hspots := hv.spots
      have hspots' := hw.spots
      rw [canonical_object] at hspots hspots' ⊢
      rw [canonical_object]
      simp only [hashJson_object, List.cons_append, List.append_assoc, List.cons.injEq,
        true_and] at h
      obtain ⟨hlen, hmembers⟩ := writeUsize_inj hv.valid.members.1 hw.valid.members.1 h
      obtain ⟨hvalues, hrest⟩ := determined_members (fun m hm => ih m (mem_sortKeys.mp hm))
        (by simpa using hlen) hnext hv.valid.written hw.valid.written hv.follows hw.follows
        hspots hspots' hmembers
      exact ⟨by rw [hvalues], hrest⟩
    | _ => cases h

end Determined

/-- A value all of whose numbers before keys are of the class. -/
def Value.OfClass (C : Number → Nat → Prop) (v : Value) : Prop :=
  v.Valid ∧ SpotsIn C (v.canonical.spots none)

theorem hashJson_eq_iff {C : Number → Nat → Prop} (hsep : Separated C) {a b : Value}
    (ha : a.OfClass C) (hb : b.OfClass C) :
    hashJson a = hashJson b ↔ a.Same b := by
  have hends : Follows none [] := fun b hb => nomatch hb
  rw [same_iff_canonical ha.1 hb.1]
  constructor
  · intro h
    have hbytes : hashJson a ++ [] = hashJson b ++ [] := by rw [h]
    exact (determined hsep a b none none [] [] rfl ⟨ha.1, hends, ha.2⟩ ⟨hb.1, hends, hb.2⟩
      hbytes).1
  · intro h
    rw [← hashJson_canonical a, h, hashJson_canonical b]

theorem number_byte_ge {b : UInt8} (h : isNumberByte b = true) : 43 ≤ b.toNat := by
  simp only [isNumberByte, Bool.or_eq_true, Bool.and_eq_true, decide_eq_true_eq, beq_iff_eq] at h
  rcases h with ((((⟨h, -⟩ | rfl) | rfl) | rfl) | rfl) | rfl
  · have hle : (48 : UInt8).toNat ≤ b.toNat := UInt8.le_iff_toNat_le.mp h
    exact le_trans (by decide) hle
  all_goals decide

/-- The first byte of a short length is the length, and is in no number. -/
theorem separated_short_keys : Separated (fun _ len => len < 43) := by
  intro n len n' len' hlen _ hruns
  obtain ⟨u, z, hne, hrun, hbytes, -⟩ := hruns
  cases u with
  | nil => exact hne rfl
  | cons b u =>
    have hb : isNumberByte b = true := by
      apply n'.plain
      rw [hrun]
      exact List.mem_append_right _ List.mem_cons_self
    have hfirst : UInt8.ofNat len = b := (List.cons.inj hbytes).1
    have hvalue : b.toNat = len := by
      rw [← hfirst, UInt8.toNat_ofNat']
      omega
    have hge := number_byte_ge hb
    omega

/-! Fingerprints. -/

mutual

/-- A document as a `Value`: a member that is repeated later is replaced, and `render` is the
text a number is printed as. -/
def Json.toValue (render : JsonNumber → Number) : Json → Value
  | .null => .null
  | .bool b => .bool b
  | .num n => .number (render n)
  | .str s => .string s.text
  | .arr items => .array (itemValues render items)
  | .obj members => .object (memberValues render members)

def itemValues (render : JsonNumber → Number) : List Json → List Value
  | [] => []
  | j :: items => j.toValue render :: itemValues render items

def memberValues (render : JsonNumber → Number) : List (JsonString × Json) → List (String × Value)
  | [] => []
  | (key, j) :: members =>
    if members.any (·.1.text == key.text) then memberValues render members
    else (key.text, j.toValue render) :: memberValues render members

end

/-- The hashers of an analyzer: both are fed the name of the method and the `params`. -/
def streamHash (render : JsonNumber → Number) (finish : List UInt8 → Fingerprint) (params : Json) :
    Fingerprint :=
  finish (hashJson (.string "getTransaction") ++ hashJson (params.toValue render))

theorem fingerprint_params {core : AnalyzerCore} {request : Json} {fp : Fingerprint}
    (h : core.fingerprint request = some fp) :
    ∃ params, request.valueGet "params" = some params ∧ fp = core.hash params := by
  unfold AnalyzerCore.fingerprint at h
  split_ifs at h
  obtain ⟨params, hparams, h⟩ := Option.bind_eq_some_iff.mp h
  obtain ⟨items, -, h⟩ := Option.bind_eq_some_iff.mp h
  obtain ⟨first, -, h⟩ := Option.bind_eq_some_iff.mp h
  obtain ⟨name, -, h⟩ := Option.bind_eq_some_iff.mp h
  exact ⟨params, hparams, (Option.some.inj h).symm⟩

/-- Where no number runs on into another, requests share a fingerprint only if their `params` are
the same or the hashers collide on two different streams. -/
theorem fingerprint_shared {C : Number → Nat → Prop} (hsep : Separated C)
    {render : JsonNumber → Number}
    {finish : List UInt8 → Fingerprint} {core : AnalyzerCore} (hcore : core.hash = streamHash render finish)
    {request request' : Json} {fp : Fingerprint} (h : core.fingerprint request = some fp)
    (h' : core.fingerprint request' = some fp) :
    ∃ params params', request.valueGet "params" = some params ∧
      request'.valueGet "params" = some params' ∧
      streamHash render finish params = streamHash render finish params' ∧
      ((params.toValue render).OfClass C → (params'.toValue render).OfClass C →
        (params.toValue render).Same (params'.toValue render) ∨
          hashJson (params.toValue render) ≠ hashJson (params'.toValue render)) := by
  obtain ⟨params, hparams, hfp⟩ := fingerprint_params h
  obtain ⟨params', hparams', hfp'⟩ := fingerprint_params h'
  rw [hcore] at hfp hfp'
  refine ⟨params, params', hparams, hparams', hfp.symm.trans hfp', ?_⟩
  intro ha hb
  by_cases hstream : hashJson (params.toValue render) = hashJson (params'.toValue render)
  · exact Or.inl ((hashJson_eq_iff hsep ha hb).mp hstream)
  · exact Or.inr hstream

end RpcPlane
