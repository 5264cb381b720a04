import RpcPlane.ByteReader

/-! A reader against another one that stops with a bad error where an operation goes wrong: the
two read alike, the bad error never comes, and what is read meets a condition. -/

namespace RpcPlane

variable {τ ε α β κ : Type} {bad : ε} {p q : Reader τ ε α} {post : α → Prop}

/-- From every position `p` and `q` end alike, without the bad error, and a result meets `post`. -/
def Safe (bad : ε) (p q : Reader τ ε α) (post : α → Prop) : Prop :=
  ∀ c, p c = q c ∧ p c ≠ .error bad ∧ ∀ a c', p c = .ok (a, c') → post a

theorem Safe.mono {post' : α → Prop} (h : Safe bad p q post) (hpost : ∀ a, post a → post' a) :
    Safe bad p q post' :=
  fun c => ⟨(h c).1, (h c).2.1, fun a c' hread => hpost a ((h c).2.2 a c' hread)⟩

/-- A condition that is known of every result of the second reader. -/
theorem Safe.known {post' : α → Prop} (h : Safe bad p q post)
    (hknown : ∀ c a c', q c = .ok (a, c') → post' a) : Safe bad p q post' :=
  fun c => ⟨(h c).1, (h c).2.1, fun a c' hread => hknown c a c' ((h c).1 ▸ hread)⟩

theorem Safe.pure {a : α} (h : post a) :
    Safe bad (pure a : Reader τ ε α) (pure a) post := by
  refine fun c => ⟨rfl, ?_, ?_⟩
  · rintro ⟨⟩
  · intro b c' hread
    obtain ⟨rfl, -⟩ := Reader.pure_ok.mp hread
    exact h

theorem Safe.fail {e : ε} (h : e ≠ bad) :
    Safe bad (Reader.fail e : Reader τ ε α) (Reader.fail e) post := by
  refine fun c => ⟨rfl, ?_, ?_⟩
  · exact fun he => h (Except.error.inj he)
  · exact fun a c' hread => absurd (Reader.fail_ok.mp hread) id

theorem Safe.ofExcept {x y : Except ε α} (h : x = y) (hx : x ≠ .error bad)
    (hpost : ∀ a, x = .ok a → post a) :
    Safe bad (Reader.ofExcept x : Reader τ ε α) (Reader.ofExcept y) post := by
  subst h
  refine fun c => ⟨rfl, ?_, ?_⟩
  · cases x with
    | error e => exact fun he => hx (congrArg Except.error (Except.error.inj he))
    | ok a => rintro ⟨⟩
  · intro a c' hread
    exact hpost a (Reader.ofExcept_ok.mp hread).1

theorem Safe.value {x y : Except ε α} {a : α} (hx : x = .ok a) (hy : y = .ok a) :
    Safe bad (Reader.ofExcept x : Reader τ ε α) (Reader.ofExcept y) (· = a) := by
  refine Safe.ofExcept (hx.trans hy.symm) ?_ ?_
  · rw [hx]
    rintro ⟨⟩
  · intro b hb
    exact Except.ok.inj (hb.symm.trans hx)

theorem Safe.checked {x : Except ε β} {b : β} {f : β → Reader τ ε α} (hx : x = .ok b)
    (h : Safe bad (f b) q post) : Safe bad (Reader.ofExcept x >>= f) q post := by
  subst hx
  exact h

theorem Safe.takeOr {short : ε} (h : short ≠ bad) (len : Nat) :
    Safe bad (Reader.takeOr short len : Reader τ ε (List τ)) (Reader.takeOr short len)
      (fun w => w.length = len) := by
  refine fun c => ⟨rfl, ?_, fun w c' hread => (Reader.takeOr_ok hread).1⟩
  unfold Reader.takeOr
  split_ifs
  · exact fun he => h (Except.error.inj he)
  · rintro ⟨⟩
  · exact fun he => h (Except.error.inj he)

theorem Safe.bind {f g : α → Reader τ ε β} {post' : β → Prop} (h : Safe bad p q post)
    (hf : ∀ a, post a → Safe bad (f a) (g a) post') : Safe bad (p >>= f) (q >>= g) post' := by
  intro c
  obtain ⟨heq, hbad, hpost⟩ := h c
  cases hread : p c with
  | error e =>
    rw [hread] at heq hbad
    rw [Reader.bind_error hread f, Reader.bind_error heq.symm g]
    refine ⟨rfl, ?_, ?_⟩
    · exact fun he => hbad (congrArg Except.error (Except.error.inj he))
    · rintro a c' ⟨⟩
  | ok ac =>
    obtain ⟨a, c₁⟩ := ac
    rw [hread] at heq
    rw [Reader.bind_of_ok hread f, Reader.bind_of_ok heq.symm g]
    exact hf a (hpost a c₁ hread) c₁

theorem Safe.ite {c : Prop} [Decidable c] {p' q' : Reader τ ε α} (hpos : c → Safe bad p q post)
    (hneg : ¬ c → Safe bad p' q' post) :
    Safe bad (if c then p else p') (if c then q else q') post := by
  by_cases hc : c
  · rw [if_pos hc, if_pos hc]
    exact hpos hc
  · rw [if_neg hc, if_neg hc]
    exact hneg hc

/-- A loop with an invariant that counts the turns. -/
theorem Safe.each {I : Nat → β → Prop} {body body' : κ → β → Reader τ ε β} {keys : List κ} {n : Nat}
    (hbody : ∀ i, i < n + keys.length → ∀ k b, I i b → Safe bad (body k b) (body' k b) (I (i + 1)))
    {b : β} (hb : I n b) :
    Safe bad (Reader.each keys body b) (Reader.each keys body' b) (I (n + keys.length)) := by
  induction keys generalizing n b with
  | nil => exact Safe.pure hb
  | cons k rest ih =>
    have hlen : n + (k :: rest).length = n + 1 + rest.length := by
      rw [List.length_cons]
      omega
    rw [hlen] at hbody ⊢
    have hfirst := hbody n (by omega) k b hb
    exact hfirst.bind fun b₁ hb₁ => ih hbody hb₁

theorem Safe.eq_of_map {γ : Type} (h : Safe bad p q post) (c : Cursor τ) (g : α × Cursor τ → γ) :
    (p c).map g = (q c).map g ∧ (q c).map g ≠ .error bad := by
  obtain ⟨heq, hbad, -⟩ := h c
  rw [← heq]
  refine ⟨rfl, ?_⟩
  cases hread : p c with
  | error e =>
    rw [hread] at hbad
    exact fun he => hbad (congrArg Except.error (Except.error.inj he))
  | ok ac => rintro ⟨⟩

end RpcPlane
