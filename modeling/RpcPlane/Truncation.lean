import RpcPlane.ByteReader

/-! Where a reader that succeeds stops. What it has consumed decides what it reads: the same
elements with anything after them are read alike, and on less of them it runs short. -/

namespace RpcPlane

variable {τ ε α β κ : Type} {short : ε} {p : Reader τ ε α} {f : α → Reader τ ε β}

/-- On less than the word, the reader runs short. -/
def Cuts (short : ε) (p : Reader τ ε α) (w : List τ) : Prop :=
  ∀ c : Cursor τ, c.rest <+: w → c.rest ≠ w → c.pos + w.length < 2 ^ 64 → p c = .error short

/-- From `c` to `c'` the reader has consumed `w`, and `w` alone decides its result. -/
structure Consumed (short : ε) (p : Reader τ ε α) (a : α) (c c' : Cursor τ) (w : List τ) : Prop where
  rest : c.rest = w ++ c'.rest
  pos : c'.pos = c.pos + w.length
  fits : c.pos < 2 ^ 64 → c'.pos < 2 ^ 64
  reads : Reads p w (.ok a)
  cuts : Cuts short p w

/-- Whenever the reader succeeds, it has consumed a word that decides its result. -/
def Definite (short : ε) (p : Reader τ ε α) : Prop :=
  ∀ c a c', p c = .ok (a, c') → ∃ w, Consumed short p a c c' w

theorem Cuts.nil (p : Reader τ ε α) : Cuts short p [] := by
  intro c hpre hne
  exact absurd (List.prefix_nil.mp hpre) hne

theorem Cuts.takeOr {w : List τ} {len : Nat} (h : w.length = len) :
    Cuts short (Reader.takeOr short len : Reader τ ε (List τ)) w := by
  intro c hpre hne hfit
  have hless : c.rest.length < w.length := by
    have hle := hpre.length_le
    by_contra hge
    exact hne (hpre.eq_of_length (by omega))
  have hin := c.inside
  rw [c.rest_length, Cursor.remaining] at hless
  have hover : ¬ c.pos + len ≤ c.bytes.length := by omega
  rw [Reader.takeOr, if_neg (by omega), dif_neg hover]

/-- A reader that has its word goes on behind it. -/
theorem Reads.advance {w r : List τ} {a : α} (hp : Reads p w (.ok a)) {c : Cursor τ}
    (hrest : c.rest = w ++ r) (hfit : c.pos + w.length < 2 ^ 64) :
    ∃ c', p c = .ok (a, c') ∧ c'.rest = r ∧ c'.pos = c.pos + w.length := by
  refine ⟨c.advance w.length, hp c r hrest hfit, ?_, ?_⟩
  · rw [c.advance_rest, hrest, List.drop_left]
  · have hlen := congrArg List.length hrest
    rw [c.rest_length, List.length_append, Cursor.remaining] at hlen
    have hin := c.inside
    simp only [Cursor.advance]
    omega

theorem Cuts.bind {w w' : List τ} {a : α} (hp : Reads p w (.ok a)) (hc : Cuts short p w)
    (hf : Cuts short (f a) w') : Cuts short (p >>= f) (w ++ w') := by
  intro c hpre hne hfit
  rw [List.length_append] at hfit
  by_cases hlen : c.rest.length < w.length
  · have hfirst : c.rest <+: w := List.prefix_of_prefix_length_le hpre (List.prefix_append w w') hlen.le
    have hless : c.rest ≠ w := fun he => absurd (congrArg List.length he) (by omega)
    exact Reader.bind_error (hc c hfirst hless (by omega)) f
  · obtain ⟨r, hr⟩ := List.prefix_of_prefix_length_le (List.prefix_append w w') hpre (not_lt.mp hlen)
    obtain ⟨c', hread, hrest, hpos⟩ := hp.advance hr.symm (by omega)
    rw [← hr] at hpre hne
    have hsecond : r <+: w' := (List.prefix_append_right_inj w).mp hpre
    have hless : r ≠ w' := fun he => hne (he ▸ rfl)
    rw [Reader.bind_of_ok hread]
    exact hf c' (hrest ▸ hsecond) (hrest ▸ hless) (by omega)

theorem Definite.pure (a : α) : Definite short (pure a : Reader τ ε α) := by
  intro c b c' h
  obtain ⟨rfl, rfl⟩ := Reader.pure_ok.mp h
  exact ⟨[], rfl, rfl, id, Reads.pure a, Cuts.nil _⟩

theorem Definite.fail (e : ε) : Definite short (Reader.fail e : Reader τ ε α) :=
  fun _ _ _ h => absurd (Reader.fail_ok.mp h) id

theorem Definite.ofExcept (x : Except ε α) : Definite short (Reader.ofExcept x : Reader τ ε α) := by
  intro c a c' h
  obtain ⟨rfl, rfl⟩ := Reader.ofExcept_ok.mp h
  exact ⟨[], rfl, rfl, id, Reads.ofExcept _, Cuts.nil _⟩

theorem Definite.takeOr (short : ε) (len : Nat) :
    Definite short (Reader.takeOr short len : Reader τ ε (List τ)) := by
  intro c w c' h
  obtain ⟨hlen, hrest⟩ := Reader.takeOr_ok h
  have hpos : c'.pos = c.pos + len ∧ c.pos + len < 2 ^ 64 := by
    unfold Reader.takeOr at h
    split_ifs at h with hbig hin
    obtain ⟨-, rfl⟩ := Prod.mk.inj (Except.ok.inj h)
    exact ⟨rfl, by omega⟩
  refine ⟨w, hrest, ?_, ?_, Reads.takeOr short hlen, Cuts.takeOr hlen⟩
  · rw [hpos.1, hlen]
  · intro _
    omega

theorem Definite.bind (hp : Definite short p) (hf : ∀ a, Definite short (f a)) :
    Definite short (p >>= f) := by
  intro c b c' h
  obtain ⟨a, c₁, hfirst, hsecond⟩ := Reader.bind_ok.mp h
  obtain ⟨w, hw⟩ := hp c a c₁ hfirst
  obtain ⟨w', hw'⟩ := hf a c₁ b c' hsecond
  refine ⟨w ++ w', ?_, ?_, ?_, hw.reads.bind hw'.reads, Cuts.bind hw.reads hw.cuts hw'.cuts⟩
  · rw [hw.rest, hw'.rest, List.append_assoc]
  · rw [hw'.pos, hw.pos, List.length_append, Nat.add_assoc]
  · exact fun hc => hw'.fits (hw.fits hc)

theorem Definite.ite {c : Prop} [Decidable c] {q : Reader τ ε α} (hp : Definite short p)
    (hq : Definite short q) : Definite short (if c then p else q) := by
  by_cases hc : c
  · rw [if_pos hc]
    exact hp
  · rw [if_neg hc]
    exact hq

theorem Definite.each {body : κ → β → Reader τ ε β} (hbody : ∀ k b, Definite short (body k b))
    (keys : List κ) (b : β) : Definite short (Reader.each keys body b) := by
  induction keys generalizing b with
  | nil => exact Definite.pure b
  | cons k rest ih => exact (hbody k b).bind ih

/-! Readers that end with a test of how much is left. -/

/-- A success is for exactly what was left: with less or more of it the reader runs short. -/
def Exact (short : ε) (p : Reader τ ε α) : Prop :=
  ∀ c a c', p c = .ok (a, c') → c.pos < 2 ^ 64 →
    ∀ d : Cursor τ, d.pos = c.pos → d.rest <+: c.rest ∨ c.rest <+: d.rest → d.rest ≠ c.rest →
      p d = .error short

theorem Exact.remaining {g : Nat → Reader τ ε β}
    (h : ∀ n c b c', g n c = .ok (b, c') → ∀ m, m ≠ n → ∀ d, g m d = .error short) :
    Exact short (Reader.remaining >>= g) := by
  intro c b c' hread _ d _ hpre hne
  have hlen : d.remaining ≠ c.remaining := by
    rw [← d.rest_length, ← c.rest_length]
    intro he
    rcases hpre with hpre | hpre
    · exact hne (hpre.eq_of_length he)
    · exact hne (hpre.eq_of_length he.symm).symm
  exact h c.remaining c b c' hread d.remaining hlen d

theorem Exact.bind (hp : Definite short p) (hf : ∀ a, Exact short (f a)) : Exact short (p >>= f) := by
  intro c b c' h hc d hpos hpre hne
  obtain ⟨a, c₁, hfirst, hsecond⟩ := Reader.bind_ok.mp h
  obtain ⟨w, hw⟩ := hp c a c₁ hfirst
  have hfit := hw.fits hc
  have hc₁ := hw.pos
  by_cases hlong : w <+: d.rest
  · obtain ⟨r, hr⟩ := hlong
    obtain ⟨d₁, hread, hrest, hd₁⟩ := hw.reads.advance hr.symm (by omega)
    rw [hw.rest, ← hr, List.prefix_append_right_inj, List.prefix_append_right_inj] at hpre
    rw [hw.rest, ← hr] at hne
    rw [Reader.bind_of_ok hread]
    refine hf a c₁ b c' hsecond hfit d₁ (by omega) (hrest ▸ hpre) ?_
    exact fun he => hne (by rw [← he, hrest])
  · have hless : d.rest <+: w := by
      rcases hpre with hpre | hpre
      · rw [hw.rest] at hpre
        by_contra hno
        have hle : w.length ≤ d.rest.length := by
          by_contra hlt
          exact hno (List.prefix_of_prefix_length_le hpre (List.prefix_append w _) (by omega))
        exact hlong (List.prefix_of_prefix_length_le (List.prefix_append w _) hpre hle)
      · rw [hw.rest] at hpre
        exact absurd ((List.prefix_append w _).trans hpre) hlong
    have hneq : d.rest ≠ w := fun he => hlong (he ▸ List.prefix_rfl)
    exact Reader.bind_error (hw.cuts d hless hneq (by omega)) _

end RpcPlane
