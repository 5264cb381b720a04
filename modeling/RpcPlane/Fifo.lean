import RpcPlane.Projection

/-! Queues of a system that are first in, first out: what goes out over a run is what came in, in
the same order. -/

namespace RpcPlane

variable {σ α μ : Type} {T : System σ α} {queue : σ → List μ} {sent received : σ → α → List μ}

/-- What a step puts into the queue goes to its end, what it takes out comes from its front. -/
def System.Fifo (T : System σ α) (queue : σ → List μ) (sent received : σ → α → List μ) : Prop :=
  ∀ s a t, T.step s a = some t → received s a ++ queue t = queue s ++ sent s a

theorem System.Fifo.run (h : T.Fifo queue sent received) {s t : σ} {as : List α}
    (hrun : T.run s as = some t) :
    T.trace received s as ++ queue t = queue s ++ T.trace sent s as := by
  induction as generalizing s with
  | nil =>
    obtain rfl : s = t := by simpa [System.run] using hrun
    simp [T.trace_nil]
  | cons a as ih =>
    obtain ⟨u, hu, hr⟩ := Option.bind_eq_some_iff.mp hrun
    rw [T.trace_cons received hu, T.trace_cons sent hu, List.append_assoc, ih hr,
      ← List.append_assoc, h s a u hu, List.append_assoc]

theorem System.Fifo.received_begins (h : T.Fifo queue sent received) {s t : σ} {as : List α}
    (hs : queue s = []) (hrun : T.run s as = some t) :
    T.trace received s as <+: T.trace sent s as := by
  have hall := h.run hrun
  rw [hs, List.nil_append] at hall
  exact ⟨queue t, hall⟩

/-- Of two prefixes of a list, one ends in a mark: the other goes beyond it once it has more marks
than there were before. -/
theorem prefix_of_countP_lt {p : μ → Bool} {xs ys l : List μ} {m : μ} (hx : xs ++ [m] <+: l)
    (hy : ys <+: l) (hc : xs.countP p < ys.countP p) : xs ++ [m] <+: ys := by
  rcases List.prefix_or_prefix_of_prefix hx hy with h | h
  · exact h
  · rcases List.prefix_concat_iff.mp h with rfl | hshort
    · exact List.prefix_rfl
    · have hle := hshort.sublist.countP_le (p := p)
      omega

/-- A mark that is sent is out, and with it all that was sent before, once more marks are out than
had been sent before it. -/
theorem System.Fifo.barrier (h : T.Fifo queue sent received) {s t : σ} {as bs : List α} {a : α}
    {m : μ} (p : μ → Bool) (hs : queue s = []) (has : T.run s as = some t)
    (hsent : sent t a = [m]) {u : σ} (hrun : T.run s (as ++ a :: bs) = some u) {ys : List μ}
    (hy : ys <+: T.trace received s (as ++ a :: bs))
    (hc : (T.trace sent s as).countP p < ys.countP p) : T.trace sent s as ++ [m] <+: ys := by
  have hx : T.trace sent s as ++ [m] <+: T.trace sent s (as ++ a :: bs) := by
    have hrest : T.run t (a :: bs) = some u := by
      rw [T.run_append, has] at hrun
      exact hrun
    obtain ⟨v, hv, -⟩ := Option.bind_eq_some_iff.mp hrest
    rw [T.trace_append sent has, T.trace_cons sent hv, hsent, ← List.append_assoc]
    exact List.prefix_append _ _
  exact prefix_of_countP_lt hx (hy.trans (h.received_begins hs hrun)) hc

end RpcPlane
