import RpcPlane.Sampling

/-! What a step of a loop can do, and when the rounds that a loop reports were launched. -/

namespace RpcPlane

variable {interval : SkippingInterval} {cfg : HealthConfig} {s t : Sampling} {e : SamplingEvent}

inductive Sampler.Step (interval : SkippingInterval) (cfg : HealthConfig) (k : Nat) (m : Sampler)
    (s : Shared) : Sampler → Shared → Prop
  | tick (hp : m.phase = .waiting) (hd : m.deadline ≤ s.now) : Step interval cfg k m s
      { m with
        phase := .ticked m.deadline
        deadline := interval.next s.grid.period m.deadline s.now } s
  | stop (tick : Nat) (hp : m.phase = .ticked tick) :
    Step interval cfg k m s { m with phase := .ended } s
  | launch (tick : Nat) (hp : m.phase = .ticked tick) : Step interval cfg k m s
      { m with phase := .probing ⟨tick, s.now, s.grid.onGridRound tick s.now⟩ } s
  | answered (launch : Launch) (res : ProbeResult) (hp : m.phase = .probing launch) :
    Step interval cfg k m s { m with phase := .observing launch res } s
  | missed (launch : Launch) (result : ProbeEnd) (hp : m.phase = .probing launch) :
    Step interval cfg k m s { m with phase := .recording result } s
  | observe (launch : Launch) (res : ProbeResult) (hp : m.phase = .observing launch res) :
    Step interval cfg k m s { m with phase := .updating launch res }
      (s.observe k m.health launch res.slots)
  | update (launch : Launch) (res : ProbeResult) (i : Nat) (hp : m.phase = .updating launch res)
      (hi : m.health = some i) :
    Step interval cfg k m s { m with phase := .recording (.ok res launch.round) }
      (s.modify i (·.updateSlotsInRound res.slots launch.round))
  | merge (launch : Launch) (res : ProbeResult) (hp : m.phase = .updating launch res)
      (hi : m.health = none) :
    Step interval cfg k m s { m with phase := .waiting }
      { s with referenceSlots := s.referenceSlots.merge res.slots }
  | record (result : ProbeEnd) (i : Nat) (hp : m.phase = .recording result)
      (hi : m.health = some i) :
    Step interval cfg k m s { m with phase := .waiting } (s.modify i (·.recordProbe s.now cfg result))
  | skip (result : ProbeEnd) (hp : m.phase = .recording result) (hi : m.health = none) :
    Step interval cfg k m s { m with phase := .waiting } s

theorem Sampler.step_cases {k : Nat} {m m' : Sampler} {s s' : Shared} {act : SamplerAct}
    (h : m.step interval cfg k s act = some (m', s')) : m.Step interval cfg k s m' s' := by
  cases act with
  | tick =>
    simp only [step] at h
    split at h
    · obtain ⟨hd, h⟩ := eq_of_guard h
      obtain ⟨rfl, rfl⟩ := Prod.mk.inj (Option.some.inj h)
      exact .tick ‹_› hd
    · cases h
  | launch =>
    simp only [step] at h
    split at h
    · split at h
      · obtain ⟨rfl, rfl⟩ := Prod.mk.inj (Option.some.inj h)
        exact .stop _ ‹_›
      · obtain ⟨rfl, rfl⟩ := Prod.mk.inj (Option.some.inj h)
        exact .launch _ ‹_›
    · cases h
  | answered res =>
    simp only [step] at h
    split at h
    · obtain ⟨rfl, rfl⟩ := Prod.mk.inj (Option.some.inj h)
      exact .answered _ res ‹_›
    · cases h
  | throttled latencyMs =>
    simp only [step] at h
    split at h
    · obtain ⟨rfl, rfl⟩ := Prod.mk.inj (Option.some.inj h)
      exact .missed _ _ ‹_›
    · cases h
  | failed latencyMs =>
    simp only [step] at h
    split at h
    · obtain ⟨rfl, rfl⟩ := Prod.mk.inj (Option.some.inj h)
      exact .missed _ _ ‹_›
    · cases h
  | observe =>
    simp only [step] at h
    split at h
    · obtain ⟨rfl, rfl⟩ := Prod.mk.inj (Option.some.inj h)
      exact .observe _ _ ‹_›
    · cases h
  | update =>
    simp only [step] at h
    split at h
    · split at h
      · obtain ⟨rfl, rfl⟩ := Prod.mk.inj (Option.some.inj h)
        exact .update _ _ _ ‹_› ‹_›
      · obtain ⟨rfl, rfl⟩ := Prod.mk.inj (Option.some.inj h)
        exact .merge _ _ ‹_› ‹_›
    · cases h
  | record =>
    simp only [step] at h
    split at h
    · split at h
      · obtain ⟨rfl, rfl⟩ := Prod.mk.inj (Option.some.inj h)
        exact .record _ _ ‹_› ‹_›
      · obtain ⟨rfl, rfl⟩ := Prod.mk.inj (Option.some.inj h)
        exact .skip _ ‹_› ‹_›
    · cases h

section observe

variable (s : Shared) (k : Nat) (health : Option Nat) (launch : Launch) (slots : CommitmentSlots)

@[simp] theorem Shared.observe_now : (s.observe k health launch slots).now = s.now := by
  unfold observe
  split <;> rfl

@[simp] theorem Shared.observe_grid : (s.observe k health launch slots).grid = s.grid := by
  unfold observe
  split <;> rfl

@[simp] theorem Shared.observe_healths : (s.observe k health launch slots).healths = s.healths := by
  unfold observe
  split <;> rfl

/-- The entry that a launch makes in the round tips. -/
def Launch.report : Option Report :=
  launch.round.map (fun round => ⟨k, health, launch.launched, round, slots⟩)

theorem Shared.observe_reports : (s.observe k health launch slots).reports =
    s.reports ++ (launch.report k health slots).toList := by
  unfold observe Launch.report
  cases launch.round with
  | none => exact (List.append_nil _).symm
  | some round => rfl

end observe

theorem Sampler.Step.frame {k : Nat} {m m' : Sampler} {s s' : Shared}
    (h : m.Step interval cfg k s m' s') : s'.now = s.now ∧ s'.grid = s.grid ∧
      m'.health = m.health ∧ m'.stopped = m.stopped ∧ s.reports <+: s'.reports := by
  cases h with
  | observe launch res hp =>
    refine ⟨Shared.observe_now .., Shared.observe_grid .., rfl, rfl, ?_⟩
    rw [Shared.observe_reports]
    exact List.prefix_append _ _
  | tick | stop | launch | answered | missed | update | merge | record | skip =>
    exact ⟨rfl, rfl, rfl, rfl, List.prefix_rfl⟩

theorem Sampling.step_loop {k : Nat} {act : SamplerAct}
    (h : s.step interval cfg (.loop k act) = some t) : ∃ m m' s', s.samplers[k]? = some m ∧
      m.Step interval cfg k s.toShared m' s' ∧
      t = { s with toShared := s', samplers := s.samplers.set k m' } := by
  simp only [step] at h
  split at h
  · rename_i m hm
    obtain ⟨⟨m', s'⟩, hnext, rfl⟩ := Option.map_eq_some_iff.mp h
    exact ⟨m, m', s', hm, Sampler.step_cases hnext, rfl⟩
  · cases h

theorem Sampling.step_advance {j : Nat} (h : s.step interval cfg (.advance j) = some t) :
    ∃ call call', s.calls[j]? = some call ∧ call.step cfg s.toShared = some call' ∧
      t = { s with calls := s.calls.set j call' } := by
  simp only [step] at h
  split at h
  · rename_i call hcall
    obtain ⟨call', hnext, rfl⟩ := Option.map_eq_some_iff.mp h
    exact ⟨call, call', hcall, hnext, rfl⟩
  · cases h

theorem Sampling.step_mono (h : s.step interval cfg e = some t) :
    s.now ≤ t.now ∧ t.grid = s.grid ∧ s.reports <+: t.reports := by
  cases e with
  | loop k act =>
    obtain ⟨m, m', s', -, hstep, rfl⟩ := step_loop h
    obtain ⟨hnow, hgrid, -, -, hreports⟩ := hstep.frame
    exact ⟨hnow.ge, hgrid, hreports⟩
  | advance j =>
    obtain ⟨call, call', -, -, rfl⟩ := step_advance h
    exact ⟨le_rfl, rfl, List.prefix_rfl⟩
  | wait ns =>
    obtain rfl := Option.some.inj h
    exact ⟨Nat.le_add_right _ _, rfl, List.prefix_rfl⟩
  | insert i =>
    obtain ⟨-, h⟩ := eq_of_guard h
    obtain rfl := Option.some.inj h
    exact ⟨le_rfl, rfl, List.prefix_rfl⟩
  | start health =>
    obtain ⟨-, h⟩ := eq_of_guard h
    obtain rfl := Option.some.inj h
    exact ⟨le_rfl, rfl, List.prefix_rfl⟩
  | create | remove | stop | recorded | collect =>
    obtain rfl := Option.some.inj h
    exact ⟨le_rfl, rfl, List.prefix_rfl⟩

/-! A loop keeps to the grid. -/

/-- A launch that counts for a round came within the slack of the round's point. -/
def Launch.Fits (grid : ProbeGrid) (launch : Launch) : Prop :=
  ∀ round, launch.round = some round → launch.tick = grid.point round ∧
    launch.tick ≤ launch.launched ∧ launch.launched ≤ launch.tick + grid.slack

def SamplerPhase.Timed (grid : ProbeGrid) (now deadline : Nat) : SamplerPhase → Prop
  | .ticked tick => grid.OnGrid tick ∧ tick ≤ now ∧ tick < deadline
  | .probing launch => launch.Fits grid ∧ launch.tick < deadline
  | .observing launch _ => launch.Fits grid ∧ launch.tick < deadline
  | _ => True

/-- The points of the rounds that a loop has reported come before this. -/
def SamplerPhase.horizon (deadline : Nat) : SamplerPhase → Nat
  | .ticked tick => tick
  | .probing launch => launch.tick
  | .observing launch _ => launch.tick
  | _ => deadline

def Sampler.horizon (m : Sampler) : Nat := m.phase.horizon m.deadline

structure Sampler.Timed (grid : ProbeGrid) (now : Nat) (reports : List Report) (k : Nat)
    (m : Sampler) : Prop where
  deadline : grid.OnGrid m.deadline
  phase : m.phase.Timed grid now m.deadline
  behind : ∀ ρ ∈ reports, ρ.loop = k → grid.point ρ.round < m.horizon

structure Sampling.Timed (s : Sampling) : Prop where
  samplers : ∀ k (m : Sampler), s.samplers[k]? = some m → m.Timed s.grid s.now s.reports k
  loops : ∀ ρ ∈ s.reports, ρ.loop < s.samplers.length
  launched : ∀ ρ ∈ s.reports, s.grid.point ρ.round ≤ ρ.launched ∧
    ρ.launched ≤ s.grid.point ρ.round + s.grid.slack
  ordered : s.reports.Pairwise (fun a b => a.loop = b.loop → a.round < b.round)

theorem SamplerPhase.Timed.mono {grid : ProbeGrid} {now now' deadline : Nat} {p : SamplerPhase}
    (h : p.Timed grid now deadline) (hnow : now ≤ now') : p.Timed grid now' deadline := by
  cases p with
  | ticked tick =>
    obtain ⟨hgrid, hle, hlt⟩ := h
    exact ⟨hgrid, hle.trans hnow, hlt⟩
  | probing launch => exact h
  | observing launch res => exact h
  | waiting | updating | recording | ended => trivial

section timed

variable {grid : ProbeGrid} {now now' : Nat} {reports reports' : List Report} {k : Nat}
  {m m' : Sampler}

theorem Sampler.Timed.mono (h : m.Timed grid now reports k) (hnow : now ≤ now')
    (hreports : ∀ ρ ∈ reports', ρ ∈ reports ∨ ρ.loop ≠ k) : m.Timed grid now' reports' k where
  deadline := h.deadline
  phase := h.phase.mono hnow
  behind := by
    intro ρ hρ hk
    rcases hreports ρ hρ with hold | hother
    · exact h.behind ρ hold hk
    · exact absurd hk hother

theorem Sampler.Timed.horizon_le (h : m.Timed grid now reports k) : m.horizon ≤ m.deadline := by
  have hp := h.phase
  show m.phase.horizon m.deadline ≤ m.deadline
  cases hm : m.phase with
  | ticked tick =>
    rw [hm] at hp
    exact hp.2.2.le
  | probing launch =>
    rw [hm] at hp
    exact hp.2.le
  | observing launch res =>
    rw [hm] at hp
    exact hp.2.le
  | waiting | updating | recording | ended => exact le_rfl

/-- A loop that goes on to a phase whose horizon is the deadline. -/
theorem Sampler.Timed.settle (h : m.Timed grid now reports k) (hd : m'.deadline = m.deadline)
    (hh : m'.horizon = m'.deadline) (hp : m'.phase.Timed grid now m'.deadline) :
    m'.Timed grid now reports k where
  deadline := hd ▸ h.deadline
  phase := hp
  behind := by
    intro ρ hρ hk
    rw [hh, hd]
    exact (h.behind ρ hρ hk).trans_le h.horizon_le

/-- What one step of a loop, other than its report, leaves of its timing. -/
theorem Sampler.Timed.step {s s' : Shared} (h : m.Timed s.grid s.now s.reports k)
    (hup : s.now < s.grid.start + 2 ^ 64) (hstep : m.Step interval cfg k s m' s') :
    m'.Timed s.grid s.now s.reports k := by
  have hp := h.phase
  cases hstep with
  | tick hw hd =>
    obtain ⟨hnext, hlt⟩ := h.deadline.next interval hd
    have hh : m.horizon = m.deadline := by
      rw [horizon, hw]
      rfl
    refine ⟨hnext, ⟨h.deadline, hd, hlt⟩, ?_⟩
    intro ρ hρ hk
    have hbehind := h.behind ρ hρ hk
    rw [hh] at hbehind
    exact hbehind
  | stop tick hw => exact h.settle rfl rfl trivial
  | launch tick hw =>
    have hh : m.horizon = tick := by
      rw [horizon, hw]
      rfl
    rw [hw] at hp
    obtain ⟨⟨n, hn⟩, hle, hlt⟩ := hp
    refine ⟨h.deadline, ⟨?_, hlt⟩, ?_⟩
    · intro round hround
      have hcounted : s.grid.onGridRound tick s.now = some round := hround
      rw [hn] at hcounted
      obtain ⟨rfl, hslack⟩ := ProbeGrid.onGridRound_point (hn ▸ hle) hup hcounted
      exact ⟨hn, hle, hn ▸ hslack⟩
    · intro ρ hρ hk
      have hbehind := h.behind ρ hρ hk
      rw [hh] at hbehind
      exact hbehind
  | answered launch res hw =>
    have hh : m.horizon = launch.tick := by
      rw [horizon, hw]
      rfl
    rw [hw] at hp
    refine ⟨h.deadline, hp, ?_⟩
    intro ρ hρ hk
    have hbehind := h.behind ρ hρ hk
    rw [hh] at hbehind
    exact hbehind
  | missed launch result hw => exact h.settle rfl rfl trivial
  | observe launch res hw => exact h.settle rfl rfl trivial
  | update launch res i hw hi => exact h.settle rfl rfl trivial
  | merge launch res hw hi => exact h.settle rfl rfl trivial
  | record result i hw hi => exact h.settle rfl rfl trivial
  | skip result hw hi => exact h.settle rfl rfl trivial

/-- The report of a loop is of a later round than its earlier ones. -/
theorem Sampler.Timed.report {launch : Launch} {res : ProbeResult} {ρ : Report}
    (h : m.Timed grid now reports k) (hp : m.phase = .observing launch res)
    (hρ : launch.report k m.health res.slots = some ρ) :
    ρ.loop = k ∧ (grid.point ρ.round ≤ ρ.launched ∧
      ρ.launched ≤ grid.point ρ.round + grid.slack) ∧ grid.point ρ.round < m.deadline ∧
      ∀ ρ' ∈ reports, ρ'.loop = k → ρ'.round < ρ.round := by
  have hphase := h.phase
  have hh : m.horizon = launch.tick := by
    rw [horizon, hp]
    rfl
  rw [hp] at hphase
  obtain ⟨hfits, hlt⟩ := hphase
  obtain ⟨round, hround, rfl⟩ := Option.map_eq_some_iff.mp hρ
  obtain ⟨htick, hle, hslack⟩ := hfits round hround
  rw [htick] at hle hslack hlt
  refine ⟨rfl, ⟨hle, hslack⟩, hlt, ?_⟩
  intro ρ' hρ' hk
  have hprior := h.behind ρ' hρ' hk
  rw [hh, htick] at hprior
  exact grid.point_lt_point.mp hprior

end timed

theorem Sampler.Step.reports {k : Nat} {m m' : Sampler} {s s' : Shared}
    (h : m.Step interval cfg k s m' s') : s'.reports = s.reports ∨
      ∃ launch res ρ, m.phase = .observing launch res ∧
        launch.report k m.health res.slots = some ρ ∧ m'.horizon = m.deadline ∧
        s'.reports = s.reports ++ [ρ] := by
  cases h with
  | observe launch res hp =>
    rw [Shared.observe_reports]
    cases hρ : launch.report k m.health res.slots with
    | none => exact Or.inl (List.append_nil _)
    | some ρ => exact Or.inr ⟨launch, res, ρ, hp, hρ, rfl, rfl⟩
  | tick | stop | launch | answered | missed | update | merge | record | skip => exact Or.inl rfl

theorem of_getElem?_set {α : Type} {l : List α} {k i : Nat} {a b : α}
    (h : (l.set k a)[i]? = some b) : i = k ∧ b = a ∨ i ≠ k ∧ l[i]? = some b := by
  by_cases hi : i = k
  · subst hi
    have hlen : i < l.length := by
      have hset := (List.getElem?_eq_some_iff.mp h).1
      simpa using hset
    rw [List.getElem?_set_self hlen] at h
    exact Or.inl ⟨rfl, (Option.some.inj h).symm⟩
  · rw [List.getElem?_set_ne (Ne.symm hi)] at h
    exact Or.inr ⟨hi, h⟩

theorem of_getElem?_concat {α : Type} {l : List α} {i : Nat} {a b : α}
    (h : (l ++ [a])[i]? = some b) : l[i]? = some b ∨ i = l.length ∧ b = a := by
  rcases lt_trichotomy i l.length with hi | rfl | hi
  · rw [List.getElem?_append_left hi] at h
    exact Or.inl h
  · rw [List.getElem?_concat_length] at h
    exact Or.inr ⟨rfl, (Option.some.inj h).symm⟩
  · have hlen := (List.getElem?_eq_some_iff.mp h).1
    rw [List.length_append, List.length_singleton] at hlen
    omega

theorem of_getElem?_modify {α : Type} {l : List α} {k i : Nat} {f : α → α} {b : α}
    (h : (l.modify k f)[i]? = some b) :
    ∃ a, l[i]? = some a ∧ b = if k = i then f a else a := by
  rw [List.getElem?_modify] at h
  obtain ⟨a, ha, rfl⟩ := Option.map_eq_some_iff.mp h
  exact ⟨a, ha, rfl⟩

theorem Sampling.Timed.loop {k : Nat} {m m' : Sampler} {s' : Shared} (h : s.Timed)
    (hup : s.now < s.grid.start + 2 ^ 64) (hm : s.samplers[k]? = some m)
    (hstep : m.Step interval cfg k s.toShared m' s') :
    Sampling.Timed { s with toShared := s', samplers := s.samplers.set k m' } := by
  obtain ⟨hnow, hgrid, -, -, -⟩ := hstep.frame
  have hk : k < s.samplers.length := (List.getElem?_eq_some_iff.mp hm).1
  have hmine := h.samplers k m hm
  have hself := hmine.step hup hstep
  rcases hstep.reports with hr | ⟨launch, res, ρ, hp, hρ, hh, hr⟩
  · constructor
    · intro i n hn
      show n.Timed s'.grid s'.now s'.reports i
      rw [hgrid, hnow, hr]
      rcases of_getElem?_set hn with ⟨rfl, rfl⟩ | ⟨-, hn⟩
      · exact hself
      · exact h.samplers i n hn
    · simpa [hr] using h.loops
    · simpa [hr, hgrid] using h.launched
    · simpa [hr] using h.ordered
  · obtain ⟨hloop, hlaunched, hdeadline, hlater⟩ := hmine.report hp hρ
    constructor
    · intro i n hn
      show n.Timed s'.grid s'.now s'.reports i
      rw [hgrid, hnow, hr]
      rcases of_getElem?_set hn with ⟨rfl, rfl⟩ | ⟨hi, hn⟩
      · refine ⟨hself.deadline, hself.phase, ?_⟩
        intro ρ' hρ' hk'
        rcases List.mem_append.mp hρ' with hold | hnew
        · exact hself.behind ρ' hold hk'
        · obtain rfl := List.mem_singleton.mp hnew
          rw [hh]
          exact hdeadline
      · apply (h.samplers i n hn).mono le_rfl
        intro ρ' hρ'
        rcases List.mem_append.mp hρ' with hold | hnew
        · exact Or.inl hold
        · obtain rfl := List.mem_singleton.mp hnew
          exact Or.inr (hloop ▸ hi.symm)
    · intro ρ' hρ'
      show ρ'.loop < (s.samplers.set k m').length
      rw [List.length_set]
      rcases List.mem_append.mp (hr ▸ hρ') with hold | hnew
      · exact h.loops ρ' hold
      · obtain rfl := List.mem_singleton.mp hnew
        exact hloop ▸ hk
    · intro ρ' hρ'
      show s'.grid.point ρ'.round ≤ ρ'.launched ∧
        ρ'.launched ≤ s'.grid.point ρ'.round + s'.grid.slack
      rw [hgrid]
      rcases List.mem_append.mp (hr ▸ hρ') with hold | hnew
      · exact h.launched ρ' hold
      · obtain rfl := List.mem_singleton.mp hnew
        exact hlaunched
    · show s'.reports.Pairwise (fun a b => a.loop = b.loop → a.round < b.round)
      rw [hr, List.pairwise_append]
      refine ⟨h.ordered, List.pairwise_singleton _ _, ?_⟩
      intro a ha b hb hab
      obtain rfl := List.mem_singleton.mp hb
      exact hlater a ha (hab.trans hloop)

theorem Sampling.Timed.step (h : s.Timed) (hup : t.now < t.grid.start + 2 ^ 64)
    (ht : s.step interval cfg e = some t) : t.Timed := by
  obtain ⟨hle, hgrid, -⟩ := step_mono ht
  rw [hgrid] at hup
  have hnow : s.now < s.grid.start + 2 ^ 64 := hle.trans_lt hup
  cases e with
  | loop k act =>
    obtain ⟨m, m', s', hm, hstep, rfl⟩ := step_loop ht
    exact h.loop hnow hm hstep
  | advance j =>
    obtain ⟨call, call', -, -, rfl⟩ := step_advance ht
    exact ⟨h.samplers, h.loops, h.launched, h.ordered⟩
  | wait ns =>
    obtain rfl := Option.some.inj ht
    exact ⟨fun k m hm => (h.samplers k m hm).mono hle (fun ρ hρ => Or.inl hρ), h.loops,
      h.launched, h.ordered⟩
  | insert i =>
    obtain ⟨-, ht⟩ := eq_of_guard ht
    obtain rfl := Option.some.inj ht
    exact ⟨h.samplers, h.loops, h.launched, h.ordered⟩
  | start health =>
    obtain ⟨-, ht⟩ := eq_of_guard ht
    obtain rfl := Option.some.inj ht
    refine ⟨?_, ?_, h.launched, h.ordered⟩
    · intro k m hm
      rcases of_getElem?_concat hm with hm | ⟨rfl, rfl⟩
      · exact h.samplers k m hm
      · refine ⟨s.grid.firstTick_onGrid hnow, trivial, ?_⟩
        intro ρ hρ hk
        exact absurd hk (h.loops ρ hρ).ne
    · intro ρ hρ
      exact (h.loops ρ hρ).trans_le (by simp)
  | stop k =>
    obtain rfl := Option.some.inj ht
    refine ⟨?_, ?_, h.launched, h.ordered⟩
    · intro i m hm
      obtain ⟨n, hn, hmn⟩ := of_getElem?_modify hm
      have htimed := h.samplers i n hn
      split_ifs at hmn
      · subst hmn
        exact ⟨htimed.deadline, htimed.phase, htimed.behind⟩
      · exact hmn ▸ htimed
    · intro ρ hρ
      exact (h.loops ρ hρ).trans_le (by simp)
  | create | remove | recorded | collect =>
    obtain rfl := Option.some.inj ht
    exact ⟨h.samplers, h.loops, h.launched, h.ordered⟩

end RpcPlane
