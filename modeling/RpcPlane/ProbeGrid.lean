import RpcPlane.Drift
import RpcPlane.StartUp

/-! The grid that all probe loops tick on, and the interval each of them waits for. Instants are
in nanoseconds. -/

namespace RpcPlane

/-- `ProbeClock` with the moment it was made. -/
structure ProbeGrid extends ProbeClock where
  start : Nat
  period_pos : 0 < periodMs

def ProbeGrid.new (intervalMs : Nat) (now : Nat) : ProbeGrid where
  toProbeClock := .new intervalMs
  start := now
  period_pos := lt_max_of_lt_right Nat.one_pos

def ProbeGrid.period (grid : ProbeGrid) : Nat := grid.periodMs * 1000000

def ProbeGrid.round (grid : ProbeGrid) (moment : Nat) : Nat :=
  (moment - grid.start) / grid.period % 2 ^ 64

def ProbeGrid.slack (grid : ProbeGrid) : Nat := min (grid.period / 4) 100000000

def ProbeGrid.onGridRound (grid : ProbeGrid) (tick now : Nat) : Option Nat :=
  if now - tick ≤ grid.slack then some (grid.round tick) else none

/-- The first deadline of `ticker`. -/
def ProbeGrid.firstTick (grid : ProbeGrid) (now : Nat) : Nat :=
  grid.start + grid.period * grid.round now % 2 ^ 64

/-- The runtime's interval with the behaviour `Skip`: a tick that is due gives out its deadline,
and the next deadline is a whole number of periods later. -/
structure SkippingInterval where
  next : Nat → Nat → Nat → Nat
  next_eq : ∀ period deadline now, 0 < period → deadline ≤ now →
    ∃ k, next period deadline now = deadline + (k + 1) * period

def ProbeGrid.point (grid : ProbeGrid) (n : Nat) : Nat := grid.start + n * grid.period

def ProbeGrid.OnGrid (grid : ProbeGrid) (moment : Nat) : Prop := ∃ n, moment = grid.point n

variable (grid : ProbeGrid)

theorem ProbeGrid.period_ns_pos : 0 < grid.period := Nat.mul_pos grid.period_pos (by decide)

theorem ProbeGrid.point_lt_point {m n : Nat} : grid.point m < grid.point n ↔ m < n := by
  unfold point
  rw [Nat.add_lt_add_iff_left, Nat.mul_lt_mul_right grid.period_ns_pos]

theorem ProbeGrid.point_add (m n : Nat) : grid.point m + n * grid.period = grid.point (m + n) := by
  unfold point
  rw [Nat.add_mul, Nat.add_assoc]

/-- Within the first 2 ^ 64 ns the rounds count the points of the grid. -/
theorem ProbeGrid.round_point {n : Nat} (h : grid.point n < grid.start + 2 ^ 64) :
    grid.round (grid.point n) = n := by
  have hpos := grid.period_ns_pos
  have hlt : n * grid.period < 2 ^ 64 := by
    unfold point at h
    omega
  have hn : n < 2 ^ 64 := (Nat.le_mul_of_pos_right n hpos).trans_lt hlt
  unfold round point
  rw [Nat.add_sub_cancel_left, Nat.mul_div_cancel n hpos, Nat.mod_eq_of_lt hn]

/-- A loop's first tick is at the point of the grid that was reached last. -/
theorem ProbeGrid.firstTick_onGrid {now : Nat} (h : now < grid.start + 2 ^ 64) :
    grid.OnGrid (grid.firstTick now) := by
  have hlt : now - grid.start < 2 ^ 64 := by omega
  have hdiv : (now - grid.start) / grid.period < 2 ^ 64 := (Nat.div_le_self _ _).trans_lt hlt
  have hmul : grid.period * ((now - grid.start) / grid.period) < 2 ^ 64 :=
    (Nat.mul_div_le _ _).trans_lt hlt
  refine ⟨(now - grid.start) / grid.period, ?_⟩
  unfold firstTick round point
  rw [Nat.mod_eq_of_lt hdiv, Nat.mod_eq_of_lt hmul, Nat.mul_comm]

variable {grid}

theorem ProbeGrid.onGridRound_point {n r : Nat} {now : Nat} (hn : grid.point n ≤ now)
    (hup : now < grid.start + 2 ^ 64) (h : grid.onGridRound (grid.point n) now = some r) :
    r = n ∧ now ≤ grid.point n + grid.slack := by
  unfold onGridRound at h
  split_ifs at h with hslack
  obtain rfl := Option.some.inj h
  exact ⟨grid.round_point (hn.trans_lt hup), by omega⟩

theorem ProbeGrid.OnGrid.next (interval : SkippingInterval) {deadline now : Nat}
    (h : grid.OnGrid deadline) (hd : deadline ≤ now) :
    grid.OnGrid (interval.next grid.period deadline now) ∧
      deadline < interval.next grid.period deadline now := by
  obtain ⟨n, rfl⟩ := h
  obtain ⟨k, hk⟩ := interval.next_eq grid.period (grid.point n) now grid.period_ns_pos hd
  rw [hk, grid.point_add]
  exact ⟨⟨_, rfl⟩, grid.point_lt_point.mpr (by omega)⟩

end RpcPlane
