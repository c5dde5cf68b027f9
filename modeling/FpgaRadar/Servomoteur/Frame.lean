import FpgaRadar.Servomoteur.Pulse

/-!
# The frame

High and low phase share one counter.  Whatever threshold ends the high phase is passed before the
counter reaches the period, so E2 always takes the counter to the same value and every frame has
the same number of edges, whatever the position does.
-/

namespace FpgaRadar
namespace Servomoteur

open Vhdl

variable {generics : Generics} {wave : ℕ → Period (BitVec 10)} {powerUp : Registers}
  {t u k j i : ℕ}

/-- Tick values for which the frame has a constant length. -/
structure Generics.Framed (generics : Generics) : Prop extends generics.Scaled where
  /-- The longest pulse is shorter than the period. -/
  below_period : generics.pulseWidthMaxTicks < generics.periodTicks
  /-- The counter can pass the period. -/
  period_room : generics.periodTicks < 2147483647

/-- The number of edges from one frame to the next. -/
def frameTicks (generics : Generics) : ℕ := generics.periodTicks + 3

/-! ## The counter -/

theorem nextCounter_le (counter : ℕ) : nextCounter counter ≤ counter + 1 := by
  rw [nextCounter, natural_integer, ← Nat.cast_succ]
  exact natural_natCast_le counter.succ

/-- How far the counter can have come in each state. -/
def Bounded (generics : Generics) (registers : Registers) : Prop :=
  match registers.state with
  | .e0 => registers.counter ≤ generics.periodTicks + 2
  | .e1 =>
      registers.counter = 0 ∨
        (registers.activeTicks ≤ generics.pulseWidthMaxTicks ∧
          registers.counter ≤ generics.pulseWidthMaxTicks + 1)
  | .e2 => registers.counter ≤ generics.periodTicks + 1

theorem bounded_e0 {registers : Registers} (state : registers.state = .e0) :
    Bounded generics registers ↔ registers.counter ≤ generics.periodTicks + 2 := by
  rw [Bounded, state]

theorem bounded_e1 {registers : Registers} (state : registers.state = .e1) :
    Bounded generics registers ↔ registers.counter = 0 ∨
      (registers.activeTicks ≤ generics.pulseWidthMaxTicks ∧
        registers.counter ≤ generics.pulseWidthMaxTicks + 1) := by
  rw [Bounded, state]

theorem bounded_e2 {registers : Registers} (state : registers.state = .e2) :
    Bounded generics registers ↔ registers.counter ≤ generics.periodTicks + 1 := by
  rw [Bounded, state]

theorem bounded_clocked (framed : generics.Framed) (position : BitVec 10)
    (registers : Registers) (bounded : Bounded generics registers) :
    Bounded generics (clocked generics position registers) := by
  have below := framed.below_period
  have counted := nextCounter_le registers.counter
  have active := threshold_le framed.toScaled position
  cases state : registers.state with
  | e0 =>
      rw [clocked, state, bounded_e1 rfl]
      exact Or.inl rfl
  | e1 =>
      rw [bounded_e1 state] at bounded
      rw [clocked, state, activeTicksOf_eq framed.toScaled]
      simp only
      by_cases exceeds : registers.counter > registers.activeTicks
      · -- only a threshold of this frame can have been exceeded
        rw [if_pos exceeds, bounded_e2 rfl]
        simp only
        omega
      · rw [if_neg exceeds, bounded_e1 rfl]
        simp only
        omega
  | e2 =>
      rw [bounded_e2 state] at bounded
      rw [clocked, state]
      simp only
      by_cases exceeds : registers.counter > generics.periodTicks
      · rw [if_pos exceeds, bounded_e0 rfl]
        simp only
        omega
      · rw [if_neg exceeds, bounded_e2 rfl]
        simp only
        omega

/-- The bounds hold after every edge of every run that begins with a reset. -/
def boundedInvariant (framed : generics.Framed) : (process generics).Invariant where
  Holds := Bounded generics
  reset _ := Nat.zero_le _
  clocked := bounded_clocked framed

theorem Bounded.counter_le (framed : generics.Framed) {registers : Registers}
    (bounded : Bounded generics registers) : registers.counter ≤ generics.periodTicks + 2 := by
  have below := framed.below_period
  cases state : registers.state with
  | e0 => exact (bounded_e0 state).mp bounded
  | e1 =>
      obtain cleared | ⟨_, counter_le⟩ := (bounded_e1 state).mp bounded <;> omega
  | e2 => exact ((bounded_e2 state).mp bounded).trans (Nat.le_succ _)

/-! ## E2 -/

/-- The low phase counts its edges. -/
theorem e2_phase (framed : generics.Framed) (quiet : Quiet wave t (t + i))
    (state : ((process generics).trace wave powerUp t).state = .e2)
    (fits : ((process generics).trace wave powerUp t).counter + i ≤ generics.periodTicks + 1) :
    ((process generics).trace wave powerUp (t + i)).state = .e2 ∧
      ((process generics).trace wave powerUp (t + i)).counter =
        ((process generics).trace wave powerUp t).counter + i := by
  have room := framed.period_room
  induction i with
  | zero => exact ⟨state, rfl⟩
  | succ i induction =>
      obtain ⟨state_i, counter_i⟩ := induction quiet.init (by omega)
      have kept : ¬ (((process generics).trace wave powerUp t).counter + i >
          generics.periodTicks) := by omega
      rw [← Nat.add_assoc, trace_step generics wave powerUp quiet.final, clocked, state_i]
      simp only [counter_i, if_neg kept]
      exact ⟨trivial, nextCounter_eq (by omega)⟩

theorem FrameStarts.low_phase (framed : generics.Framed)
    (starts : FrameStarts generics wave powerUp t) (ends : PulseEnds generics wave t k)
    (k_le : k ≤ generics.periodTicks) (quiet : Quiet wave (t + 1) (t + 1 + j)) (k_lt : k < j)
    (j_le : j ≤ generics.periodTicks + 1) :
    ((process generics).trace wave powerUp (t + 1 + j)).state = .e2 ∧
      ((process generics).trace wave powerUp (t + 1 + j)).counter = j := by
  have room := framed.period_room
  obtain ⟨i, rfl⟩ := Nat.exists_eq_add_of_lt k_lt
  obtain ⟨state, counter⟩ := e1_exit framed.toScaled starts ends (by omega)
    (quiet.mono (by omega))
  rw [nextCounter_eq (by omega)] at counter
  rw [show t + 1 + (k + i + 1) = t + 1 + k + 1 + i by omega] at quiet ⊢
  obtain ⟨state_i, counter_i⟩ := e2_phase framed (quiet.mono ⟨by omega, le_rfl⟩) state
    (by rw [counter]; omega)
  exact ⟨state_i, by rw [counter_i, counter]; omega⟩

/-! ## From frame to frame -/

/-- The high phase of every frame ends before the period does. -/
theorem Generics.Framed.exists_pulseEnds (framed : generics.Framed)
    (wave : ℕ → Period (BitVec 10)) (t : ℕ) :
    ∃ k, PulseEnds generics wave t k ∧ k ≤ generics.periodTicks := by
  obtain ⟨k, ends, k_le⟩ := Servomoteur.exists_pulseEnds wave t (threshold_le framed.toScaled)
  exact ⟨k, ends, k_le.trans framed.below_period⟩

/-- The next frame starts after the same number of edges, whatever the position does. -/
theorem FrameStarts.next_frame (framed : generics.Framed)
    (starts : FrameStarts generics wave powerUp t)
    (quiet : Quiet wave (t + 1) (t + frameTicks generics + 1)) :
    FrameStarts generics wave powerUp (t + frameTicks generics) := by
  obtain ⟨k, ends, k_le⟩ := framed.exists_pulseEnds wave t
  rw [frameTicks] at quiet ⊢
  obtain ⟨state, counter⟩ := starts.low_phase framed ends k_le
    (quiet.mono (by omega)) (Nat.lt_succ_of_le k_le) le_rfl
  apply frameStarts_of_quiet (quiet.period _ (by omega))
  rw [show t + (generics.periodTicks + 3) = t + 1 + (generics.periodTicks + 1) + 1 by omega,
    trace_step generics wave powerUp (quiet.period _ (by omega)), clocked, state]
  simp only [counter, if_pos (Nat.lt_succ_self generics.periodTicks)]

/-- The output over one frame: low for a cycle, high for `k + 1` cycles, low for the rest. -/
theorem FrameStarts.commande_eq (framed : generics.Framed)
    (starts : FrameStarts generics wave powerUp t) (ends : PulseEnds generics wave t k)
    (k_le : k ≤ generics.periodTicks) (quiet : Quiet wave (t + 1) (t + j)) (j_pos : 1 ≤ j)
    (j_le : j ≤ frameTicks generics) :
    commandeWave generics wave powerUp (t + j) = decide (2 ≤ j ∧ j ≤ k + 2) := by
  have room := framed.period_room
  rw [frameTicks] at j_le
  rcases j_pos.eq_or_lt with rfl | j_gt
  · exact starts.next.2.2
  obtain ⟨i, rfl⟩ := Nat.exists_eq_add_of_le j_gt
  rw [show t + (Nat.succ 1 + i) = t + 1 + i + 1 by omega] at quiet ⊢
  by_cases high : i ≤ k
  · rw [commande_high framed.toScaled starts ends (by omega) quiet high]
    exact (decide_eq_true (by omega)).symm
  · obtain ⟨state, _⟩ := starts.low_phase (j := i) framed ends k_le quiet.init (not_le.mp high)
      (by omega)
    rw [commandeWave, trace_step generics wave powerUp quiet.final, clocked, state]
    exact (decide_eq_false (by omega)).symm

/-- The output rises once in a frame. -/
theorem FrameStarts.rises_iff (framed : generics.Framed)
    (starts : FrameStarts generics wave powerUp t) (quiet : Quiet wave (t + 1) (t + j + 1))
    (j_pos : 1 ≤ j) (j_le : j ≤ frameTicks generics) :
    RisesAt (commandeWave generics wave powerUp) (t + j) ↔ j = 1 := by
  obtain ⟨k, ends, k_le⟩ := framed.exists_pulseEnds wave t
  have now := starts.commande_eq framed ends k_le quiet.init j_pos j_le
  rcases j_le.eq_or_lt with rfl | j_lt
  · have low := (starts.next_frame framed quiet).next.2.2
    rw [RisesAt, commandeWave, commandeWave, low, frameTicks]
    simp
  · have after := starts.commande_eq framed ends k_le quiet (j := j + 1) (Nat.le_add_left 1 j) j_lt
    rw [RisesAt, Nat.add_assoc, now, after, decide_eq_false_iff_not, decide_eq_true_iff]
    omega

/-- E1 with the output still low is the first edge after the start of a frame. -/
theorem frameStarts_of_e1 (state : ((process generics).trace wave powerUp (t + 1)).state = .e1)
    (low : commandeWave generics wave powerUp (t + 1) = false) :
    FrameStarts generics wave powerUp t := by
  rw [commandeWave, ClockedProcess.trace_succ] at low
  rw [ClockedProcess.trace_succ] at state
  rcases (process generics).edge_cases (wave t) ((process generics).trace wave powerUp t) with
    ⟨_, step⟩ | ⟨level, step⟩
  · simp [step, reset] at state
  refine ⟨level, ?_⟩
  rw [step, process_clocked, clocked] at state low
  cases before : ((process generics).settle (wave t)
      ((process generics).trace wave powerUp t)).state with
  | e0 => rfl
  | e1 => simp [before] at low
  | e2 =>
      simp only [before] at state
      split_ifs at state

/-- The output rises only in E1. -/
theorem e1_of_rises (rises : RisesAt (commandeWave generics wave powerUp) t) :
    (wave t).Quiet ∧ ((process generics).trace wave powerUp t).state = .e1 := by
  obtain ⟨low, high⟩ := rises
  rw [commandeWave] at low high
  obtain step | step | ⟨quiet, step⟩ := (process generics).trace_cases wave powerUp t
  · simp [step, reset] at high
  · simp [step, reset, clocked] at high
  refine ⟨quiet, ?_⟩
  rw [step, process_clocked, clocked] at high
  cases state : ((process generics).trace wave powerUp t).state with
  | e0 => simp [state, low] at high
  | e1 => rfl
  | e2 => simp [state] at high

/-- The output rises only at the edge after the start of a frame. -/
theorem frameStarts_of_rises (rises : RisesAt (commandeWave generics wave powerUp) t) :
    ∃ s, s + 1 = t ∧ FrameStarts generics wave powerUp s ∧ (wave t).Quiet := by
  obtain ⟨quiet, state⟩ := e1_of_rises rises
  cases t with
  | zero => simp [reset] at state
  | succ s => exact ⟨s, rfl, frameStarts_of_e1 state rises.1, quiet⟩

/-- The rising edge after that of a frame belongs to the next frame. -/
theorem FrameStarts.next_rises (framed : generics.Framed)
    (starts : FrameStarts generics wave powerUp t)
    (quiet : Quiet wave (t + 1) (t + 1 + (generics.periodTicks + 3) + 1)) :
    RisesAt (commandeWave generics wave powerUp) (t + 1 + (generics.periodTicks + 3)) := by
  have starts' := starts.next_frame framed (quiet.mono ⟨le_rfl, by rw [frameTicks]; omega⟩)
  rw [show t + 1 + (generics.periodTicks + 3) = t + frameTicks generics + 1 by
    rw [frameTicks]; omega] at quiet ⊢
  exact (starts'.rises_iff framed (quiet.mono (by omega)) le_rfl
    (Nat.le_add_left 1 _)).mpr rfl

/-! ## Runs -/

/-- A run that keeps `rst_n` high after its initial reset starts its frames at regular edges. -/
theorem frameStarts_released (framed : generics.Framed) (powerUp : Registers) {start : ℕ}
    (release : ReleasedFrom wave start) (i : ℕ) :
    FrameStarts generics wave powerUp (start + i * frameTicks generics) := by
  induction i with
  | zero =>
      apply frameStarts_of_quiet (release.quiet _ (Nat.le_add_right _ _))
      rw [Nat.zero_mul, Nat.add_zero, (process generics).trace_held release powerUp le_rfl]
      rfl
  | succ i induction =>
      rw [Nat.succ_mul, ← Nat.add_assoc]
      exact induction.next_frame framed (release.quiet_between (by omega))

/-- In such a run the output rises at the edges after these and at no others. -/
theorem rises_iff_released (framed : generics.Framed) (powerUp : Registers) {start : ℕ}
    (release : ReleasedFrom wave start) (t : ℕ) :
    RisesAt (commandeWave generics wave powerUp) t ↔
      ∃ i, t = start + 1 + i * frameTicks generics := by
  constructor
  · intro rises
    have started : start < t := by
      by_contra! early
      obtain ⟨s, rfl, starts, quiet⟩ := frameStarts_of_rises rises
      have low := starts.1
      rw [release.held s early] at low
      contradiction
    obtain ⟨j, rfl⟩ := Nat.exists_eq_add_of_lt started
    have positive : 0 < frameTicks generics := Nat.succ_pos _
    have split := Nat.div_add_mod' j (frameTicks generics)
    have within := Nat.mod_lt j positive
    refine ⟨j / frameTicks generics, ?_⟩
    have starts := frameStarts_released framed powerUp release (j / frameTicks generics)
    rw [show start + j + 1 = start + j / frameTicks generics * frameTicks generics +
      (j % frameTicks generics + 1) by omega] at rises
    have first := (starts.rises_iff framed (release.quiet_between (by omega))
      (Nat.le_add_left 1 _) within).mp rises
    omega
  · rintro ⟨i, rfl⟩
    rw [Nat.add_right_comm]
    exact ((frameStarts_released framed powerUp release i).rises_iff framed
      (release.quiet_between (by omega)) le_rfl (Nat.le_add_left 1 _)).mpr rfl

/-- Two successive rising edges without a reset in between are one frame apart. -/
theorem eq_of_successive_rises (framed : generics.Framed) {t' : ℕ} (later : t < t')
    (rises : RisesAt (commandeWave generics wave powerUp) t)
    (rises' : RisesAt (commandeWave generics wave powerUp) t')
    (between : ∀ u, t < u → u < t' → ¬ RisesAt (commandeWave generics wave powerUp) u)
    (quiet : Quiet wave t t') : t' = t + (generics.periodTicks + 3) := by
  obtain ⟨s, rfl, starts, _⟩ := frameStarts_of_rises rises
  obtain ⟨_, _, _, quiet'⟩ := frameStarts_of_rises rises'
  have quiet_all : Quiet wave (s + 1) (t' + 1) := quiet.snoc quiet'
  rcases lt_trichotomy t' (s + 1 + (generics.periodTicks + 3)) with early | equal | late
  · obtain ⟨j, rfl⟩ := Nat.exists_eq_add_of_lt later
    rw [Nat.add_assoc s, Nat.add_assoc s] at rises' quiet_all
    have first := (starts.rises_iff framed quiet_all (Nat.le_add_left 1 _)
      (by rw [frameTicks]; omega)).mp rises'
    omega
  · exact equal
  · have next := starts.next_rises framed (quiet_all.mono (by omega))
    exact absurd next (between _ (Nat.lt_add_of_pos_right (Nat.succ_pos _)) late)

/-- From one rising edge to the next the output is high for `width` cycles and then low. -/
theorem exists_width_of_rises (framed : generics.Framed)
    (rises : RisesAt (commandeWave generics wave powerUp) t)
    (quiet : Quiet wave t (t + (generics.periodTicks + 3) + 1)) :
    RisesAt (commandeWave generics wave powerUp) (t + (generics.periodTicks + 3)) ∧
      ∃ width, 1 ≤ width ∧ width < generics.periodTicks + 3 ∧
        ∀ u, t < u → u ≤ t + (generics.periodTicks + 3) →
          commandeWave generics wave powerUp u = decide (u ≤ t + width) := by
  obtain ⟨s, rfl, starts, _⟩ := frameStarts_of_rises rises
  obtain ⟨k, ends, k_lt⟩ := framed.exists_pulseEnds wave s
  refine ⟨starts.next_rises framed quiet, k + 1, Nat.le_add_left 1 k, by omega, ?_⟩
  intro u after before
  obtain ⟨j, rfl⟩ := Nat.exists_eq_add_of_lt after
  rcases before.eq_or_lt with last | within
  · -- the first cycle of the next frame
    have quiet_frame : Quiet wave (s + 1) (s + frameTicks generics + 1) :=
      quiet.mono ⟨le_rfl, by rw [frameTicks]; omega⟩
    have low := (starts.next_frame framed quiet_frame).next.2.2
    rw [frameTicks, show s + (generics.periodTicks + 3) + 1 = s + 1 + j + 1 by omega] at low
    rw [commandeWave, low]
    exact (decide_eq_false (by omega)).symm
  · rw [show s + 1 + j + 1 = s + (j + 2) by omega, starts.commande_eq framed ends k_lt
      (quiet.mono (by omega)) (Nat.le_add_left 1 _) (by rw [frameTicks]; omega)]
    exact decide_eq_decide.mpr (by omega)

/-- Jitter-free frames.  In a run that keeps `rst_n` high after its initial reset the output rises
exactly once every `Period_ticks + 3` edges.  Between two resets of any run, two successive rising
edges are that far apart, and from one to the next the output is high for one interval and then low
for one interval.  The counter never exceeds `Period_ticks + 2`. -/
theorem frames_jitter_free (generics : Generics) (framed : generics.Framed)
    (wave : ℕ → Period (BitVec 10)) (powerUp : Registers) :
    (∀ t, ((process generics).trace wave powerUp t).counter ≤ generics.periodTicks + 2) ∧
      (∀ start, ReleasedFrom wave start → ∀ t,
        RisesAt (commandeWave generics wave powerUp) t ↔
          ∃ i, t = start + 1 + i * (generics.periodTicks + 3)) ∧
      (∀ t t', t < t' → RisesAt (commandeWave generics wave powerUp) t →
        RisesAt (commandeWave generics wave powerUp) t' →
        (∀ u, t < u → u < t' → ¬ RisesAt (commandeWave generics wave powerUp) u) →
        Quiet wave t t' → t' = t + (generics.periodTicks + 3)) ∧
      ∀ t, RisesAt (commandeWave generics wave powerUp) t →
        Quiet wave t (t + (generics.periodTicks + 3) + 1) →
        RisesAt (commandeWave generics wave powerUp) (t + (generics.periodTicks + 3)) ∧
          ∃ width, 1 ≤ width ∧ width < generics.periodTicks + 3 ∧
            ∀ u, t < u → u ≤ t + (generics.periodTicks + 3) →
              commandeWave generics wave powerUp u = decide (u ≤ t + width) := by
  refine ⟨fun t => ?_, fun start release t => rises_iff_released framed powerUp release t, ?_, ?_⟩
  · exact ((boundedInvariant framed).trace wave powerUp t).counter_le framed
  · intro t t' later rises rises' between quiet
    exact eq_of_successive_rises framed later rises rises' between quiet
  · intro t rises quiet
    exact exists_width_of_rises framed rises quiet

theorem default_framed : ({} : Generics).Framed := by
  obtain ⟨_, max_eq, period_eq⟩ := default_ticks
  exact ⟨default_scaled, by rw [max_eq, period_eq]; norm_num, by rw [period_eq]; norm_num⟩

/-- The second rising edge after a reset, with the default generics. -/
theorem frames_jitter_free_default :
    RisesAt (commandeWave {} (released fun _ => 512) uninitialised) 1000004 := by
  obtain ⟨_, rises_iff, _⟩ :=
    frames_jitter_free {} default_framed (released fun _ => 512) uninitialised
  refine (rises_iff 0 (releasedFrom_released _) 1000004).mpr ⟨1, ?_⟩
  rw [default_ticks.2.2]

end Servomoteur
end FpgaRadar
