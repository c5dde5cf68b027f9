import Mathlib.Order.Bounds.Basic
import FpgaRadar.Servomoteur.Basic

/-!
# The high phase of a frame

The comparison in E1 uses the threshold registered one edge earlier, so the phase ends at the first
edge whose count exceeds the threshold of the position sampled just before.  Nothing older than the
frame takes part: at the first edge the count is zero, which no left-over threshold is below.
-/

namespace FpgaRadar
namespace Servomoteur

open Vhdl

variable {generics : Generics} {wave : ℕ → Period (BitVec 10)} {powerUp : Registers}
  {t k j i : ℕ}

/-- The PWM output, cycle by cycle. -/
def commandeWave (generics : Generics) (wave : ℕ → Period (BitVec 10)) (powerUp : Registers)
    (t : ℕ) : Bool :=
  ((process generics).trace wave powerUp t).commande

/-- A frame starts at edge `t`: the clocked branch is executed in E0. -/
def FrameStarts (generics : Generics) (wave : ℕ → Period (BitVec 10)) (powerUp : Registers)
    (t : ℕ) : Prop :=
  (process generics).Executes wave ((process generics).trace wave powerUp)
    (fun registers => registers.state = .e0) t

/-- The high phase of a frame that starts at edge `t` ends with count `k`: this is the least
positive count above the threshold of the position sampled at the edge before it is compared. -/
def PulseEnds (generics : Generics) (wave : ℕ → Period (BitVec 10)) (t k : ℕ) : Prop :=
  IsLeast {k | 1 ≤ k ∧ threshold generics (wave (t + k)).input < k} k

theorem trace_step (generics : Generics) (wave : ℕ → Period (BitVec 10)) (powerUp : Registers)
    (quiet : (wave t).Quiet) :
    (process generics).trace wave powerUp (t + 1) =
      clocked generics (wave t).input ((process generics).trace wave powerUp t) := by
  rw [ClockedProcess.trace_succ, ClockedProcess.edge_of_quiet _ quiet, process_clocked]

theorem coherent_trace (generics : Generics) (wave : ℕ → Period (BitVec 10))
    (powerUp : Registers) (t : ℕ) : Coherent ((process generics).trace wave powerUp t) :=
  (coherentInvariant generics).trace wave powerUp t

/-- After the edge in E0 the counter is cleared and the output is low. -/
theorem FrameStarts.next (starts : FrameStarts generics wave powerUp t) :
    ((process generics).trace wave powerUp (t + 1)).state = .e1 ∧
      ((process generics).trace wave powerUp (t + 1)).counter = 0 ∧
      ((process generics).trace wave powerUp (t + 1)).commande = false := by
  obtain ⟨level, state⟩ := starts
  have low := (coherentInvariant generics).settle (coherent_trace generics wave powerUp t)
    (wave t) state
  rw [ClockedProcess.trace_succ]
  rcases (process generics).edge_cases (wave t) ((process generics).trace wave powerUp t) with
    ⟨held, _⟩ | ⟨_, step⟩
  · rw [level] at held
    contradiction
  · rw [step, process_clocked, clocked, state]
    exact ⟨rfl, rfl, low⟩

/-- A frame starts at every quiet edge that finds the automaton in E0. -/
theorem frameStarts_of_quiet (quiet : (wave t).Quiet)
    (state : ((process generics).trace wave powerUp t).state = .e0) :
    FrameStarts generics wave powerUp t := by
  refine ⟨quiet.2, ?_⟩
  rw [(process generics).settle_of_quiet quiet]
  exact state

/-! ## E1 -/

/-- The high phase counts its edges and keeps the threshold of the last sampled position. -/
theorem e1_phase (scaled : generics.Scaled) (starts : FrameStarts generics wave powerUp t)
    (ends : PulseEnds generics wave t k) (small : k ≤ 2147483647)
    (quiet : Quiet wave (t + 1) (t + 1 + j)) (bound : j ≤ k) :
    ((process generics).trace wave powerUp (t + 1 + j)).state = .e1 ∧
      ((process generics).trace wave powerUp (t + 1 + j)).counter = j ∧
      (1 ≤ j → ((process generics).trace wave powerUp (t + 1 + j)).activeTicks =
        threshold generics (wave (t + j)).input) := by
  induction j with
  | zero => exact ⟨starts.next.1, starts.next.2.1, fun positive => absurd positive (by decide)⟩
  | succ j induction =>
      obtain ⟨state, counter, active⟩ := induction quiet.init (j.le_succ.trans bound)
      have kept : ¬ (j > ((process generics).trace wave powerUp (t + 1 + j)).activeTicks) := by
        intro exceeds
        have positive : 1 ≤ j := by omega
        have least := ends.2 ⟨positive, (active positive) ▸ exceeds⟩
        omega
      rw [← Nat.add_assoc, trace_step generics wave powerUp quiet.final, clocked, state]
      simp only [counter, if_neg kept, nextCounter_eq (by omega : j < 2147483647),
        activeTicksOf_eq scaled]
      exact ⟨trivial, trivial, fun _ => by rw [Nat.add_right_comm t 1 j, ← Nat.add_assoc]⟩

/-- The high phase ends with count `k`. -/
theorem e1_exit (scaled : generics.Scaled) (starts : FrameStarts generics wave powerUp t)
    (ends : PulseEnds generics wave t k) (small : k ≤ 2147483647)
    (quiet : Quiet wave (t + 1) (t + 1 + k + 1)) :
    ((process generics).trace wave powerUp (t + 1 + k + 1)).state = .e2 ∧
      ((process generics).trace wave powerUp (t + 1 + k + 1)).counter = nextCounter k := by
  obtain ⟨state, counter, active⟩ := e1_phase scaled starts ends small quiet.init le_rfl
  have exceeds : k > ((process generics).trace wave powerUp (t + 1 + k)).activeTicks := by
    rw [active ends.1.1]
    exact ends.1.2
  rw [trace_step generics wave powerUp quiet.final, clocked, state]
  simp only [counter, if_pos exceeds]
  exact ⟨trivial, trivial⟩

/-- The output is high during the `k + 1` cycles that follow the edges of E1. -/
theorem commande_high (scaled : generics.Scaled) (starts : FrameStarts generics wave powerUp t)
    (ends : PulseEnds generics wave t k) (small : k ≤ 2147483647)
    (quiet : Quiet wave (t + 1) (t + 1 + j + 1)) (bound : j ≤ k) :
    commandeWave generics wave powerUp (t + 1 + j + 1) = true := by
  have state := (e1_phase scaled starts ends small quiet.init bound).1
  rw [commandeWave, trace_step generics wave powerUp quiet.final, clocked, state]

/-- The output of a frame without a reset is high for exactly `k + 1` cycles. -/
theorem pulse_of_frame (scaled : generics.Scaled) (starts : FrameStarts generics wave powerUp t)
    (ends : PulseEnds generics wave t k) (small : k ≤ 2147483647)
    (quiet : Quiet wave (t + 1) (t + k + 3)) :
    Pulse (commandeWave generics wave powerUp) (t + 2) (t + 2 + (k + 1)) where
  nonempty := by omega
  high u lower upper := by
    obtain ⟨j, rfl⟩ : ∃ j, u = t + 1 + j + 1 := ⟨u - (t + 2), by omega⟩
    exact commande_high scaled starts ends small (quiet.mono (by omega)) (by omega)
  before u u_eq := by
    obtain rfl : u = t + 1 := by omega
    exact starts.next.2.2
  after := by
    have state := (e1_exit scaled starts ends small (quiet.mono (by omega))).1
    rw [show t + 2 + (k + 1) = t + 1 + k + 1 + 1 by omega, commandeWave,
      trace_step generics wave powerUp (quiet.period _ (by omega)), clocked, state]

/-! ## The width -/

/-- Every high phase ends, one count above the largest threshold at the latest. -/
theorem exists_pulseEnds (wave : ℕ → Period (BitVec 10)) (t : ℕ) {top : ℕ}
    (below : ∀ position, threshold generics position ≤ top) :
    ∃ k, PulseEnds generics wave t k ∧ k ≤ top + 1 := by
  classical
  have reached : ∃ k, 1 ≤ k ∧ threshold generics (wave (t + k)).input < k :=
    ⟨top + 1, Nat.succ_pos top, Nat.lt_succ_of_le (below _)⟩
  refine ⟨Nat.find reached, ⟨Nat.find_spec reached, fun k mem => Nat.find_min' reached mem⟩, ?_⟩
  exact Nat.find_min' reached ⟨Nat.succ_pos top, Nat.lt_succ_of_le (below _)⟩

/-- Unless both bounds are the last `NATURAL`, every threshold has a `NATURAL` above it. -/
theorem threshold_room (scaled : generics.Scaled)
    (room : generics.pulseWidthMinTicks < 2147483647) (position : BitVec 10) :
    threshold generics position ≤ 2147483646 := by
  have top : generics.pulseWidthMaxTicks ≤ 2147483647 := generics.ticks_le _
  rcases scaled.ordered.eq_or_lt with equal | strict
  · have le := threshold_le scaled position
    omega
  · have lt := threshold_lt scaled strict position
    omega

/-- The count at which the phase ends lies between the last two sampled thresholds. -/
theorem PulseEnds.between (ends : PulseEnds generics wave t k)
    (min_pos : 1 ≤ generics.pulseWidthMinTicks) :
    threshold generics (wave (t + k)).input + 2 ≤ k + 1 ∧
      k + 1 ≤ threshold generics (wave (t + (k - 1))).input + 2 := by
  obtain ⟨⟨k_pos, exceeds⟩, least⟩ := ends
  have at_least_min : generics.pulseWidthMinTicks ≤ threshold generics (wave (t + k)).input :=
    Nat.le_add_right _ _
  refine ⟨by omega, ?_⟩
  by_contra! late
  have earlier : k ≤ k - 1 := least ⟨by omega, by omega⟩
  omega

/-- A constant position gives its own threshold and two more cycles. -/
theorem PulseEnds.of_constant (ends : PulseEnds generics wave t k)
    (min_pos : 1 ≤ generics.pulseWidthMinTicks) {position : BitVec 10}
    (constant : ∀ j, 1 ≤ j → j ≤ k → (wave (t + j)).input = position) :
    k + 1 = threshold generics position + 2 := by
  obtain ⟨lower, upper⟩ := ends.between min_pos
  have k_ge : 2 ≤ k := by
    have at_least_min : generics.pulseWidthMinTicks ≤ threshold generics (wave (t + k)).input :=
      Nat.le_add_right _ _
    omega
  rw [constant k (by omega) le_rfl] at lower
  rw [constant (k - 1) (by omega) (by omega)] at upper
  exact le_antisymm upper lower

theorem default_ticks :
    ({} : Generics).pulseWidthMinTicks = 25000 ∧ ({} : Generics).pulseWidthMaxTicks = 125000 ∧
      ({} : Generics).periodTicks = 1000000 := by decide

theorem default_scaled : ({} : Generics).Scaled := by
  obtain ⟨min_eq, max_eq, _⟩ := default_ticks
  exact ⟨by rw [min_eq, max_eq]; norm_num, by rw [min_eq, max_eq]; norm_num⟩

/-- The thresholds of the default generics. -/
theorem default_threshold (position : BitVec 10) :
    threshold {} position = 25000 + position.toNat * 100000 / 1024 := by
  obtain ⟨min_eq, max_eq, _⟩ := default_ticks
  rw [threshold, min_eq, max_eq]

theorem default_threshold_le (position : BitVec 10) : threshold {} position ≤ 124902 := by
  have bound := position.isLt
  rw [default_threshold]
  omega

/-- Pulse width under an arbitrarily changing position.  In a frame that starts at edge `t` the
output is high for exactly `k + 1` cycles, where `k` is the least positive count above the
threshold of the position sampled at edge `t + k`, that is, at the `k`-th edge of E1. -/
theorem pulse_width (generics : Generics) (scaled : generics.Scaled)
    (min_pos : 1 ≤ generics.pulseWidthMinTicks)
    (room : generics.pulseWidthMinTicks < 2147483647) (wave : ℕ → Period (BitVec 10))
    (powerUp : Registers) (t : ℕ) (starts : FrameStarts generics wave powerUp t) :
    ∃ k, PulseEnds generics wave t k ∧
      (Quiet wave (t + 1) (t + k + 3) →
        Pulse (commandeWave generics wave powerUp) (t + 2) (t + 2 + (k + 1))) ∧
      threshold generics (wave (t + k)).input + 2 ≤ k + 1 ∧
      k + 1 ≤ threshold generics (wave (t + (k - 1))).input + 2 ∧
      (∀ position, (∀ j, 1 ≤ j → j ≤ k → (wave (t + j)).input = position) →
        k + 1 = threshold generics position + 2) ∧
      (generics = {} → 25000 ≤ k + 1 ∧ k + 1 ≤ 125000) := by
  obtain ⟨k, ends, k_le⟩ := exists_pulseEnds wave t (threshold_room scaled room)
  obtain ⟨lower, upper⟩ := ends.between min_pos
  refine ⟨k, ends, fun quiet => pulse_of_frame scaled starts ends k_le quiet, lower, upper,
    fun position constant => ends.of_constant min_pos constant, ?_⟩
  rintro rfl
  have below := default_threshold_le (wave (t + (k - 1))).input
  rw [default_threshold] at lower
  omega

/-- The first frame after a reset, with the default generics and a constant position. -/
theorem pulse_width_default :
    ∃ k, PulseEnds {} (released fun _ => 512) 0 k ∧
      (Quiet (released fun _ => 512) (0 + 1) (0 + k + 3) →
        Pulse (commandeWave {} (released fun _ => 512) uninitialised) (0 + 2)
          (0 + 2 + (k + 1))) ∧
      threshold {} (released (fun _ => 512) (0 + k)).input + 2 ≤ k + 1 ∧
      k + 1 ≤ threshold {} (released (fun _ => 512) (0 + (k - 1))).input + 2 ∧
      (∀ position, (∀ j, 1 ≤ j → j ≤ k → (released (fun _ => 512) (0 + j)).input = position) →
        k + 1 = threshold {} position + 2) ∧
      (({} : Generics) = {} → 25000 ≤ k + 1 ∧ k + 1 ≤ 125000) :=
  pulse_width {} default_scaled (by rw [default_ticks.1]; norm_num)
    (by rw [default_ticks.1]; norm_num) (released fun _ => 512) uninitialised 0
    (frameStarts_of_quiet ⟨rfl, rfl⟩ rfl)

/-! ## The end of the range -/

/-- Where no count exceeds a threshold the high phase does not end. -/
theorem e1_endless
    (never : ∀ counter position, nextCounter counter ≤ activeTicksOf generics position)
    (starts : FrameStarts generics wave powerUp t) (quiet : Quiet wave (t + 1) (t + 1 + j)) :
    ((process generics).trace wave powerUp (t + 1 + j)).state = .e1 ∧
      ((process generics).trace wave powerUp (t + 1 + j)).counter ≤
        ((process generics).trace wave powerUp (t + 1 + j)).activeTicks := by
  induction j with
  | zero => exact ⟨starts.next.1, starts.next.2.1.trans_le (Nat.zero_le _)⟩
  | succ j induction =>
      obtain ⟨state, counter_le⟩ := induction quiet.init
      rw [← Nat.add_assoc, trace_step generics wave powerUp quiet.final, clocked, state]
      simp only [if_neg (not_lt.mpr counter_le)]
      exact ⟨trivial, never _ _⟩

/-- Both widths are the last `NATURAL` number of ticks. -/
def lastNaturalWidths : Generics where
  clockSpeed := 10 ^ 6
  pulseWidthMinUs := 2147483647
  pulseWidthMaxUs := 2147483647

theorem lastNaturalWidths_ticks :
    lastNaturalWidths.pulseWidthMinTicks = 2147483647 ∧
      lastNaturalWidths.pulseWidthMaxTicks = 2147483647 := by decide

theorem lastNaturalWidths_scaled : lastNaturalWidths.Scaled := by
  obtain ⟨min_eq, max_eq⟩ := lastNaturalWidths_ticks
  exact ⟨by rw [min_eq, max_eq], by rw [min_eq, max_eq]; norm_num⟩

/-- With these widths the counter cannot exceed the threshold and the pulse never ends, although no
product overflows. -/
theorem last_natural_widths_endless :
    lastNaturalWidths.Scaled ∧ 1 ≤ lastNaturalWidths.pulseWidthMinTicks ∧
      FrameStarts lastNaturalWidths (released fun _ => 0) uninitialised 0 ∧
      Quiet (released fun _ => (0 : BitVec 10)) 1 (2147483648 + 3) ∧
      PulseEnds lastNaturalWidths (released fun _ => 0) 0 2147483648 ∧
      ∀ last, ¬ Pulse (commandeWave lastNaturalWidths (released fun _ => 0) uninitialised) 2
        last := by
  obtain ⟨min_eq, max_eq⟩ := lastNaturalWidths_ticks
  have top : ∀ position, threshold lastNaturalWidths position = 2147483647 := by
    intro position
    rw [threshold, min_eq, max_eq, Nat.sub_self, Nat.mul_zero, Nat.zero_div]
  have starts : FrameStarts lastNaturalWidths (released fun _ => 0) uninitialised 0 :=
    frameStarts_of_quiet ⟨rfl, rfl⟩ rfl
  have never : ∀ counter position,
      nextCounter counter ≤ activeTicksOf lastNaturalWidths position := by
    intro counter position
    rw [activeTicksOf_eq lastNaturalWidths_scaled, top]
    exact natural_le _
  refine ⟨lastNaturalWidths_scaled, by rw [min_eq]; norm_num, starts, quiet_released _ _ _,
    ⟨⟨by norm_num, by rw [top]; norm_num⟩, fun k mem => ?_⟩, fun last pulse => ?_⟩
  · have exceeds := mem.2
    rw [top] at exceeds
    exact exceeds
  · obtain ⟨j, rfl⟩ : ∃ j, last = 0 + 1 + j + 1 :=
      Nat.exists_eq_add_of_le' (Nat.le_of_lt pulse.nonempty) |>.imp fun j eq => by omega
    have state := (e1_endless (j := j) never starts (quiet_released _ _ _)).1
    have low := pulse.after
    rw [commandeWave, trace_step _ _ _ ⟨rfl, rfl⟩, clocked, state] at low
    simp at low

end Servomoteur
end FpgaRadar
