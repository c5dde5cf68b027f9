import FpgaRadar.Servomoteur.Frame
import FpgaRadar.Vhdl.Component

/-!
# The servo driver on the bus

This file embeds `servomoteur_Avalon.vhd`.  The bus register and the frame are not synchronised;
an accepted write is seen from the next edge on, and the first frame that starts at or after that
edge is output with the new width.
-/

namespace FpgaRadar
namespace ServomoteurAvalon

open Vhdl Servomoteur

/-- The bus signals at an edge. -/
structure Bus where
  /-- Chip select. -/
  chipselect : Bool
  /-- Write strobe, active low. -/
  writeN : Bool
  /-- Written word. -/
  writedata : BitVec 32
  deriving DecidableEq

/-- The bus register and the registers of the instance of `servomoteur`. -/
structure Registers where
  /-- Position register. -/
  iPosition : BitVec 10
  /-- The instance. -/
  servomoteur : Servomoteur.Registers
  deriving DecidableEq

/-- The values that a simulation starts from, before the initial reset. -/
def uninitialised : Registers where
  iPosition := 0
  servomoteur := Servomoteur.uninitialised

/-- The reset branches. -/
def reset (registers : Registers) : Registers where
  iPosition := 0
  servomoteur := Servomoteur.reset registers.servomoteur

/-- The clocked branches.  The instance is mapped with the default generics. -/
def clocked (bus : Bus) (registers : Registers) : Registers where
  iPosition :=
    if bus.chipselect = true ∧ bus.writeN = false then bus.writedata.extractLsb' 0 10
    else registers.iPosition
  servomoteur := Servomoteur.clocked {} registers.iPosition registers.servomoteur

/-- The processes of the architecture. -/
def process : ClockedProcess Registers Bus where
  reset := reset
  clocked := clocked
  reset_reset _ := rfl

/-- The instance of `servomoteur`. -/
def servomoteurComponent : Component process (Servomoteur.process {}) where
  project := Registers.servomoteur
  port registers _ := registers.iPosition
  reset _ := rfl
  clocked _ _ := rfl

/-- The PWM output, cycle by cycle. -/
def commandeWave (wave : ℕ → Period Bus) (powerUp : Registers) (t : ℕ) : Bool :=
  (process.trace wave powerUp t).servomoteur.commande

/-- A write is accepted at edge `t`. -/
def AcceptsWrite (wave : ℕ → Period Bus) (t : ℕ) : Prop :=
  (wave t).rstN = true ∧ (wave t).input.chipselect = true ∧ (wave t).input.writeN = false

/-- The number of high cycles that a written word stands for. -/
def widthOf (word : BitVec 32) : ℕ := 25000 + word.toNat % 1024 * 100000 / 1024 + 2

theorem widthOf_le (word : BitVec 32) : widthOf word ≤ 124904 := by
  rw [widthOf]
  omega

variable {wave : ℕ → Period Bus} {powerUp : Registers} {start t u : ℕ}

theorem commandeWave_eq (wave : ℕ → Period Bus) (powerUp : Registers) :
    commandeWave wave powerUp =
      Servomoteur.commandeWave {} (servomoteurComponent.wave wave powerUp)
        powerUp.servomoteur := by
  funext t
  exact congrArg Servomoteur.Registers.commande (servomoteurComponent.trace wave powerUp t)

/-! ## The bus register -/

theorem trace_step (wave : ℕ → Period Bus) (powerUp : Registers) (quiet : (wave t).Quiet) :
    process.trace wave powerUp (t + 1) =
      clocked (wave t).input (process.trace wave powerUp t) := by
  rw [ClockedProcess.trace_succ, ClockedProcess.edge_of_quiet _ quiet]
  rfl

theorem iPosition_of_accepts (quiet : (wave t).Quiet) (accepts : AcceptsWrite wave t) :
    (process.trace wave powerUp (t + 1)).iPosition =
      (wave t).input.writedata.extractLsb' 0 10 := by
  rw [trace_step wave powerUp quiet, clocked, if_pos accepts.2]

theorem iPosition_of_not_accepts (quiet : (wave t).Quiet) (idle : ¬ AcceptsWrite wave t) :
    (process.trace wave powerUp (t + 1)).iPosition =
      (process.trace wave powerUp t).iPosition := by
  have not_written : ¬ ((wave t).input.chipselect = true ∧ (wave t).input.writeN = false) :=
    fun written => idle ⟨quiet.2, written⟩
  rw [trace_step wave powerUp quiet, clocked, if_neg not_written]

/-- The register keeps a written position until the next accepted write. -/
theorem iPosition_holds (release : ReleasedFrom wave start) (start_le : start ≤ t)
    (accepts : AcceptsWrite wave t) (after : t < u)
    (idle : ∀ v, t < v → v < u → ¬ AcceptsWrite wave v) :
    (process.trace wave powerUp u).iPosition = (wave t).input.writedata.extractLsb' 0 10 := by
  induction u, after using Nat.le_induction with
  | base => exact iPosition_of_accepts (release.quiet t start_le) accepts
  | succ u later induction =>
      rw [iPosition_of_not_accepts (release.quiet u (start_le.trans (Nat.le_of_lt later)))
        (idle u later u.lt_succ_self)]
      exact induction fun v lower upper => idle v lower (upper.trans u.lt_succ_self)

theorem threshold_extractLsb' (word : BitVec 32) :
    threshold {} (word.extractLsb' 0 10) + 2 = widthOf word := by
  rw [default_threshold, widthOf, BitVec.extractLsb'_toNat, Nat.shiftRight_zero]

/-! ## From a write to the output -/

/-- Every pulse that starts after a write is as wide as the next accepted write allows, and has the
written width if there is none before its last threshold has been sampled. -/
theorem pulse_of_rises (release : ReleasedFrom wave start)
    (rises : RisesAt (commandeWave wave powerUp) u) :
    ∃ k, k ≤ 124903 ∧ Pulse (commandeWave wave powerUp) (u + 1) (u + 1 + (k + 1)) ∧
      ∀ t, start ≤ t → t < u → AcceptsWrite wave t →
        (∀ v, t < v → v + 1 < u + k → ¬ AcceptsWrite wave v) →
        k + 1 = widthOf (wave t).input.writedata := by
  have release' := servomoteurComponent.releasedFrom release powerUp
  rw [commandeWave_eq] at rises ⊢
  obtain ⟨s, rfl, starts, quiet⟩ := frameStarts_of_rises rises
  obtain ⟨k, ends, k_le⟩ := exists_pulseEnds (servomoteurComponent.wave wave powerUp) s
    default_threshold_le
  have start_le : start ≤ s := by
    by_contra! early
    have level := starts.1
    rw [release'.held s early] at level
    contradiction
  refine ⟨k, k_le, ?_, fun t start_le after accepts idle => ?_⟩
  · exact pulse_of_frame default_scaled starts ends (by omega)
      (release'.quiet_between (start_le.trans s.le_succ))
  · have min_pos : 1 ≤ ({} : Generics).pulseWidthMinTicks := by
      rw [default_ticks.1]
      norm_num
    rw [← threshold_extractLsb']
    apply ends.of_constant min_pos
    intro j j_pos j_le
    rw [servomoteurComponent.input_of_quiet (release.quiet (s + j) (by omega))]
    exact iPosition_holds release start_le accepts (by omega)
      fun v lower upper => idle v lower (by omega)

/-- A pulse starts within one frame of any edge. -/
theorem exists_rises (powerUp : Registers) (release : ReleasedFrom wave start)
    (start_le : start ≤ t) :
    ∃ b, t + 1 ≤ b ∧ b ≤ t + 1000003 ∧ RisesAt (commandeWave wave powerUp) b := by
  have regular := rises_iff_released default_framed powerUp.servomoteur
    (servomoteurComponent.releasedFrom release powerUp)
  rw [frameTicks, default_ticks.2.2] at regular
  refine ⟨start + 1 + (t - start + 1000002) / 1000003 * 1000003, by omega, by omega, ?_⟩
  rw [commandeWave_eq]
  exact (regular _).mpr ⟨_, rfl⟩

/-- A write that stands alone for long enough is output. -/
theorem exists_pulse_of_write (powerUp : Registers) (release : ReleasedFrom wave start)
    (start_le : start ≤ t) (accepts : AcceptsWrite wave t)
    (alone : ∀ v, t + 1 ≤ v → v ≤ t + 1124904 → ¬ AcceptsWrite wave v) :
    ∃ b, t + 1 ≤ b ∧ b ≤ t + 1000003 ∧ RisesAt (commandeWave wave powerUp) b ∧
      Pulse (commandeWave wave powerUp) (b + 1)
        (b + 1 + widthOf (wave t).input.writedata) := by
  obtain ⟨b, after, before, rises⟩ := exists_rises powerUp release start_le
  obtain ⟨k, k_le, pulse, width⟩ := pulse_of_rises release rises
  refine ⟨b, after, before, rises, ?_⟩
  rwa [width t start_le after accepts fun v lower upper => alone v lower (by omega)] at pulse

/-- No lost position update.  In a run that keeps `rst_n` high after its initial reset, let a write
be accepted at edge `t` and no other one at the edges `t + 1`, ..., `t + 1124904`.  A pulse of the
written width starts at one of the edges `t + 1`, ..., `t + 1000003`, and every later pulse that
ends before the next accepted write has that width too. -/
theorem no_lost_update (wave : ℕ → Period Bus) (powerUp : Registers) (start t : ℕ)
    (release : ReleasedFrom wave start) (start_le : start ≤ t) (accepts : AcceptsWrite wave t)
    (alone : ∀ v, t + 1 ≤ v → v ≤ t + 1124904 → ¬ AcceptsWrite wave v) :
    (∃ b, t + 1 ≤ b ∧ b ≤ t + 1000003 ∧ RisesAt (commandeWave wave powerUp) b ∧
      Pulse (commandeWave wave powerUp) (b + 1)
        (b + 1 + widthOf (wave t).input.writedata)) ∧
      ∀ b last, t + 1 ≤ b → RisesAt (commandeWave wave powerUp) b →
        Pulse (commandeWave wave powerUp) (b + 1) last →
        (∀ v, t + 1 ≤ v → v < last → ¬ AcceptsWrite wave v) →
        last = b + 1 + widthOf (wave t).input.writedata := by
  refine ⟨exists_pulse_of_write powerUp release start_le accepts alone, ?_⟩
  intro b last after rises pulse idle
  obtain ⟨k, _, pulse', width⟩ := pulse_of_rises release rises
  have last_eq := pulse.last_unique pulse'
  rw [last_eq, width t start_le after accepts fun v lower upper => idle v lower (by omega)]

/-- A single write of the middle position, at the first edge after a reset. -/
def middleWrite (t : ℕ) : Bus where
  chipselect := decide (t = 0)
  writeN := false
  writedata := 512

theorem no_lost_update_middle :
    ∃ b, 1 ≤ b ∧ b ≤ 1000003 ∧
      RisesAt (commandeWave (released middleWrite) uninitialised) b ∧
      Pulse (commandeWave (released middleWrite) uninitialised) (b + 1) (b + 1 + 75002) := by
  obtain ⟨⟨b, after, before, rises, pulse⟩, _⟩ :=
    no_lost_update (released middleWrite) uninitialised 0 0 (releasedFrom_released _) le_rfl
      ⟨rfl, rfl, rfl⟩ fun v lower _ accepts => by
        have selected := accepts.2.1
        simp only [released, middleWrite, decide_eq_true_eq] at selected
        omega
  exact ⟨b, by omega, by omega, rises, pulse⟩

end ServomoteurAvalon
end FpgaRadar
