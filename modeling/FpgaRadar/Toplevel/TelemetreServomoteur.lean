import FpgaRadar.Servomoteur.Frame
import FpgaRadar.TelemetreUs.Reading
import FpgaRadar.TelemetreUs.Sensor
import FpgaRadar.Vhdl.Component

/-!
# The range finder in front of the servo driver

This file embeds `telemetre_servomoteur_top.vhd`.  The servo driver is given the low eight bits of
the distance, four positions to the centimetre.  Both instances are proved about on their own; what
is left is which position a frame sees, and what the bits that are cut off do to it.
-/

namespace FpgaRadar
namespace TelemetreServomoteurTop

open Vhdl TelemetreUs Servomoteur

/-- The registers of the two instances. -/
structure Registers where
  /-- The range finder. -/
  telemetre : TelemetreUs.Registers
  /-- The servo driver. -/
  servomoteur : Servomoteur.Registers
  deriving DecidableEq

/-- The values that a simulation starts from, before the initial reset. -/
def uninitialised : Registers where
  telemetre := TelemetreUs.uninitialised
  servomoteur := Servomoteur.uninitialised

/-- `dist_cm(7 downto 0) & "00"` -/
def positionOf (distCm : BitVec 10) : BitVec 10 := distCm.extractLsb' 0 8 ++ 0#2

/-- The reset branches, both on `KEY(0)`. -/
def reset (registers : Registers) : Registers where
  telemetre := TelemetreUs.reset registers.telemetre
  servomoteur := Servomoteur.reset registers.servomoteur

/-- The clocked branches, both on `CLOCK_50`, with the echo on `GPIO_0(3)`.  The instances are
mapped with the default generics. -/
def clocked (echo : Bool) (registers : Registers) : Registers where
  telemetre := TelemetreUs.clocked echo registers.telemetre
  servomoteur :=
    Servomoteur.clocked {} (positionOf registers.telemetre.distCm) registers.servomoteur

/-- The processes of the architecture. -/
def process : ClockedProcess Registers Bool where
  reset := reset
  clocked := clocked
  reset_reset _ := rfl

/-- The instance of `telemetre_us`. -/
def telemetreComponent : Component process TelemetreUs.process where
  project := Registers.telemetre
  port _ echo := echo
  reset _ := rfl
  clocked _ _ := rfl

/-- The instance of `servomoteur`. -/
def servomoteurComponent : Component process (Servomoteur.process {}) where
  project := Registers.servomoteur
  port registers _ := positionOf registers.telemetre.distCm
  reset _ := rfl
  clocked _ _ := rfl

/-- The PWM output on `GPIO_0(5)`, cycle by cycle. -/
def commandeWave (wave : ℕ → Period Bool) (powerUp : Registers) (t : ℕ) : Bool :=
  (process.trace wave powerUp t).servomoteur.commande

/-- A frame of the servo driver starts at edge `s`. -/
def FrameStarts (wave : ℕ → Period Bool) (powerUp : Registers) (s : ℕ) : Prop :=
  Servomoteur.FrameStarts {} (servomoteurComponent.wave wave powerUp) powerUp.servomoteur s

/-- The frame that starts at edge `s` lies wholly between the reading latched at edge `latch` and
the next one. -/
structure FrameBetween (wave : ℕ → Period Bool) (powerUp : Registers) (latch s : ℕ) : Prop where
  /-- A frame starts there. -/
  starts : FrameStarts wave powerUp s
  /-- It does not start before the reading. -/
  after : latch ≤ s
  /-- It is not cut short by a reset. -/
  quiet : Quiet wave (s + 1) (s + frameTicks {})
  /-- It ends before the next reading. -/
  before : ∀ u, latch < u → u < s + frameTicks {} →
    (process.trace wave powerUp u).telemetre.state ≠ .e4

/-- The width of the pulse for a distance of which `cm` is left in eight bits. -/
def widthOf (cm : ℕ) : ℕ := 25000 + 4 * cm * 100000 / 1024 + 2

variable {wave : ℕ → Period Bool} {powerUp : Registers} {q a n s t latch : ℕ}

/-! ## The instances -/

theorem telemetre_eq (wave : ℕ → Period Bool) (powerUp : Registers) (t : ℕ) :
    (process.trace wave powerUp t).telemetre =
      TelemetreUs.process.trace wave powerUp.telemetre t :=
  telemetreComponent.trace wave powerUp t

theorem commandeWave_eq (wave : ℕ → Period Bool) (powerUp : Registers) :
    commandeWave wave powerUp =
      Servomoteur.commandeWave {} (servomoteurComponent.wave wave powerUp)
        powerUp.servomoteur := by
  funext t
  exact congrArg Servomoteur.Registers.commande (servomoteurComponent.trace wave powerUp t)

theorem default_frameTicks : frameTicks {} = 1000003 := by
  rw [frameTicks, default_ticks.2.2]

/-- The two high bits of the distance are cut off. -/
theorem positionOf_toNat (distCm : BitVec 10) :
    (positionOf distCm).toNat = 4 * (distCm.toNat % 256) := by
  rw [positionOf, BitVec.toNat_append, BitVec.extractLsb'_toNat, Nat.shiftRight_zero,
    BitVec.toNat_zero, Nat.or_zero, Nat.shiftLeft_eq, Nat.mul_comm]

theorem threshold_positionOf (distCm : BitVec 10) :
    threshold {} (positionOf distCm) + 2 = widthOf (distCm.toNat % 256) := by
  rw [default_threshold, positionOf_toNat, widthOf]

/-! ## From a reading to the output -/

/-- A frame between two readings shows the first of them. -/
theorem FrameBetween.position (frame : FrameBetween wave powerUp (latch + 3) s) {j : ℕ}
    (j_pos : 1 ≤ j) (j_lt : j < frameTicks {}) :
    (servomoteurComponent.wave wave powerUp (s + j)).input =
      positionOf (TelemetreUs.process.trace wave powerUp.telemetre (latch + 4)).distCm := by
  have after := frame.after
  have held : (TelemetreUs.process.trace wave powerUp.telemetre (s + j)).distCm =
      (TelemetreUs.process.trace wave powerUp.telemetre (latch + 4)).distCm := by
    apply distCm_holds (by omega)
    intro u lower upper
    rw [← telemetre_eq]
    exact frame.before u (by omega) (by omega)
  rw [servomoteurComponent.input_of_quiet (frame.quiet.period (s + j) (by omega)), ← held,
    ← telemetre_eq]
  rfl

/-- Its pulse has the width of what is left of the distance. -/
theorem FrameBetween.pulse (frame : FrameBetween wave powerUp (a + n + 3) s)
    (echo : MeasuredEcho wave powerUp.telemetre q a n) (exact : n ≤ 6260885) :
    Pulse (commandeWave wave powerUp) (s + 2) (s + 2 + widthOf (343 * n / 1000000 % 256)) := by
  have frame_eq := default_frameTicks
  have quiet : Quiet (servomoteurComponent.wave wave powerUp) (s + 1) (s + frameTicks {}) :=
    frame.quiet
  obtain ⟨k, ends, k_le⟩ := exists_pulseEnds (servomoteurComponent.wave wave powerUp) s
    default_threshold_le
  have width := ends.of_constant (by rw [default_ticks.1]; norm_num)
    fun j j_pos j_le => frame.position j_pos (by omega)
  have cm_eq : (TelemetreUs.process.trace wave powerUp.telemetre (a + n + 4)).distCm.toNat % 256 =
      343 * n / 1000000 % 256 := by
    rw [echo.distCm exact]
    exact Nat.mod_mod_of_dvd _ (by norm_num)
  rw [threshold_positionOf, cm_eq] at width
  rw [commandeWave_eq, ← width]
  exact pulse_of_frame default_scaled frame.starts ends (by omega) (quiet.mono (by omega))

theorem widthOf_le_iff (cm cm' : ℕ) : widthOf cm ≤ widthOf cm' ↔ cm ≤ cm' := by
  rw [widthOf, widthOf]
  omega

/-- Eight bits keep the order of two distances below 512 cm in these cases only. -/
theorem mod_le_mod_iff {cm cm' : ℕ} (le : cm ≤ cm') (bound : cm' < 512) :
    cm % 256 ≤ cm' % 256 ↔ cm' < 256 ∨ 256 ≤ cm ∨ cm + 256 ≤ cm' := by
  rcases lt_or_ge cm' 256 with near | far
  · rw [Nat.mod_eq_of_lt near, Nat.mod_eq_of_lt (le.trans_lt near)]
    omega
  · rcases lt_or_ge cm 256 with near | also_far
    · have rest' : cm' % 256 = cm' - 256 := by omega
      rw [Nat.mod_eq_of_lt near, rest']
      omega
    · have rest : cm % 256 = cm - 256 := by omega
      have rest' : cm' % 256 = cm' - 256 := by omega
      rw [rest, rest']
      omega

/-- When a farther obstacle does not drive the servo back.  For two complete echo pulses of at most
400 cm, the pulse of a frame that shows the shorter one is no longer than that of a frame that shows
the longer one if and only if the distances are both below 256 cm, or both not, or 256 cm apart. -/
theorem never_drives_back_iff (wave wave' : ℕ → Period Bool) (powerUp powerUp' : Registers)
    (q a n s q' a' n' s' : ℕ) (echo : MeasuredEcho wave powerUp.telemetre q a n)
    (echo' : MeasuredEcho wave' powerUp'.telemetre q' a' n') (farther : n ≤ n')
    (range : n' ≤ 1166180) (frame : FrameBetween wave powerUp (a + n + 3) s)
    (frame' : FrameBetween wave' powerUp' (a' + n' + 3) s') :
    ∃ width width', Pulse (commandeWave wave powerUp) (s + 2) (s + 2 + width) ∧
      Pulse (commandeWave wave' powerUp') (s' + 2) (s' + 2 + width') ∧
      (width ≤ width' ↔ 343 * n' / 1000000 < 256 ∨ 256 ≤ 343 * n / 1000000 ∨
        343 * n / 1000000 + 256 ≤ 343 * n' / 1000000) := by
  refine ⟨_, _, frame.pulse echo (by omega), frame'.pulse echo' (by omega), ?_⟩
  rw [widthOf_le_iff]
  exact mod_le_mod_iff (Nat.div_le_div_right (Nat.mul_le_mul_left 343 farther)) (by omega)

/-! ## Two obstacles -/

/-- Two echo pulses, in the first and in the second cycle. -/
def twoEchoes (n n' t : ℕ) : Bool :=
  decide (503 ≤ t ∧ t < 503 + n ∨ 5001012 ≤ t ∧ t < 5001012 + n')

theorem first_measuredEcho (n n' : ℕ) (nonempty : 1 ≤ n) (range : n ≤ 1166180) :
    MeasuredEcho (released (twoEchoes n n')) TelemetreUs.uninitialised 503 503 n := by
  apply measuredEcho_of_input (entersE2_of_released _) (Nat.le_add_right 503 2) nonempty
  intro u _ upper
  rw [twoEchoes, decide_eq_true_iff]
  omega

/-- The second cycle starts at the same edge whatever the first width is. -/
theorem second_entersE2 (n n' : ℕ) (nonempty : 1 ≤ n) (range : n ≤ 1166180) :
    EntersE2 (released (twoEchoes n n')) TelemetreUs.uninitialised 5001012 := by
  obtain ⟨m, delay, measurement⟩ := (first_measuredEcho n n' nonempty range).measurement
  have next := measurement.next_entry (inInteger_natCast (by omega)) (quiet_released _ _ _)
  rwa [show restartEdge 503 m n + 503 = 5001012 by rw [restartEdge]; omega] at next

theorem second_measuredEcho (n n' : ℕ) (nonempty : 1 ≤ n) (range : n ≤ 1166180)
    (nonempty' : 1 ≤ n') :
    MeasuredEcho (released (twoEchoes n n')) TelemetreUs.uninitialised 5001012 5001012 n' := by
  apply measuredEcho_of_input (second_entersE2 n n' nonempty range) (Nat.le_add_right 5001012 2)
    nonempty'
  intro u lower _
  rw [twoEchoes, decide_eq_true_iff]
  omega

/-- A frame within the cooldown of a measurement lies between two readings. -/
theorem frameBetween_of_cooldown {input : ℕ → Bool} (i : ℕ)
    (echo : MeasuredEcho (released input) TelemetreUs.uninitialised q a n) (range : n ≤ 1166180)
    (after : a + n + 3 ≤ i * 1000003) (before : (i + 1) * 1000003 ≤ a + 5000000) :
    FrameBetween (released input) uninitialised (a + n + 3) (i * 1000003) where
  starts := by
    have regular := frameStarts_released default_framed Servomoteur.uninitialised
      (servomoteurComponent.releasedFrom (releasedFrom_released input) uninitialised) i
    rw [default_frameTicks, Nat.zero_add] at regular
    exact regular
  after := after
  quiet := quiet_released _ _ _
  before u lower upper := by
    obtain ⟨m, delay, measurement⟩ := echo.measurement
    rw [default_frameTicks] at upper
    rw [telemetre_eq]
    apply measurement.not_e4_after (inInteger_natCast (by omega)) (quiet_released _ _ _) (by omega)
    rw [restartEdge]
    omega

/-- An obstacle at 100 cm and one at 200 cm. -/
theorem never_drives_back_200_cm :
    ∃ width width',
      Pulse (commandeWave (released (twoEchoes 291546 583091)) uninitialised) (2000006 + 2)
        (2000006 + 2 + width) ∧
      Pulse (commandeWave (released (twoEchoes 291546 583091)) uninitialised) (7000021 + 2)
        (7000021 + 2 + width') ∧ width ≤ width' := by
  have echo := first_measuredEcho 291546 583091 (by norm_num) (by norm_num)
  have echo' := second_measuredEcho 291546 583091 (by norm_num) (by norm_num) (by norm_num)
  obtain ⟨width, width', pulse, pulse', iff⟩ :=
    never_drives_back_iff (released (twoEchoes 291546 583091)) (released (twoEchoes 291546 583091))
      uninitialised uninitialised 503 503 291546 2000006 5001012 5001012 583091 7000021 echo echo'
      (by norm_num) (by norm_num) (frameBetween_of_cooldown 2 echo (by norm_num) (by norm_num)
        (by norm_num)) (frameBetween_of_cooldown 7 echo' (by norm_num) (by norm_num)
        (by norm_num))
  exact ⟨width, width', pulse, pulse', iff.mpr (Or.inl (by norm_num))⟩

/-- An obstacle that moves from 255 cm to 256 cm drives the servo from its last position back to
its first. -/
theorem farther_obstacle_drives_back :
    MeasuredEcho (released (twoEchoes 743441 746356)) uninitialised.telemetre 503 503 743441 ∧
      MeasuredEcho (released (twoEchoes 743441 746356)) uninitialised.telemetre 5001012 5001012
        746356 ∧
      FrameBetween (released (twoEchoes 743441 746356)) uninitialised (503 + 743441 + 3)
        (2 * 1000003) ∧
      FrameBetween (released (twoEchoes 743441 746356)) uninitialised (5001012 + 746356 + 3)
        (7 * 1000003) ∧
      Pulse (commandeWave (released (twoEchoes 743441 746356)) uninitialised) (2 * 1000003 + 2)
        (2 * 1000003 + 2 + 124611) ∧
      Pulse (commandeWave (released (twoEchoes 743441 746356)) uninitialised) (7 * 1000003 + 2)
        (7 * 1000003 + 2 + 25002) := by
  have echo := first_measuredEcho 743441 746356 (by norm_num) (by norm_num)
  have echo' := second_measuredEcho 743441 746356 (by norm_num) (by norm_num) (by norm_num)
  have frame := frameBetween_of_cooldown 2 echo (by norm_num) (by norm_num) (by norm_num)
  have frame' := frameBetween_of_cooldown 7 echo' (by norm_num) (by norm_num) (by norm_num)
  exact ⟨echo, echo', frame, frame', frame.pulse echo (by norm_num),
    frame'.pulse echo' (by norm_num)⟩

end TelemetreServomoteurTop
end FpgaRadar
