import FpgaRadar.Vhdl.ClockedProcess
import FpgaRadar.Vhdl.Integer
import FpgaRadar.Vhdl.Waveform

/-!
# The servo driver

This file embeds the process of `servomoteur.vhd` for arbitrary generics.  The tick signals are
never assigned, so they are functions of the generics.  `NATURAL` signals are natural numbers, and
whatever is assigned to one goes through `Vhdl.integer` and `Vhdl.natural`.
-/

namespace FpgaRadar
namespace Servomoteur

open Vhdl

/-- The generics of the entity, with their defaults. -/
structure Generics where
  /-- Clock frequency in Hz. -/
  clockSpeed : ℕ := 50 * 10 ^ 6
  /-- Period of the PWM signal in microseconds. -/
  periodUs : ℕ := 20000
  /-- Minimum pulse width in microseconds. -/
  pulseWidthMinUs : ℕ := 500
  /-- Maximum pulse width in microseconds. -/
  pulseWidthMaxUs : ℕ := 2500
  deriving DecidableEq

namespace Generics

/-- `clockSpeed / (10**6) * us`, the initial value of a tick signal. -/
def ticks (generics : Generics) (us : ℕ) : ℕ :=
  natural (integer ((generics.clockSpeed / 10 ^ 6 : ℕ) * us))

/-- Minimum pulse width in clock ticks. -/
def pulseWidthMinTicks (generics : Generics) : ℕ := generics.ticks generics.pulseWidthMinUs

/-- Maximum pulse width in clock ticks. -/
def pulseWidthMaxTicks (generics : Generics) : ℕ := generics.ticks generics.pulseWidthMaxUs

/-- Period of the PWM signal in clock ticks. -/
def periodTicks (generics : Generics) : ℕ := generics.ticks generics.periodUs

end Generics

/-- The states of the PWM automaton. -/
inductive StateType
  /-- Start of a frame. -/
  | e0
  /-- High phase. -/
  | e1
  /-- Low phase. -/
  | e2
  deriving DecidableEq, Repr

/-- The signals assigned by the process. -/
structure Registers where
  /-- Current state of the automaton. -/
  state : StateType
  /-- Threshold computed at the last edge of a high phase. -/
  activeTicks : ℕ
  /-- Frame counter. -/
  counter : ℕ
  /-- PWM output. -/
  commande : Bool
  deriving DecidableEq

/-- The values that a simulation starts from, before the initial reset. -/
def uninitialised : Registers where
  state := .e0
  activeTicks := 0
  counter := 0
  commande := false

/-- The value assigned to `Active_ticks` for a position. -/
def activeTicksOf (generics : Generics) (position : BitVec 10) : ℕ :=
  natural (integer (generics.pulseWidthMinTicks +
    (integer (position.toNat *
      integer (generics.pulseWidthMaxTicks - generics.pulseWidthMinTicks))).tdiv (2 ^ 10)))

/-- The value assigned to `counter` in both phases. -/
def nextCounter (counter : ℕ) : ℕ := natural (integer (counter + 1))

/-- The reset branch. -/
def reset (registers : Registers) : Registers :=
  { registers with commande := false, counter := 0, state := .e0 }

/-- The clocked branch. -/
def clocked (generics : Generics) (position : BitVec 10) (registers : Registers) : Registers :=
  match registers.state with
  | .e0 => { registers with counter := 0, state := .e1 }
  | .e1 =>
      { registers with
        commande := true
        counter := nextCounter registers.counter
        activeTicks := activeTicksOf generics position
        state := if registers.counter > registers.activeTicks then .e2 else .e1 }
  | .e2 =>
      { registers with
        commande := false
        counter := nextCounter registers.counter
        state := if registers.counter > generics.periodTicks then .e0 else .e2 }

/-- The process of the architecture. -/
def process (generics : Generics) : ClockedProcess Registers (BitVec 10) where
  reset := reset
  clocked := clocked generics
  reset_reset _ := rfl

variable {generics : Generics}

@[simp]
theorem process_reset (generics : Generics) (registers : Registers) :
    (process generics).reset registers = reset registers := rfl

@[simp]
theorem process_clocked (generics : Generics) (position : BitVec 10) (registers : Registers) :
    (process generics).clocked position registers = clocked generics position registers := rfl

/-- The PWM output is low whenever a frame starts. -/
def Coherent (registers : Registers) : Prop :=
  registers.state = .e0 → registers.commande = false

theorem coherent_clocked (generics : Generics) (position : BitVec 10) (registers : Registers) :
    Coherent (clocked generics position registers) := by
  unfold Coherent clocked
  cases registers.state with
  | e0 => simp
  | e1 => simp only; split_ifs <;> simp
  | e2 => simp

/-- Coherence holds after every edge of every run that begins with a reset. -/
def coherentInvariant (generics : Generics) : (process generics).Invariant where
  Holds := Coherent
  reset _ _ := rfl
  clocked position registers _ := coherent_clocked generics position registers

theorem nextCounter_eq {counter : ℕ} (small : counter < 2147483647) :
    nextCounter counter = counter + 1 := by
  rw [nextCounter, ← Nat.cast_succ, integer_natCast small, natural_natCast small]

/-- The tick values are ordered and no product of a position overflows. -/
structure Generics.Scaled (generics : Generics) : Prop where
  /-- The pulse width bounds are in order. -/
  ordered : generics.pulseWidthMinTicks ≤ generics.pulseWidthMaxTicks
  /-- The largest position times the range of widths is an `INTEGER`. -/
  product : 1023 * (generics.pulseWidthMaxTicks - generics.pulseWidthMinTicks) ≤ 2147483647

theorem Generics.ticks_le (generics : Generics) (us : ℕ) : generics.ticks us ≤ 2147483647 :=
  natural_le _

/-- The threshold that a position stands for. -/
def threshold (generics : Generics) (position : BitVec 10) : ℕ :=
  generics.pulseWidthMinTicks + position.toNat *
    (generics.pulseWidthMaxTicks - generics.pulseWidthMinTicks) / 1024

theorem threshold_le (scaled : generics.Scaled) (position : BitVec 10) :
    threshold generics position ≤ generics.pulseWidthMaxTicks := by
  have bound : position.toNat ≤ 1024 := position.isLt.le
  have ordered := scaled.ordered
  have share : position.toNat * (generics.pulseWidthMaxTicks - generics.pulseWidthMinTicks) /
      1024 ≤ generics.pulseWidthMaxTicks - generics.pulseWidthMinTicks :=
    Nat.div_le_of_le_mul (Nat.mul_le_mul_right _ bound)
  rw [threshold]
  omega

/-- Below the top of the range the threshold stays clear of the maximum. -/
theorem threshold_lt (scaled : generics.Scaled)
    (strict : generics.pulseWidthMinTicks < generics.pulseWidthMaxTicks)
    (position : BitVec 10) : threshold generics position < generics.pulseWidthMaxTicks := by
  have ordered := scaled.ordered
  have share : position.toNat * (generics.pulseWidthMaxTicks - generics.pulseWidthMinTicks) /
      1024 < generics.pulseWidthMaxTicks - generics.pulseWidthMinTicks :=
    Nat.div_lt_of_lt_mul (Nat.mul_lt_mul_of_pos_right position.isLt (by omega))
  rw [threshold]
  omega

/-- Without overflow the circuit computes the threshold. -/
theorem activeTicksOf_eq (scaled : generics.Scaled) (position : BitVec 10) :
    activeTicksOf generics position = threshold generics position := by
  have ordered := scaled.ordered
  have top : generics.pulseWidthMaxTicks ≤ 2147483647 := generics.ticks_le _
  have difference : (generics.pulseWidthMaxTicks : ℤ) - generics.pulseWidthMinTicks =
      ((generics.pulseWidthMaxTicks - generics.pulseWidthMinTicks : ℕ) : ℤ) := by omega
  have product_le : position.toNat *
      (generics.pulseWidthMaxTicks - generics.pulseWidthMinTicks) ≤ 2147483647 :=
    (Nat.mul_le_mul_right _ (by omega)).trans scaled.product
  have threshold_top := (threshold_le scaled position).trans top
  have quotient : (((position.toNat *
      (generics.pulseWidthMaxTicks - generics.pulseWidthMinTicks) : ℕ) : ℤ)).tdiv (2 ^ 10) =
        ((position.toNat * (generics.pulseWidthMaxTicks - generics.pulseWidthMinTicks) / 1024 :
          ℕ) : ℤ) := by
    rw [Int.tdiv_eq_ediv_of_nonneg (Int.natCast_nonneg _)]
    omega
  rw [activeTicksOf, difference, integer_natCast (by omega), ← Nat.cast_mul,
    integer_natCast product_le, quotient, ← Nat.cast_add, ← threshold,
    integer_natCast threshold_top, natural_natCast threshold_top]

end Servomoteur
end FpgaRadar
