import FpgaRadar.Vhdl.ClockedProcess
import FpgaRadar.Vhdl.Integer
import FpgaRadar.Vhdl.Waveform

/-!
# The ultrasonic range finder

This file embeds the process of `TELEMETRE_US.vhd`.  A `STD_LOGIC` signal is the level it carries,
with '1' as `true`; a register that has not been assigned yet holds an arbitrary value.  Counters
are `INTEGER` signals, so every sum and product goes through `Vhdl.integer`.
-/

namespace FpgaRadar
namespace TelemetreUs

open Vhdl

/-- The states of the measurement automaton. -/
inductive StateType
  /-- Start of a measurement cycle. -/
  | e0
  /-- The trigger pulse is being sent. -/
  | e1
  /-- Waiting for the echo to be high. -/
  | e2
  /-- Counting while the echo is high. -/
  | e3
  /-- Converting the count to centimetres. -/
  | e4
  /-- Cooling down before the next trigger. -/
  | e5
  deriving DecidableEq, Repr

/-- The signals assigned by the process. -/
structure Registers where
  /-- Current state of the automaton. -/
  state : StateType
  /-- First stage of the echo synchroniser. -/
  echoR : Bool
  /-- Second stage of the echo synchroniser, the one the automaton looks at. -/
  echoRR : Bool
  /-- Trigger duration counter. -/
  counter1 : ℤ
  /-- Echo width and cooldown counter. -/
  counter2 : ℤ
  /-- Trigger output. -/
  trig : Bool
  /-- Distance output. -/
  distCm : BitVec 10
  deriving DecidableEq

/-- The values that a simulation starts from, before the initial reset. -/
def uninitialised : Registers where
  state := .e0
  echoR := false
  echoRR := false
  counter1 := integerLow
  counter2 := integerLow
  trig := false
  distCm := 0

/-- Trigger pin high duration: 10us at 50MHz. -/
def triggerDurationTicks : ℤ := 5 * 10 ^ 2

/-- Minimal delay before the module can be triggered again: 100ms at 50MHz. -/
def moduleCooldownTicks : ℤ := 5 * 10 ^ 6

/-- `to_unsigned(counter2 * 343 / 1000000, dist_cm'length)`, with truncating division. -/
def distanceOf (counter2 : ℤ) : BitVec 10 :=
  BitVec.ofInt 10 ((integer (counter2 * 343)).tdiv 1000000)

/-- The reset branch. -/
def reset (registers : Registers) : Registers :=
  { registers with state := .e0, counter1 := 0, counter2 := 0 }

/-- The clocked branch. -/
def clocked (echo : Bool) (registers : Registers) : Registers :=
  let sampled := { registers with echoR := echo, echoRR := registers.echoR }
  match registers.state with
  | .e0 => { sampled with counter2 := 0, state := .e1 }
  | .e1 =>
      { sampled with
        trig := true
        counter1 := integer (registers.counter1 + 1)
        state := if registers.counter1 > triggerDurationTicks then .e2 else .e1 }
  | .e2 =>
      if registers.echoRR = true then
        { sampled with trig := false, counter2 := 0, state := .e3 }
      else
        { sampled with trig := false }
  | .e3 =>
      { sampled with
        counter2 := integer (registers.counter2 + 1)
        state := if registers.echoRR = false then .e4 else .e3 }
  | .e4 => { sampled with distCm := distanceOf registers.counter2, state := .e5 }
  | .e5 =>
      { sampled with
        counter1 := 0
        counter2 := integer (registers.counter2 + 1)
        state := if registers.counter2 > moduleCooldownTicks then .e0 else .e5 }

/-- The process of the architecture. -/
def process : ClockedProcess Registers Bool where
  reset := reset
  clocked := clocked
  reset_reset _ := rfl

@[simp]
theorem process_reset (registers : Registers) : process.reset registers = reset registers := rfl

@[simp]
theorem process_clocked (echo : Bool) (registers : Registers) :
    process.clocked echo registers = clocked echo registers := rfl

@[simp]
theorem clocked_echoR (echo : Bool) (registers : Registers) :
    (clocked echo registers).echoR = echo := by
  rcases registers with ⟨_ | _ | _ | _ | _ | _, _, _ | _, _, _, _, _⟩ <;> rfl

@[simp]
theorem clocked_echoRR (echo : Bool) (registers : Registers) :
    (clocked echo registers).echoRR = registers.echoR := by
  rcases registers with ⟨_ | _ | _ | _ | _ | _, _, _ | _, _, _, _, _⟩ <;> rfl

/-- Only E1 and E2 drive the trigger output. -/
theorem clocked_trig (echo : Bool) (registers : Registers) :
    (clocked echo registers).trig =
      match registers.state with
      | .e1 => true
      | .e2 => false
      | _ => registers.trig := by
  rcases registers with ⟨_ | _ | _ | _ | _ | _, _, _ | _, _, _, _, _⟩ <;> rfl

/-- Only E4 drives the distance output. -/
theorem clocked_distCm (echo : Bool) (registers : Registers) :
    (clocked echo registers).distCm =
      if registers.state = .e4 then distanceOf registers.counter2 else registers.distCm := by
  rcases registers with ⟨_ | _ | _ | _ | _ | _, _, _ | _, _, _, _, _⟩ <;> rfl

/-- The successor state, which depends on the counters and on the synchronised echo only. -/
theorem clocked_state (echo : Bool) (registers : Registers) :
    (clocked echo registers).state =
      match registers.state with
      | .e0 => .e1
      | .e1 => if registers.counter1 > 500 then .e2 else .e1
      | .e2 => if registers.echoRR then .e3 else .e2
      | .e3 => if registers.echoRR then .e3 else .e4
      | .e4 => .e5
      | .e5 => if registers.counter2 > 5000000 then .e0 else .e5 := by
  rcases registers with ⟨_ | _ | _ | _ | _ | _, _, _ | _, _, _, _, _⟩ <;> rfl

/-- What an edge that ends in the given state has found. -/
def Precedes (registers : Registers) : StateType → Prop
  | .e0 => registers.state = .e5 ∧ 5000000 < registers.counter2
  | .e1 => registers.state = .e0 ∨ registers.state = .e1 ∧ registers.counter1 ≤ 500
  | .e2 =>
      registers.state = .e1 ∧ 500 < registers.counter1 ∨
        registers.state = .e2 ∧ registers.echoRR = false
  | .e3 => (registers.state = .e2 ∨ registers.state = .e3) ∧ registers.echoRR = true
  | .e4 => registers.state = .e3 ∧ registers.echoRR = false
  | .e5 => registers.state = .e4 ∨ registers.state = .e5 ∧ registers.counter2 ≤ 5000000

/-- The transitions of the automaton, read backwards. -/
theorem clocked_state_iff (echo : Bool) (registers : Registers) (target : StateType) :
    (clocked echo registers).state = target ↔ Precedes registers target := by
  rw [clocked_state]
  cases state : registers.state with
  | e0 => cases target <;> simp [Precedes, state]
  | e1 =>
      rcases le_or_gt registers.counter1 500 with running | elapsed
      · cases target <;> simp [Precedes, state, running, not_lt.mpr running]
      · cases target <;> simp [Precedes, state, elapsed, not_le.mpr elapsed]
  | e2 => cases sample : registers.echoRR <;> cases target <;> simp [Precedes, state, sample]
  | e3 => cases sample : registers.echoRR <;> cases target <;> simp [Precedes, state, sample]
  | e4 => cases target <;> simp [Precedes, state]
  | e5 =>
      rcases le_or_gt registers.counter2 5000000 with running | elapsed
      · cases target <;> simp [Precedes, state, running, not_lt.mpr running]
      · cases target <;> simp [Precedes, state, elapsed, not_le.mpr elapsed]

/-- The trigger counter advances in E1, is cleared in E5 and holds elsewhere. -/
theorem clocked_counter1 (echo : Bool) (registers : Registers) :
    (clocked echo registers).counter1 =
      match registers.state with
      | .e1 => integer (registers.counter1 + 1)
      | .e5 => 0
      | _ => registers.counter1 := by
  rcases registers with ⟨_ | _ | _ | _ | _ | _, _, _ | _, _, _, _, _⟩ <;> rfl

/-- The echo counter is cleared in E0 and on leaving E2 and advances in E3 and in E5. -/
theorem clocked_counter2 (echo : Bool) (registers : Registers) :
    (clocked echo registers).counter2 =
      match registers.state with
      | .e0 => 0
      | .e2 => if registers.echoRR then 0 else registers.counter2
      | .e3 | .e5 => integer (registers.counter2 + 1)
      | _ => registers.counter2 := by
  rcases registers with ⟨_ | _ | _ | _ | _ | _, _, _ | _, _, _, _, _⟩ <;> rfl

/-- The relation between the state and the other registers in every run. -/
def Coherent (registers : Registers) : Prop :=
  match registers.state with
  | .e0 => registers.counter1 = 0
  | .e1 =>
      0 ≤ registers.counter1 ∧ registers.counter1 ≤ 501 ∧
        (0 < registers.counter1 → registers.trig = true)
  | .e2 => True
  | .e3 | .e4 | .e5 => registers.trig = false

/-- The trigger counter does not overflow. -/
theorem Coherent.counter1_succ {registers : Registers} (coherent : Coherent registers)
    (state : registers.state = .e1) :
    integer (registers.counter1 + 1) = registers.counter1 + 1 := by
  simp only [Coherent, state] at coherent
  apply integer_of_inInteger
  rw [inInteger_iff]
  omega

theorem coherent_clocked (echo : Bool) (registers : Registers) (coherent : Coherent registers) :
    Coherent (clocked echo registers) := by
  have state := clocked_state echo registers
  have trig := clocked_trig echo registers
  have counter1 := clocked_counter1 echo registers
  have exact := coherent.counter1_succ
  unfold Coherent at coherent
  cases current : registers.state with
  | e0 =>
      simp only [current] at coherent state counter1
      simp only [Coherent, state, counter1, coherent]
      omega
  | e1 =>
      simp only [current] at coherent state counter1 trig
      by_cases elapsed : registers.counter1 > 500
      · simp [Coherent, state, elapsed]
      · simp [Coherent, state, elapsed, counter1, trig, exact current]
        omega
  | e2 =>
      simp only [current] at state trig
      cases sample : registers.echoRR <;> simp [Coherent, state, trig, sample]
  | e3 =>
      simp only [current] at coherent state trig
      cases sample : registers.echoRR <;> simp [Coherent, state, trig, sample, coherent]
  | e4 =>
      simp only [current] at coherent state trig
      simp [Coherent, state, trig, coherent]
  | e5 =>
      simp only [current] at coherent state trig counter1
      by_cases elapsed : registers.counter2 > 5000000 <;>
        simp [Coherent, state, trig, counter1, elapsed, coherent]

/-- Coherence holds after every edge of every run that begins with a reset. -/
def coherentInvariant : process.Invariant where
  Holds := Coherent
  reset _ := rfl
  clocked := coherent_clocked

theorem inInteger_zero : InInteger 0 := by decide

/-- The counters hold values of `INTEGER` after every edge. -/
def integerInvariant : process.Invariant where
  Holds registers := InInteger registers.counter1 ∧ InInteger registers.counter2
  reset _ := ⟨inInteger_zero, inInteger_zero⟩
  clocked echo registers holds := by
    rw [process_clocked, clocked_counter1, clocked_counter2]
    cases registers.state with
    | e0 => exact ⟨holds.1, inInteger_zero⟩
    | e1 => exact ⟨inInteger_integer _, holds.2⟩
    | e2 =>
        refine ⟨holds.1, ?_⟩
        simp only
        split_ifs
        · exact inInteger_zero
        · exact holds.2
    | e3 => exact ⟨holds.1, inInteger_integer _⟩
    | e4 => exact holds
    | e5 => exact ⟨inInteger_zero, inInteger_integer _⟩

end TelemetreUs
end FpgaRadar
