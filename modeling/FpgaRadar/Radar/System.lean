import FpgaRadar.Servomoteur.Avalon
import FpgaRadar.TelemetreUs.Avalon

/-!
# The radar program and its two peripherals

This file embeds `radar` of `main.c` as a machine that makes at most one bus access at each edge of
the clock, and composes it with `servomoteur_avalon` and `telemetre_us_avalon` on that clock.  How
long the output of a pair takes is left to a parameter; there is no handshake anywhere, so nothing
else connects the three.
-/

namespace FpgaRadar
namespace Radar

open Vhdl

/-- The bus accesses of `radar`. -/
inductive Access
  /-- `IOWR(AVALON_SERVOMOTEUR_0_BASE, 0, i*1023/180)` -/
  | writePosition
  /-- `IORD(AVALON_TELEMETRE_US_0_BASE, 0)` -/
  | readDistance
  /-- `IOWR(AVALON_SERVOMOTEUR_0_BASE, 0, 0)` -/
  | writeHome
  deriving DecidableEq, Repr

/-- The state of the program between two edges. -/
structure Software where
  /-- The next bus access. -/
  access : Access
  /-- The edges that pass before it. -/
  left : ℕ
  /-- The angle. -/
  i : ℕ
  /-- The last distance read. -/
  distance : BitVec 32
  /-- The pairs printed so far. -/
  printed : List (ℕ × BitVec 32)
  deriving DecidableEq

/-- Clock edges in a microsecond. -/
def edgesPerUs : ℕ := 50

/-- The parameters of a run: the arguments of `radar`, how long `main` takes to get there, and how
long it takes to print the `n`-th pair. -/
structure Parameters where
  /-- First argument, in microseconds. -/
  delay : ℕ
  /-- Second argument, in degrees. -/
  increment : ℕ
  /-- Edges before the first access. -/
  greeting : ℕ
  /-- Edges spent in `printf` and `printNumHex`. -/
  printTime : ℕ → ℕ

/-- The program when `main` has started. -/
def Software.start (parameters : Parameters) : Software where
  access := .writePosition
  left := parameters.greeting
  i := 0
  distance := 0
  printed := []

/-- What the program does at an edge, given the word on the read port. -/
def Software.advance (parameters : Parameters) (readdata : BitVec 32) (software : Software) :
    Software :=
  match software.left with
  | left + 1 => { software with left := left }
  | 0 =>
      match software.access with
      | .writePosition =>
          { software with access := .readDistance, left := edgesPerUs * parameters.delay }
      | .readDistance =>
          { software with
            access :=
              if software.i + parameters.increment ≤ 180 then .writePosition else .writeHome
            left := parameters.printTime software.printed.length
            i := software.i + parameters.increment
            distance := readdata
            printed := software.printed ++ [(software.i, readdata)] }
      | .writeHome =>
          { software with access := .writePosition, left := edgesPerUs * 300000, i := 0 }

/-- The program accesses the bus at the next edge. -/
def Software.accesses (software : Software) (access : Access) : Bool :=
  decide (software.left = 0 ∧ software.access = access)

/-- The word that a step of the sweep writes. -/
def positionWord (i : ℕ) : BitVec 32 := BitVec.ofNat 32 (i * 1023 / 180)

/-- The signals of the servo driver's bus port. -/
def Software.servoBus (software : Software) : ServomoteurAvalon.Bus where
  chipselect := software.accesses .writePosition || software.accesses .writeHome
  writeN := !(software.accesses .writePosition || software.accesses .writeHome)
  writedata := if software.access = .writeHome then 0 else positionWord software.i

/-- The whole system between two edges. -/
structure System where
  /-- The program. -/
  software : Software
  /-- The servo driver. -/
  servo : ServomoteurAvalon.Registers
  /-- The range finder. -/
  telemetre : TelemetreUsAvalon.Signals

/-- What an edge and the bus accesses after it bring to the range finder. -/
def telemetreCycle (software : Software) (echo : Bool) : TelemetreUsAvalon.Cycle where
  chipselect := software.accesses .readDistance
  readN := !software.accesses .readDistance
  rstN := true
  risingEdge := true
  echo := echo

/-- One edge of the clock. -/
def System.advance (parameters : Parameters) (echo : Bool) (system : System) : System :=
  let software := system.software.advance parameters system.telemetre.readdata
  { software := software
    servo := ServomoteurAvalon.clocked system.software.servoBus system.servo
    telemetre := TelemetreUsAvalon.step (telemetreCycle software echo) system.telemetre }

/-- What the peripherals hold before their reset. -/
structure PowerUp where
  /-- The servo driver. -/
  servo : ServomoteurAvalon.Registers
  /-- The read port of the range finder. -/
  readdata : BitVec 32
  /-- The range finder. -/
  telemeter : TelemetreUs.Registers

/-- The range finder's signals when the reset is released. -/
def PowerUp.telemetre (powerUp : PowerUp) : TelemetreUsAvalon.Signals where
  chipselect := false
  readN := true
  readdata := powerUp.readdata
  telemeter := TelemetreUs.reset powerUp.telemeter

/-- The system when the reset is released. -/
def System.start (parameters : Parameters) (powerUp : PowerUp) : System where
  software := Software.start parameters
  servo := ServomoteurAvalon.reset powerUp.servo
  telemetre := TelemetreUsAvalon.readProcess powerUp.telemetre

/-- The system after `t` edges. -/
def run (parameters : Parameters) (powerUp : PowerUp) (echo : ℕ → Bool) : ℕ → System
  | 0 => System.start parameters powerUp
  | t + 1 => (run parameters powerUp echo t).advance parameters (echo t)

variable {parameters : Parameters} {powerUp : PowerUp} {echo : ℕ → Bool} {t : ℕ}

theorem run_succ (parameters : Parameters) (powerUp : PowerUp) (echo : ℕ → Bool) (t : ℕ) :
    run parameters powerUp echo (t + 1) =
      (run parameters powerUp echo t).advance parameters (echo t) := rfl

/-! ## The peripherals -/

/-- The waveform on the servo driver's bus port. -/
def servoWave (parameters : Parameters) (powerUp : PowerUp) (echo : ℕ → Bool) :
    ℕ → Period ServomoteurAvalon.Bus :=
  released fun t => (run parameters powerUp echo t).software.servoBus

/-- In the system the servo driver runs as it does alone. -/
theorem servo_eq (parameters : Parameters) (powerUp : PowerUp) (echo : ℕ → Bool) (t : ℕ) :
    (run parameters powerUp echo t).servo =
      ServomoteurAvalon.process.trace (servoWave parameters powerUp echo) powerUp.servo t := by
  induction t with
  | zero => rfl
  | succ t induction =>
      rw [ServomoteurAvalon.trace_step _ _ ⟨rfl, rfl⟩, ← induction]
      rfl

/-- The simulation cycles of the range finder. -/
def telemetreCycles (parameters : Parameters) (powerUp : PowerUp) (echo : ℕ → Bool) (t : ℕ) :
    TelemetreUsAvalon.Cycle :=
  telemetreCycle (run parameters powerUp echo (t + 1)).software (echo t)

/-- In the system the range finder's bus wrapper runs as it does alone. -/
theorem telemetre_eq (parameters : Parameters) (powerUp : PowerUp) (echo : ℕ → Bool) (t : ℕ) :
    (run parameters powerUp echo t).telemetre =
      TelemetreUsAvalon.simulate (telemetreCycles parameters powerUp echo) powerUp.telemetre t := by
  induction t with
  | zero => rfl
  | succ t induction =>
      rw [TelemetreUsAvalon.simulate, ← induction]
      rfl

/-- And so does the range finder itself. -/
theorem telemeter_eq (parameters : Parameters) (powerUp : PowerUp) (echo : ℕ → Bool) (t : ℕ) :
    (run parameters powerUp echo t).telemetre.telemeter =
      TelemetreUs.process.trace (released echo) powerUp.telemeter t := by
  induction t with
  | zero => exact TelemetreUsAvalon.readProcess_telemeter _
  | succ t induction =>
      rw [run_succ, System.advance, TelemetreUsAvalon.step_telemeter, induction,
        ClockedProcess.trace_succ, ClockedProcess.edge_of_quiet _ ⟨rfl, rfl⟩]
      rfl

/-! ## The program -/

theorem Software.accesses_iff {software : Software} {access : Access} :
    software.accesses access = true ↔ software.left = 0 ∧ software.access = access :=
  decide_eq_true_iff

/-- A read is not followed by another one at the next edge. -/
theorem Software.not_reads_of_advance {readdata : BitVec 32} {software : Software}
    (reads : (software.advance parameters readdata).accesses .readDistance = true) :
    software.accesses .readDistance = false := by
  apply Bool.eq_false_iff.mpr
  intro also
  rw [accesses_iff] at also
  rw [accesses_iff, advance, also.1, also.2] at reads
  simp only at reads
  split_ifs at reads <;> simp at reads

/-- The program counts the edges before its next access. -/
theorem software_waits {j : ℕ} (bound : j ≤ (run parameters powerUp echo t).software.left) :
    (run parameters powerUp echo (t + j)).software =
      { (run parameters powerUp echo t).software with
        left := (run parameters powerUp echo t).software.left - j } := by
  induction j with
  | zero => rfl
  | succ j induction =>
      obtain ⟨left, left_eq⟩ :=
        Nat.exists_eq_add_of_le' (Nat.sub_pos_of_lt (Nat.lt_of_succ_le bound))
      have waiting := induction (by omega)
      rw [left_eq] at waiting
      rw [← Nat.add_assoc, run_succ, System.advance, waiting, Software.advance]
      simp only [Software.mk.injEq, true_and, and_true]
      omega

/-- A sweep step starts at edge `t`: the `IOWR` of its position acts. -/
def StepsAt (parameters : Parameters) (powerUp : PowerUp) (echo : ℕ → Bool) (t : ℕ) : Prop :=
  (run parameters powerUp echo t).software.accesses .writePosition = true

/-- The first sweep step starts when `main` has printed its greeting. -/
theorem stepsAt_greeting (parameters : Parameters) (powerUp : PowerUp) (echo : ℕ → Bool) :
    StepsAt parameters powerUp echo parameters.greeting := by
  have waited : (run parameters powerUp echo (0 + parameters.greeting)).software = _ :=
    software_waits le_rfl
  rw [StepsAt, ← Nat.zero_add parameters.greeting, waited]
  exact Software.accesses_iff.mpr ⟨Nat.sub_self _, rfl⟩

/-- The edge at which the `IORD` of a sweep step acts. -/
def readEdge (parameters : Parameters) (t : ℕ) : ℕ := t + edgesPerUs * parameters.delay + 1

/-- Between its two accesses a sweep step sleeps. -/
theorem StepsAt.sleeps (steps : StepsAt parameters powerUp echo t) {j : ℕ}
    (bound : j ≤ edgesPerUs * parameters.delay) :
    (run parameters powerUp echo (t + 1 + j)).software =
      { (run parameters powerUp echo t).software with
        access := .readDistance
        left := edgesPerUs * parameters.delay - j } := by
  rw [StepsAt, Software.accesses_iff] at steps
  have written : (run parameters powerUp echo (t + 1)).software =
      { (run parameters powerUp echo t).software with
        access := .readDistance
        left := edgesPerUs * parameters.delay } := by
    rw [run_succ, System.advance, Software.advance, steps.1, steps.2]
  rw [software_waits (by rw [written]; exact bound), written]

/-- The written position. -/
theorem StepsAt.servoBus (steps : StepsAt parameters powerUp echo t) :
    (run parameters powerUp echo t).software.servoBus =
      ⟨true, false, positionWord (run parameters powerUp echo t).software.i⟩ := by
  have access := (Software.accesses_iff.mp steps).2
  rw [StepsAt] at steps
  rw [Software.servoBus, steps, access]
  rfl

theorem StepsAt.acceptsWrite (steps : StepsAt parameters powerUp echo t) :
    ServomoteurAvalon.AcceptsWrite (servoWave parameters powerUp echo) t := by
  have bus : (servoWave parameters powerUp echo t).input = _ := steps.servoBus
  exact ⟨rfl, by rw [bus], by rw [bus]⟩

/-- The position is not written again before the distance is read. -/
theorem StepsAt.not_acceptsWrite (steps : StepsAt parameters powerUp echo t) {v : ℕ}
    (after : t < v) (before : v ≤ readEdge parameters t) :
    ¬ ServomoteurAvalon.AcceptsWrite (servoWave parameters powerUp echo) v := by
  rintro ⟨_, selected, _⟩
  obtain ⟨j, rfl⟩ := Nat.exists_eq_add_of_le (Nat.succ_le_of_lt after)
  rw [readEdge] at before
  have sleeping := steps.sleeps (j := j) (by omega)
  simp [servoWave, released, Software.servoBus, Software.accesses, sleeping] at selected

/-- The distance is read when the program has slept. -/
theorem StepsAt.reads (steps : StepsAt parameters powerUp echo t) :
    (run parameters powerUp echo (readEdge parameters t)).software =
      { (run parameters powerUp echo t).software with access := .readDistance, left := 0 } := by
  rw [readEdge, Nat.add_right_comm, steps.sleeps le_rfl, Nat.sub_self]

/-! ## What is read and printed -/

theorem telemetre_reading (parameters : Parameters) (powerUp : PowerUp) (echo : ℕ → Bool)
    (t : ℕ) :
    (run parameters powerUp echo t).telemetre.chipselect =
        (run parameters powerUp echo t).software.accesses .readDistance ∧
      (run parameters powerUp echo t).telemetre.readN =
        !(run parameters powerUp echo t).software.accesses .readDistance := by
  cases t with
  | zero => simp [run, System.start, PowerUp.telemetre, TelemetreUsAvalon.readProcess,
      Software.start, Software.accesses]
  | succ t => exact TelemetreUsAvalon.step_bus _ _

/-- A read returns the distance that the range finder shows at its edge. -/
theorem readdata_eq
    (reads : (run parameters powerUp echo t).software.accesses .readDistance = true) :
    (run parameters powerUp echo t).telemetre.readdata =
      0#22 ++ (TelemetreUs.process.trace (released echo) powerUp.telemeter t).distCm := by
  cases t with
  | zero => simp [run, System.start, Software.start, Software.accesses] at reads
  | succ t =>
      have idle := Software.not_reads_of_advance reads
      obtain ⟨chipselect, _⟩ := telemetre_reading parameters powerUp echo t
      obtain ⟨chipselect', readN'⟩ := telemetre_reading parameters powerUp echo (t + 1)
      have event : TelemetreUsAvalon.hasEvent (telemetreCycles parameters powerUp echo t)
          (TelemetreUsAvalon.simulate (telemetreCycles parameters powerUp echo)
            powerUp.telemetre t) = true := by
        rw [← telemetre_eq, TelemetreUsAvalon.hasEvent, chipselect, idle]
        simp [telemetreCycles, telemetreCycle, reads]
      have opened : (TelemetreUsAvalon.simulate (telemetreCycles parameters powerUp echo)
          powerUp.telemetre (t + 1)).reading = true := by
        rw [← telemetre_eq, TelemetreUsAvalon.Signals.reading, chipselect', readN', reads]
        rfl
      rw [telemetre_eq, TelemetreUsAvalon.readdata_of_event event opened, ← telemetre_eq,
        TelemetreUsAvalon.Signals.word, TelemetreUsAvalon.Signals.iDistCm, telemeter_eq]

/-- Each sweep step prints its angle with the distance at its read edge. -/
theorem StepsAt.prints (steps : StepsAt parameters powerUp echo t) :
    (run parameters powerUp echo (readEdge parameters t + 1)).software.printed =
      (run parameters powerUp echo t).software.printed ++
        [((run parameters powerUp echo t).software.i,
          0#22 ++ (TelemetreUs.process.trace (released echo) powerUp.telemeter
            (readEdge parameters t)).distCm)] := by
  have reads := steps.reads
  have distance := readdata_eq (Software.accesses_iff.mpr
    ⟨congrArg Software.left reads, congrArg Software.access reads⟩)
  rw [run_succ, System.advance, Software.advance, reads]
  simp only
  rw [distance]

end Radar
end FpgaRadar
