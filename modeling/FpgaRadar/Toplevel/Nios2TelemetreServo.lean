import FpgaRadar.Software.Main

/-!
# A program and its three peripherals

This file embeds `nios2_telemetre_servo_top.vhd`: a program of `main.c` with `servomoteur_avalon`,
`telemetre_us_avalon` and `avalon_seven_segment` on one clock, each of its accesses acting at one
edge.  The servo driver and the range finder run as they do alone, on what the program makes of
their bus ports.
-/

namespace FpgaRadar
namespace Nios2TelemetreServoTop

open Vhdl Main

/-- The signals of the servo driver's bus port. -/
def servoBus (access : Option Access) : ServomoteurAvalon.Bus :=
  match access with
  | some (.iowrServomoteur word) => { chipselect := true, writeN := false, writedata := word }
  | _ => { chipselect := false, writeN := true, writedata := 0 }

/-- The signals of the displays' bus port. -/
def sevenSegmentBus (access : Option Access) : AvalonSevenSegment.Bus :=
  match access with
  | some (.iowrSevenSegment iowr) => iowr.request
  | _ => AvalonSevenSegment.idleBus

/-- The distance is read. -/
def reads (access : Option Access) : Bool := decide (access = some .iordTelemetreUs)

/-- What an edge and the access after it bring to the range finder. -/
def telemetreCycle (access : Option Access) (echo : Bool) : TelemetreUsAvalon.Cycle where
  chipselect := reads access
  readN := !reads access
  rstN := true
  risingEdge := true
  echo := echo

/-- The whole system between two edges. -/
structure System where
  /-- The processor. -/
  master : Bus.Master Site
  /-- The servo driver. -/
  servo : ServomoteurAvalon.Registers
  /-- The range finder. -/
  telemetre : TelemetreUsAvalon.Signals
  /-- The displays. -/
  display : AvalonSevenSegment.Registers

/-- One edge of the clock. -/
def System.advance (program : Bus.Program Site Access (BitVec 32)) (echo : Bool)
    (system : System) : System :=
  let master := program.advance system.telemetre.readdata system.master
  { master := master
    servo := ServomoteurAvalon.clocked (servoBus (program.accessOf system.master)) system.servo
    telemetre :=
      TelemetreUsAvalon.step (telemetreCycle (program.accessOf master) echo) system.telemetre
    display :=
      AvalonSevenSegment.clocked (sevenSegmentBus (program.accessOf system.master))
        system.display }

/-- What the peripherals hold before their reset. -/
structure PowerUp where
  /-- The servo driver. -/
  servo : ServomoteurAvalon.Registers
  /-- The read port of the range finder. -/
  readdata : BitVec 32
  /-- The range finder. -/
  telemeter : TelemetreUs.Registers
  /-- The displays. -/
  display : AvalonSevenSegment.Registers

/-- The values that a simulation starts from. -/
def uninitialised : PowerUp where
  servo := ServomoteurAvalon.uninitialised
  readdata := 0
  telemeter := TelemetreUs.uninitialised
  display := AvalonSevenSegment.blank

/-- The range finder's signals when the reset is released. -/
def PowerUp.telemetre (powerUp : PowerUp) (access : Option Access) :
    TelemetreUsAvalon.Signals where
  chipselect := reads access
  readN := !reads access
  readdata := powerUp.readdata
  telemeter := TelemetreUs.reset powerUp.telemeter

/-- The system when the reset is released. -/
def System.start (program : Bus.Program Site Access (BitVec 32)) (start : Bus.Master Site)
    (powerUp : PowerUp) : System where
  master := start
  servo := ServomoteurAvalon.reset powerUp.servo
  telemetre := TelemetreUsAvalon.readProcess (powerUp.telemetre (program.accessOf start))
  display := AvalonSevenSegment.reset powerUp.display

/-- The system after `t` edges. -/
def run (program : Bus.Program Site Access (BitVec 32)) (start : Bus.Master Site)
    (powerUp : PowerUp) (echo : ℕ → Bool) : ℕ → System
  | 0 => System.start program start powerUp
  | t + 1 => (run program start powerUp echo t).advance program (echo t)

/-- The system when `main` calls a function. -/
def runFunction (spent : Spent) (function : Function) (greeting : ℕ) (powerUp : PowerUp)
    (echo : ℕ → Bool) : ℕ → System :=
  run (function.program spent) (function.start greeting) powerUp echo

section Components

variable (program : Bus.Program Site Access (BitVec 32)) (start : Bus.Master Site)
  (powerUp : PowerUp) (echo : ℕ → Bool)

theorem run_succ (t : ℕ) :
    run program start powerUp echo (t + 1) =
      (run program start powerUp echo t).advance program (echo t) := rfl

/-- The word on the read port at an edge. -/
def words (t : ℕ) : BitVec 32 := (run program start powerUp echo t).telemetre.readdata

/-- The access made at an edge. -/
def accesses (t : ℕ) : Option Access :=
  program.accessOf (run program start powerUp echo t).master

/-- The processor executes the program. -/
theorem master_eq (t : ℕ) :
    (run program start powerUp echo t).master =
      program.run (words program start powerUp echo) start t := by
  induction t with
  | zero => rfl
  | succ t induction =>
      rw [Bus.Program.run_succ, ← induction]
      rfl

/-- The waveform on the servo driver's bus port. -/
def servoWave : ℕ → Period ServomoteurAvalon.Bus :=
  released fun t => servoBus (accesses program start powerUp echo t)

theorem servo_eq (t : ℕ) :
    (run program start powerUp echo t).servo =
      ServomoteurAvalon.process.trace (servoWave program start powerUp echo) powerUp.servo t := by
  induction t with
  | zero => rfl
  | succ t induction =>
      rw [ServomoteurAvalon.trace_step _ _ ⟨rfl, rfl⟩, ← induction]
      rfl

theorem telemeter_eq (t : ℕ) :
    (run program start powerUp echo t).telemetre.telemeter =
      TelemetreUs.process.trace (released echo) powerUp.telemeter t := by
  induction t with
  | zero => exact TelemetreUsAvalon.readProcess_telemeter _
  | succ t induction =>
      rw [run_succ, System.advance, TelemetreUsAvalon.step_telemeter, induction,
        ClockedProcess.trace_succ, ClockedProcess.edge_of_quiet _ ⟨rfl, rfl⟩]
      rfl

/-- The simulation cycles of the range finder. -/
def telemetreCycles (t : ℕ) : TelemetreUsAvalon.Cycle :=
  telemetreCycle (accesses program start powerUp echo (t + 1)) (echo t)

theorem telemetre_eq (t : ℕ) :
    (run program start powerUp echo t).telemetre =
      TelemetreUsAvalon.simulate (telemetreCycles program start powerUp echo)
        (powerUp.telemetre (program.accessOf start)) t := by
  induction t with
  | zero => rfl
  | succ t induction =>
      rw [TelemetreUsAvalon.simulate, ← induction]
      rfl

/-- The read port is selected at the edges at which the program reads. -/
theorem telemetre_bus (t : ℕ) :
    (run program start powerUp echo t).telemetre.chipselect =
        reads (accesses program start powerUp echo t) ∧
      (run program start powerUp echo t).telemetre.readN =
        !reads (accesses program start powerUp echo t) := by
  cases t with
  | zero =>
      change (TelemetreUsAvalon.readProcess _).chipselect = _ ∧
        (TelemetreUsAvalon.readProcess _).readN = _
      rw [TelemetreUsAvalon.readProcess]
      split_ifs <;> exact ⟨rfl, rfl⟩
  | succ t =>
      rw [telemetre_eq]
      exact TelemetreUsAvalon.step_bus _ _

end Components

/-- No read of the program is followed by another one right away. -/
def ReadsApart (program : Bus.Program Site Access (BitVec 32)) : Prop :=
  ∀ site word, program.access site = some .iordTelemetreUs →
    program.access (program.next site word) ≠ some .iordTelemetreUs

variable {program : Bus.Program Site Access (BitVec 32)} {start : Bus.Master Site}
  {powerUp : PowerUp} {echo : ℕ → Bool} {t : ℕ}

/-- A read is not made at two edges in a row. -/
theorem ReadsApart.idle_before (apart : ReadsApart program)
    (read : accesses program start powerUp echo (t + 1) = some .iordTelemetreUs) :
    reads (accesses program start powerUp echo t) = false := by
  rw [reads, decide_eq_false_iff_not]
  intro also
  obtain ⟨ready, access⟩ := Bus.Program.ready_of_accessOf also
  have advanced : (run program start powerUp echo (t + 1)).master = _ :=
    Bus.Program.advance_of_ready ready
  have second := (Bus.Program.ready_of_accessOf read).2
  rw [advanced] at second
  exact apart _ _ access second

/-- A read returns the distance that the range finder shows at its edge. -/
theorem ReadsApart.words_eq (apart : ReadsApart program)
    (read : accesses program start powerUp echo t = some .iordTelemetreUs) :
    words program start powerUp echo t =
      0#22 ++ (TelemetreUs.process.trace (released echo) powerUp.telemeter t).distCm := by
  have selected : reads (accesses program start powerUp echo t) = true := decide_eq_true read
  obtain ⟨chipselect, readN⟩ := telemetre_bus program start powerUp echo t
  have opened : (run program start powerUp echo t).telemetre.reading = true := by
    rw [TelemetreUsAvalon.Signals.reading, chipselect, readN, selected]
    rfl
  rw [← telemeter_eq program start, words]
  cases t with
  | zero =>
      have selected_start : reads (program.accessOf start) = true := selected
      simp [run, System.start, PowerUp.telemetre, TelemetreUsAvalon.readProcess, selected_start,
        TelemetreUsAvalon.Signals.word, TelemetreUsAvalon.Signals.iDistCm]
  | succ t =>
      have idle := apart.idle_before read
      have event : TelemetreUsAvalon.hasEvent (telemetreCycles program start powerUp echo t)
          (TelemetreUsAvalon.simulate (telemetreCycles program start powerUp echo)
            (powerUp.telemetre (program.accessOf start)) t) = true := by
        rw [← telemetre_eq, TelemetreUsAvalon.hasEvent,
          (telemetre_bus program start powerUp echo t).1, idle, telemetreCycles, telemetreCycle,
          selected]
        rfl
      rw [telemetre_eq] at opened ⊢
      exact TelemetreUsAvalon.readdata_of_event event opened

end Nios2TelemetreServoTop
end FpgaRadar
