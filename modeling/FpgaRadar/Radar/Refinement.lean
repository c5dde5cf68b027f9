import FpgaRadar.Toplevel.Nios2Display

/-!
# The radar with its displays

With the stores of `printNumHex` among its accesses, `radar` does to the servo driver and to the
range finder what it does when printing a pair is one stretch of time.  So whatever holds of that
system holds of the one with the displays, with the time of the six stores counted in.
-/

namespace FpgaRadar
namespace Radar

open Vhdl Main Nios2TelemetreServoTop

/-- A call of `radar`, in which printing a pair takes the time of the line and of the stores. -/
def parametersOf (spent : Spent) (delay increment greeting : ℕ) : Parameters where
  delay := delay
  increment := increment
  greeting := greeting
  printTime n := spent n 6 + storeTime spent n 6

/-- The pair in a line. -/
def pairOf : Line → ℕ × BitVec 32
  | .distance word => (0, word)
  | .angle i => (i, 0)
  | .pair i word => (i, word)

/-- The program without its stores, which are part of the time before the next access. -/
def softwareOf (spent : Spent) (increment : ℕ) (master : Bus.Master Site) : Software :=
  match master.site.place with
  | .position =>
      { access := .writePosition
        left := master.left
        i := master.site.i
        distance := master.site.distance
        printed := master.site.console.map pairOf }
  | .read =>
      { access := .readDistance
        left := master.left
        i := master.site.i
        distance := master.site.distance
        printed := master.site.console.map pairOf }
  | .digit _ rest =>
      { access := if master.site.i + increment ≤ 180 then .writePosition else .writeHome
        left := master.left + storeTime spent (master.site.console.length - 1) (rest.length + 1)
        i := master.site.i + increment
        distance := master.site.distance
        printed := master.site.console.map pairOf }
  | _ =>
      { access := .writeHome
        left := master.left
        i := master.site.i
        distance := master.site.distance
        printed := master.site.console.map pairOf }

variable {spent : Spent} {delay increment greeting : ℕ} {master : Bus.Master Site}
  {word : BitVec 32}

theorem softwareOf_of_waiting (waiting : 0 < master.left) :
    softwareOf spent increment ((radar spent delay increment).advance word master) =
      (softwareOf spent increment master).advance
        (parametersOf spent delay increment greeting) word := by
  obtain ⟨⟨place, i, distance, console, numHex⟩, left⟩ := master
  obtain ⟨left, rfl⟩ := Nat.exists_eq_add_of_le' (Nat.succ_le_of_lt waiting)
  cases place with
  | digit iowr rest =>
      simp only [softwareOf, Bus.Program.advance, Nat.add_right_comm left 1]
      rfl
  | _ => rfl

theorem softwareOf_of_ready (ready : master.left = 0) (defined : master.site.place ≠ .undefined)
    (bound : master.site.place = .read → word.toNat < 1024) :
    softwareOf spent increment ((radar spent delay increment).advance word master) =
      (softwareOf spent increment master).advance
        (parametersOf spent delay increment greeting) word := by
  obtain ⟨⟨place, i, distance, console, numHex⟩, left⟩ := master
  obtain rfl : left = 0 := ready
  cases place with
  | position => rfl
  | read =>
      simp only [Bus.Program.advance, radar, toInt_of_lt (bound rfl)]
      rw [softwareOf, Site.printNumHex_place]
      simp [softwareOf, Software.advance, parametersOf, Site.printNumHex, Site.print, Site.read,
        pairOf]
      rfl
  | digit iowr rest =>
      cases rest with
      | nil =>
          simp only [Bus.Program.advance, radar, Site.endStep, softwareOf, List.length_nil,
            storeTime, Software.advance]
          split_ifs <;> simp
      | cons iowr rest =>
          simp only [Bus.Program.advance, radar, softwareOf, List.length_cons, storeTime,
            Software.advance, Nat.zero_add]
          rfl
  | home => rfl
  | undefined => exact absurd rfl defined

/-! ## The two systems -/

/-- The system without its displays. -/
def systemOf (spent : Spent) (increment : ℕ) (system : Nios2TelemetreServoTop.System) : System where
  software := softwareOf spent increment system.master
  servo := system.servo
  telemetre := system.telemetre

/-- What the two peripherals hold before their reset. -/
def powerUpOf (powerUp : Nios2TelemetreServoTop.PowerUp) : PowerUp where
  servo := powerUp.servo
  readdata := powerUp.readdata
  telemeter := powerUp.telemeter

/-- Both programs read at the same edges. -/
theorem softwareOf_reads (delay : ℕ) (master : Bus.Master Site) :
    (softwareOf spent increment master).accesses .readDistance =
      reads ((radar spent delay increment).accessOf master) := by
  obtain ⟨⟨place, i, distance, console, numHex⟩, left⟩ := master
  rw [Bool.eq_iff_iff, Software.accesses_iff, reads, decide_eq_true_iff, Bus.Program.accessOf]
  cases place with
  | digit iowr rest =>
      simp only [softwareOf, radar, Site.access]
      split_ifs <;> simp
  | _ => simp [softwareOf, radar, Site.access]

/-- And they write the same positions. -/
theorem softwareOf_writes (delay : ℕ) (defined : master.site.place ≠ .undefined)
    (servo : ServomoteurAvalon.Registers) :
    ServomoteurAvalon.clocked (softwareOf spent increment master).servoBus servo =
      ServomoteurAvalon.clocked
        (servoBus ((radar spent delay increment).accessOf master)) servo := by
  obtain ⟨⟨place, i, distance, console, numHex⟩, left⟩ := master
  rw [Bus.Program.accessOf]
  cases place with
  | digit iowr rest =>
      cases left <;>
        simp [softwareOf, storeTime, radar, Site.access, Software.servoBus, Software.accesses,
          servoBus, ServomoteurAvalon.clocked]
  | undefined => exact absurd rfl defined
  | _ =>
      cases left <;>
        simp [softwareOf, radar, Site.access, Software.servoBus, Software.accesses, servoBus,
          ServomoteurAvalon.clocked]

/-- Each edge of the system is one of the system without displays. -/
theorem systemOf_advance {system : Nios2TelemetreServoTop.System}
    (defined : system.master.site.place ≠ .undefined)
    (bound : system.master.left = 0 → system.master.site.place = .read →
      system.telemetre.readdata.toNat < 1024) (echo : Bool) :
    systemOf spent increment (system.advance (radar spent delay increment) echo) =
      (systemOf spent increment system).advance
        (parametersOf spent delay increment greeting) echo := by
  have software : softwareOf spent increment
      ((radar spent delay increment).advance system.telemetre.readdata system.master) =
        (softwareOf spent increment system.master).advance
          (parametersOf spent delay increment greeting) system.telemetre.readdata := by
    rcases Nat.eq_zero_or_pos system.master.left with ready | waiting
    · exact softwareOf_of_ready ready defined (bound ready)
    · exact softwareOf_of_waiting waiting
  rw [systemOf, Nios2TelemetreServoTop.System.advance, System.advance]
  simp only [systemOf, ← software, softwareOf_writes delay defined,
    Radar.telemetreCycle, Nios2TelemetreServoTop.telemetreCycle,
    softwareOf_reads delay]

/-- The system with the displays refines the one without.  Whatever the echo is and however long
the processor takes, a call of `radar` that makes the six stores of every number drives the servo
and reads the range finder, at every edge, as if printing a pair were a single stretch of time. -/
theorem radar_refines (spent : Spent) (delay increment greeting : ℕ)
    (powerUp : Nios2TelemetreServoTop.PowerUp) (echo : ℕ → Bool) (t : ℕ) :
    systemOf spent increment
        (runFunction spent (.radar delay increment) greeting powerUp echo t) =
      run (parametersOf spent delay increment greeting) (powerUpOf powerUp) echo t := by
  induction t with
  | zero =>
      have idle : reads ((radar spent delay increment).accessOf
          ((Function.radar delay increment).start greeting)) = false := by
        rw [← softwareOf_reads]
        simp [softwareOf, Function.start, Function.place, Site.start, Software.accesses]
      rw [run, System.start, PowerUp.telemetre, runFunction, Nios2TelemetreServoTop.run]
      simp only [systemOf, Nios2TelemetreServoTop.System.start,
        Nios2TelemetreServoTop.PowerUp.telemetre, Function.program, idle]
      rfl
  | succ t induction =>
      have displaying := displaying_radar spent delay increment
      have displayed := displaying.displayed
        (start_resting (.radar delay increment) greeting) rfl powerUp echo t
      rw [run_succ, ← induction]
      exact systemOf_advance displayed.defined
        (fun ready reading => displaying.words_lt ready reading) (echo t)

end Radar
end FpgaRadar
