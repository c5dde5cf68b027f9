import FpgaRadar.AvalonSevenSegment.PrintNumHex
import FpgaRadar.Bus.Program
import FpgaRadar.Radar.System

/-!
# The three functions of the program

This file embeds `telemetre_us`, `servomoteur` and `radar` of `main.c` as programs seen from the
bus, with the stores of `printNumHex` among their accesses.  `usleep` takes its time, and what the
processor takes to compute and to print is a parameter.
-/

namespace FpgaRadar
namespace Main

open AvalonSevenSegment Radar

/-- The bus accesses of the functions. -/
inductive Access
  /-- `IOWR(AVALON_SERVOMOTEUR_0_BASE, 0, word)` -/
  | iowrServomoteur (word : BitVec 32)
  /-- `IORD(AVALON_TELEMETRE_US_0_BASE, 0)` -/
  | iordTelemetreUs
  /-- `IOWR_ALTERA_AVALON_PIO_DATA(AVALON_SEVEN_SEGMENT_0_BASE + offset, data)` -/
  | iowrSevenSegment (iowr : Iowr)
  deriving DecidableEq

/-- The lines that the functions print on the console. -/
inductive Line
  /-- `printf("%3dcm\n", distance)` -/
  | distance (word : BitVec 32)
  /-- `printf("%3d°\n", i)` -/
  | angle (i : ℕ)
  /-- `printf("%3d° > %3dcm\n", i, distance)` -/
  | pair (i : ℕ) (word : BitVec 32)
  deriving DecidableEq

/-- The number that `printNumHex` puts on the displays beside a line. -/
def Line.number : Line → ℕ
  | .distance word => word.toNat
  | .angle i => i
  | .pair _ word => word.toNat

/-- The places of the bus accesses. -/
inductive Place
  /-- The `IOWR` of the position in the `for` loop. -/
  | position
  /-- The `IORD` of the distance. -/
  | read
  /-- A store of `printNumHex`, and those that are still to come. -/
  | digit (iowr : Iowr) (rest : List Iowr)
  /-- The `IOWR` after the `for` loop. -/
  | home
  /-- What follows an index outside of the table of `printNumHex`. -/
  | undefined
  deriving DecidableEq

/-- A place with the variables and the console as they are at its access. -/
structure Site where
  /-- The place. -/
  place : Place
  /-- The angle. -/
  i : ℕ
  /-- The last distance read. -/
  distance : BitVec 32
  /-- The lines printed by then. -/
  console : List Line
  /-- The argument of the last call of `printNumHex`. -/
  numHex : Option ℤ
  deriving DecidableEq

namespace Site

/-- The access of a site. -/
def access (site : Site) : Option Access :=
  match site.place with
  | .position => some (.iowrServomoteur (positionWord site.i))
  | .read => some .iordTelemetreUs
  | .digit iowr _ => some (.iowrSevenSegment iowr)
  | .home => some (.iowrServomoteur 0)
  | .undefined => none

/-- `distance = word` -/
def read (word : BitVec 32) (site : Site) : Site := { site with distance := word }

/-- `printf` of a line. -/
def print (line : Line) (site : Site) : Site := { site with console := site.console ++ [line] }

/-- `printNumHex(num)` -/
def printNumHex (num : ℤ) (site : Site) : Site :=
  { site with
    place :=
      match AvalonSevenSegment.printNumHex num with
      | some (iowr :: rest) => .digit iowr rest
      | _ => .undefined
    numHex := some num }

/-- `i+=increment`, and the condition of the `for` loop. -/
def endStep (increment : ℕ) (site : Site) : Site :=
  { site with
    place := if site.i + increment ≤ 180 then .position else .home
    i := site.i + increment }

/-- `int i = 0` -/
def startSweep (site : Site) : Site := { site with place := .position, i := 0 }

/-- The beginning of a function. -/
def start (place : Place) : Site where
  place := place
  i := 0
  distance := 0
  console := []
  numHex := none

end Site

/-- How long the processor computes and prints in the `n`-th round of a loop when `r` stores of
`printNumHex` are still to come. -/
abbrev Spent := ℕ → ℕ → ℕ

/-- The edges from the first of the last `r` stores of a round to the access that follows them. -/
def storeTime (spent : Spent) (n : ℕ) : ℕ → ℕ
  | 0 => 0
  | r + 1 => spent n r + storeTime spent n r + 1

/-- `telemetre_us(delay)` -/
def telemetreUs (spent : Spent) : Bus.Program Site Access (BitVec 32) where
  access := Site.access
  next site word :=
    match site.place with
    | .read => ((site.read word).print (Line.distance word)).printNumHex word.toInt
    | .digit _ (iowr :: rest) => { site with place := .digit iowr rest }
    | .digit _ [] => { site with place := .read }
    | .undefined => site
    | _ => { site with place := .read } -- this function has no other place
  wait site :=
    match site.place with
    | .read => spent site.console.length 6
    | .digit _ rest => spent (site.console.length - 1) rest.length
    | _ => 0

/-- `servomoteur(delay, increment)` -/
def servomoteur (spent : Spent) (delay increment : ℕ) : Bus.Program Site Access (BitVec 32) where
  access := Site.access
  next site _ :=
    match site.place with
    | .position => site.printNumHex site.i
    | .digit _ (iowr :: rest) => { site with place := .digit iowr rest }
    | .digit _ [] => (site.print (Line.angle site.i)).endStep increment
    | .undefined => site
    | _ => site.startSweep -- `home` is the only other place of this function
  wait site :=
    match site.place with
    | .position => spent site.console.length 6
    | .digit _ (iowr :: rest) => spent site.console.length (iowr :: rest).length
    | .digit _ [] => spent site.console.length 0 + edgesPerUs * delay
    | .home => edgesPerUs * 300000
    | _ => 0

/-- `radar(delay, increment)` -/
def radar (spent : Spent) (delay increment : ℕ) : Bus.Program Site Access (BitVec 32) where
  access := Site.access
  next site word :=
    match site.place with
    | .position => { site with place := .read }
    | .read => ((site.read word).print (Line.pair site.i word)).printNumHex word.toInt
    | .digit _ (iowr :: rest) => { site with place := .digit iowr rest }
    | .digit _ [] => site.endStep increment
    | .home => site.startSweep
    | .undefined => site
  wait site :=
    match site.place with
    | .position => edgesPerUs * delay
    | .read => spent site.console.length 6
    | .digit _ rest => spent (site.console.length - 1) rest.length
    | .home => edgesPerUs * 300000
    | .undefined => 0

/-! ## What the programs have in common -/

namespace Site

/-- No store of `printNumHex` is pending. -/
def Resting (site : Site) : Prop :=
  match site.place with
  | .digit _ _ => False
  | .undefined => False
  | _ => True

/-- What an access leads to.  A pending store is followed by the next one of the same call; the
other accesses and the last store are followed by a place outside of `printNumHex`, or by its first
store for a number that it can encode. -/
def Follows (site site' : Site) : Prop :=
  match site.place with
  | .digit _ (iowr :: rest) => site' = { site with place := .digit iowr rest }
  | .undefined => True
  | _ => site'.Resting ∧ site'.numHex = site.numHex ∨
      ∃ (num : ℕ) (before : Site), site' = before.printNumHex num

/-- The stores of a call. -/
theorem printNumHex_place (num : ℕ) (site : Site) :
    (site.printNumHex num).place =
      .digit (digitStore num 0) ((List.range' 1 5).map (digitStore num)) := by
  rw [printNumHex, printNumHex_eq]
  rfl

/-- A call does not begin with a read. -/
theorem printNumHex_access (num : ℤ) (site : Site) :
    (site.printNumHex num).access ≠ some .iordTelemetreUs := by
  rw [access, printNumHex]
  cases AvalonSevenSegment.printNumHex num with
  | none => simp
  | some iowrs => cases iowrs <;> simp

theorem access_eq_read_iff (site : Site) :
    site.access = some .iordTelemetreUs ↔ site.place = .read := by
  obtain ⟨place, i, distance, console, numHex⟩ := site
  cases place <;> simp [access]

theorem endStep_resting (increment : ℕ) (site : Site) : (site.endStep increment).Resting := by
  rw [Resting, endStep]
  split_ifs <;> trivial

end Site

variable {spent : Spent} {delay increment : ℕ} {word : BitVec 32}

/-- A word that stands for a natural number. -/
theorem toInt_of_lt (bound : word.toNat < 1024) : word.toInt = word.toNat :=
  BitVec.toInt_eq_toNat_of_lt (by omega)

theorem telemetreUs_follows (site : Site) (bound : site.place = .read → word.toNat < 1024) :
    site.Follows ((telemetreUs spent).next site word) := by
  obtain ⟨place, i, distance, console, numHex⟩ := site
  cases place with
  | position => exact Or.inl ⟨trivial, rfl⟩
  | read =>
      refine Or.inr ⟨word.toNat, Site.print (.distance word)
        (Site.read word { place := .read, i, distance, console, numHex }), ?_⟩
      rw [← toInt_of_lt (bound rfl)]
      rfl
  | digit iowr rest =>
      cases rest with
      | nil => exact Or.inl ⟨trivial, rfl⟩
      | cons iowr rest => rfl
  | home => exact Or.inl ⟨trivial, rfl⟩
  | undefined => trivial

theorem servomoteur_follows (site : Site) :
    site.Follows ((servomoteur spent delay increment).next site word) := by
  obtain ⟨place, i, distance, console, numHex⟩ := site
  cases place with
  | position => exact Or.inr ⟨i, _, rfl⟩
  | read => exact Or.inl ⟨trivial, rfl⟩
  | digit iowr rest =>
      cases rest with
      | nil => exact Or.inl ⟨Site.endStep_resting _ _, rfl⟩
      | cons iowr rest => rfl
  | home => exact Or.inl ⟨trivial, rfl⟩
  | undefined => trivial

theorem radar_follows (site : Site) (bound : site.place = .read → word.toNat < 1024) :
    site.Follows ((radar spent delay increment).next site word) := by
  obtain ⟨place, i, distance, console, numHex⟩ := site
  cases place with
  | position => exact Or.inl ⟨trivial, rfl⟩
  | read =>
      refine Or.inr ⟨word.toNat, Site.print (.pair i word)
        (Site.read word { place := .read, i, distance, console, numHex }), ?_⟩
      rw [← toInt_of_lt (bound rfl)]
      rfl
  | digit iowr rest =>
      cases rest with
      | nil => exact Or.inl ⟨Site.endStep_resting _ _, rfl⟩
      | cons iowr rest => rfl
  | home => exact Or.inl ⟨trivial, rfl⟩
  | undefined => trivial

/-! ## Which function runs -/

/-- The functions among which `main` chooses. -/
inductive Function
  /-- `telemetre_us(delay)`, which does not use its argument -/
  | telemetreUs
  /-- `servomoteur(delay, increment)` -/
  | servomoteur (delay increment : ℕ)
  /-- `radar(delay, increment)` -/
  | radar (delay increment : ℕ)

namespace Function

/-- The program of a function. -/
def program (spent : Spent) : Function → Bus.Program Site Access (BitVec 32)
  | .telemetreUs => Main.telemetreUs spent
  | .servomoteur delay increment => Main.servomoteur spent delay increment
  | .radar delay increment => Main.radar spent delay increment

/-- The place of its first access. -/
def place : Function → Place
  | .telemetreUs => .read
  | .servomoteur _ _ => .position
  | .radar _ _ => .position

/-- The machine when `main` has printed its greeting, which takes some edges. -/
def start (function : Function) (greeting : ℕ) : Bus.Master Site where
  site := Site.start function.place
  left := greeting

end Function

end Main
end FpgaRadar
