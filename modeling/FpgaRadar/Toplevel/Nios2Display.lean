import FpgaRadar.Software.Lines
import FpgaRadar.Toplevel.Nios2TelemetreServo

/-!
# What the displays show while a program runs

Whatever the echo is and however long the processor takes, the displays hold the number of the last
call of `printNumHex` at every edge at which no store of a call is pending.  The distances that are
read are natural numbers, so no call leaves its table.
-/

namespace FpgaRadar
namespace Nios2TelemetreServoTop

open Vhdl Main AvalonSevenSegment

/-- What the three programs have in common. -/
structure Displaying (program : Bus.Program Site Access (BitVec 32)) : Prop where
  /-- They make the accesses of their sites. -/
  access : program.access = Site.access
  /-- They do not read twice in a row. -/
  apart : ReadsApart program
  /-- Each access is followed by what may follow it, if it reads a distance. -/
  follows : ∀ (site : Site) (word : BitVec 32), (site.place = .read → word.toNat < 1024) →
    site.Follows (program.next site word)

/-- The displays hold the lowest `k` digits of a number. -/
def HoldsBelow (num k : ℕ) (display : Registers) : Prop :=
  ∀ j : Fin 6, (j : ℕ) < k → display.output j = ~~~segmentCode (digit num j)

/-- The displays are in step with the program. -/
def Displayed (site : Site) (display : Registers) : Prop :=
  match site.place with
  | .digit iowr rest => ∃ num k : ℕ, k < 6 ∧ site.numHex = some (num : ℤ) ∧
      iowr :: rest = (List.range' k (6 - k)).map (digitStore num) ∧ HoldsBelow num k display
  | .undefined => False
  | _ => site.numHex = none ∧ display = blank ∨
      ∃ num : ℕ, site.numHex = some (num : ℤ) ∧ HoldsBelow num 6 display

variable {program : Bus.Program Site Access (BitVec 32)} {start : Bus.Master Site}
  {powerUp : PowerUp} {echo : ℕ → Bool} {site site' : Site} {display : Registers} {num k t : ℕ}
  {iowr : Iowr} {rest : List Iowr}

/-! ## One access -/

theorem displayed_of_resting (resting : site.Resting)
    (shown : site.numHex = none ∧ display = blank ∨
      ∃ num : ℕ, site.numHex = some (num : ℤ) ∧ HoldsBelow num 6 display) :
    Displayed site display := by
  cases place : site.place with
  | digit iowr rest =>
      rw [Site.Resting, place] at resting
      exact resting.elim
  | undefined =>
      rw [Site.Resting, place] at resting
      exact resting.elim
  | _ =>
      rw [Displayed, place]
      exact shown

theorem Displayed.of_resting (displayed : Displayed site display) (resting : site.Resting) :
    site.numHex = none ∧ display = blank ∨
      ∃ num : ℕ, site.numHex = some (num : ℤ) ∧ HoldsBelow num 6 display := by
  cases place : site.place with
  | digit iowr rest =>
      rw [Site.Resting, place] at resting
      exact resting.elim
  | undefined =>
      rw [Site.Resting, place] at resting
      exact resting.elim
  | _ =>
      rw [Displayed, place] at displayed
      exact displayed

theorem Displayed.defined (displayed : Displayed site display) : site.place ≠ .undefined := by
  intro undefined
  rw [Displayed, undefined] at displayed
  exact displayed

/-- The first store of a call is still to come. -/
theorem displayed_printNumHex (num : ℕ) (site : Site) (display : Registers) :
    Displayed (site.printNumHex num) display := by
  rw [Displayed, Site.printNumHex_place]
  refine ⟨num, 0, by norm_num, rfl, rfl, ?_⟩
  intro j below
  exact absurd below (Nat.not_lt_zero _)

/-- The store of a digit adds it to those that the displays hold. -/
theorem HoldsBelow.store (holds : HoldsBelow num k display) (bound : k < 6) :
    HoldsBelow num (k + 1) (clocked (digitStore num k).request display) := by
  intro j below
  have stored := stores_of_selects (digitStore_selects num) ⟨k, bound⟩ display
  change (clocked (digitStore num k).request display).output = _ at stored
  rw [stored]
  rcases (Nat.lt_succ_iff.mp below).eq_or_lt with equal | earlier
  · obtain rfl : j = ⟨k, bound⟩ := Fin.ext equal
    rw [Function.update_self]
    exact digitStore_segments num ⟨k, bound⟩
  · rw [Function.update_of_ne (Fin.ne_of_lt earlier)]
    exact holds j earlier

/-- Each access keeps the displays in step. -/
theorem Displayed.next (displayed : Displayed site display) (follows : site.Follows site') :
    Displayed site' (clocked (sevenSegmentBus site.access) display) := by
  obtain ⟨place, i, distance, console, numHex⟩ := site
  cases place with
  | digit iowr rest =>
      obtain ⟨num, k, bound, numHex_eq, pending, holds⟩ := displayed
      obtain ⟨length, length_eq⟩ : ∃ length, 6 - k = length + 1 := ⟨5 - k, by omega⟩
      rw [length_eq, List.range'_succ, List.map_cons, List.cons.injEq] at pending
      obtain ⟨rfl, rfl⟩ := pending
      have stored := holds.store bound
      cases length with
      | zero =>
          obtain rfl : k = 5 := by omega
          rcases follows with ⟨resting, same⟩ | ⟨num', before, rfl⟩
          · exact displayed_of_resting resting (Or.inr ⟨num, same.trans numHex_eq, stored⟩)
          · exact displayed_printNumHex num' before _
      | succ length =>
          rw [List.range'_succ, List.map_cons] at follows
          obtain rfl := follows
          refine ⟨num, k + 1, by omega, numHex_eq, ?_, stored⟩
          rw [show 6 - (k + 1) = length + 1 by omega, List.range'_succ]
          rfl
  | undefined => exact displayed.elim
  | position =>
      rcases follows with ⟨resting, same⟩ | ⟨num, before, rfl⟩
      · exact displayed_of_resting resting (same ▸ displayed)
      · exact displayed_printNumHex num before _
  | read =>
      rcases follows with ⟨resting, same⟩ | ⟨num, before, rfl⟩
      · exact displayed_of_resting resting (same ▸ displayed)
      · exact displayed_printNumHex num before _
  | home =>
      rcases follows with ⟨resting, same⟩ | ⟨num, before, rfl⟩
      · exact displayed_of_resting resting (same ▸ displayed)
      · exact displayed_printNumHex num before _

/-! ## A run -/

/-- The distances that are read have ten bits. -/
theorem Displaying.words_lt (displaying : Displaying program)
    (ready : (run program start powerUp echo t).master.left = 0)
    (reading : (run program start powerUp echo t).master.site.place = .read) :
    (words program start powerUp echo t).toNat < 1024 := by
  have read : accesses program start powerUp echo t = some .iordTelemetreUs := by
    rw [accesses, Bus.Program.accessOf_of_ready ready, displaying.access, Site.access, reading]
  rw [displaying.apart.words_eq read, BitVec.toNat_append]
  simpa using (TelemetreUs.process.trace (released echo) powerUp.telemeter t).distCm.isLt

/-- The displays are in step at every edge. -/
theorem Displaying.displayed (displaying : Displaying program) (resting : start.site.Resting)
    (fresh : start.site.numHex = none) (powerUp : PowerUp) (echo : ℕ → Bool) (t : ℕ) :
    Displayed (run program start powerUp echo t).master.site
      (run program start powerUp echo t).display := by
  induction t with
  | zero => exact displayed_of_resting resting (Or.inl ⟨fresh, rfl⟩)
  | succ t induction =>
      rw [run_succ, System.advance]
      rcases Nat.eq_zero_or_pos (run program start powerUp echo t).master.left with
        ready | waiting
      · rw [Bus.Program.advance_of_ready ready, Bus.Program.accessOf_of_ready ready,
          displaying.access]
        exact induction.next
          (displaying.follows _ _ fun reading => displaying.words_lt ready reading)
      · rw [Bus.Program.advance_of_waiting waiting, Bus.Program.accessOf_of_waiting waiting]
        exact induction

/-! ## The three functions -/

theorem displaying_telemetreUs (spent : Spent) : Displaying (telemetreUs spent) where
  access := rfl
  apart site word reading := by
    have place := (Site.access_eq_read_iff site).mp reading
    change Site.access ((telemetreUs spent).next site word) ≠ _
    rw [telemetreUs]
    simp only [place]
    exact Site.printNumHex_access _ _
  follows site _ := telemetreUs_follows site

theorem displaying_servomoteur (spent : Spent) (delay increment : ℕ) :
    Displaying (servomoteur spent delay increment) where
  access := rfl
  apart site word reading := by
    have place := (Site.access_eq_read_iff site).mp reading
    change Site.access ((servomoteur spent delay increment).next site word) ≠ _
    rw [servomoteur]
    simp [place, Site.startSweep, Site.access]
  follows site _ _ := servomoteur_follows site

theorem displaying_radar (spent : Spent) (delay increment : ℕ) :
    Displaying (radar spent delay increment) where
  access := rfl
  apart site word reading := by
    have place := (Site.access_eq_read_iff site).mp reading
    change Site.access ((radar spent delay increment).next site word) ≠ _
    rw [radar]
    simp only [place]
    exact Site.printNumHex_access _ _
  follows site _ := radar_follows site

theorem displaying_program (spent : Spent) (function : Function) :
    Displaying (function.program spent) := by
  cases function with
  | telemetreUs => exact displaying_telemetreUs spent
  | servomoteur delay increment => exact displaying_servomoteur spent delay increment
  | radar delay increment => exact displaying_radar spent delay increment

/-- What has been printed is in step with the calls of `printNumHex`. -/
theorem announces_of_resting (spent : Spent) (function : Function) (greeting : ℕ)
    (powerUp : PowerUp) (echo : ℕ → Bool) (t : ℕ)
    (resting : (runFunction spent function greeting powerUp echo t).master.site.Resting) :
    (runFunction spent function greeting powerUp echo t).master.site.Announces := by
  have bound : ∀ t, (runFunction spent function greeting powerUp echo t).master.left = 0 →
      (runFunction spent function greeting powerUp echo t).master.site.place = .read → _ :=
    fun t => (displaying_program spent function).words_lt
  simp only [runFunction, master_eq] at resting bound ⊢
  cases function with
  | telemetreUs =>
      exact Bus.Program.site_invariant (Site.announces_start .read)
        (fun t ready announces => telemetreUs_announces announces (bound t ready)) t
  | servomoteur delay increment =>
      refine Site.AnnouncesLate.announces ?_ resting
      exact Bus.Program.site_invariant Site.announcesLate_start
        (fun t _ announces => servomoteur_announces announces) t
  | radar delay increment =>
      exact Bus.Program.site_invariant (Site.announces_start .position)
        (fun t ready announces => radar_announces announces (bound t ready)) t

/-- The reset lights all segments. -/
theorem shown_blank : blank.shown = some 888888 := by
  decide

theorem start_resting (function : Function) (greeting : ℕ) :
    (function.start greeting).site.Resting := by
  cases function <;> trivial

/-- The displays show what is printed.  Whatever the echo is and however long the processor takes,
no function ever leaves the table of `printNumHex`.  Whenever no store of a call is pending, the
displays show the number in the last line, or what the reset has left before the first one; in
`servomoteur`, which prints a line only after it has slept, this is so at the edges of the accesses
and not in between. -/
theorem displays_show_last_line (spent : Spent) (function : Function) (greeting : ℕ)
    (powerUp : PowerUp) (echo : ℕ → Bool) (t : ℕ) :
    (runFunction spent function greeting powerUp echo t).master.site.place ≠ .undefined ∧
      ((runFunction spent function greeting powerUp echo t).master.site.Resting →
        ((∃ delay increment, function = .servomoteur delay increment) →
          (runFunction spent function greeting powerUp echo t).master.left = 0) →
        (runFunction spent function greeting powerUp echo t).display.shown =
          some (((runFunction spent function greeting powerUp echo
            t).master.site.console.getLast?.map Line.number).getD 888888)) := by
  have displayed : Displayed (runFunction spent function greeting powerUp echo t).master.site
      (runFunction spent function greeting powerUp echo t).display :=
    (displaying_program spent function).displayed (start_resting function greeting) rfl powerUp
      echo t
  constructor
  · exact displayed.defined
  · intro resting _
    have announces := announces_of_resting spent function greeting powerUp echo t resting
    generalize (runFunction spent function greeting powerUp echo t).master.site = site at *
    rcases displayed.of_resting resting with ⟨uncalled, display⟩ | ⟨num, called, holds⟩
    · rw [display, shown_blank, announces.2.eq_none uncalled]
      rfl
    · obtain ⟨line, last, number, small⟩ := announces.exists_line called
      rw [last, shown_of_output fun j => holds j j.isLt, Nat.mod_eq_of_lt (by omega), ← number]
      rfl

end Nios2TelemetreServoTop
end FpgaRadar
