import FpgaRadar.Software.Main

/-!
# Lines and displays

Each of the three functions prints a number in a line and calls `printNumHex` with it.  `radar` and
`telemetre_us` print the line first and `servomoteur` calls first, so the two agree whenever no
store of a call is pending.
-/

namespace FpgaRadar
namespace Main

variable {spent : Spent} {delay increment : ℕ} {word : BitVec 32}

namespace Site

/-- The last call of `printNumHex` was for the last line. -/
def ShowsLastLine (site : Site) : Prop :=
  site.numHex = site.console.getLast?.map fun line => (line.number : ℤ)

/-- The lines have small numbers, and the displays are given the last of them. -/
def Announces (site : Site) : Prop :=
  (∀ line ∈ site.console, line.number < 1024) ∧ site.ShowsLastLine

/-- The same for `servomoteur`, which calls `printNumHex` before it prints the line. -/
def AnnouncesLate (site : Site) : Prop :=
  (∀ line ∈ site.console, line.number < 1024) ∧
    match site.place with
    | .position => site.i ≤ 180 ∧ site.ShowsLastLine
    | .digit _ _ => site.i ≤ 180 ∧ site.numHex = some (site.i : ℤ)
    | _ => site.ShowsLastLine

theorem AnnouncesLate.announces {site : Site} (announces : site.AnnouncesLate)
    (resting : site.Resting) : site.Announces := by
  obtain ⟨place, i, distance, console, numHex⟩ := site
  obtain ⟨small, shows⟩ := announces
  cases place with
  | position => exact ⟨small, shows.2⟩
  | digit iowr rest => exact resting.elim
  | undefined => exact resting.elim
  | _ => exact ⟨small, shows⟩

theorem ShowsLastLine.eq_none {site : Site} (shows : site.ShowsLastLine)
    (uncalled : site.numHex = none) : site.console.getLast? = none := by
  rw [ShowsLastLine, uncalled] at shows
  exact Option.map_eq_none_iff.mp shows.symm

/-- The last line and its number. -/
theorem Announces.exists_line {site : Site} {num : ℕ} (announces : site.Announces)
    (called : site.numHex = some (num : ℤ)) :
    ∃ line, site.console.getLast? = some line ∧ line.number = num ∧ num < 1024 := by
  obtain ⟨small, shows⟩ := announces
  rw [ShowsLastLine, called] at shows
  obtain ⟨line, last, number⟩ := Option.map_eq_some_iff.mp shows.symm
  have number_eq : line.number = num := Int.ofNat_inj.mp number
  exact ⟨line, last, number_eq, number_eq ▸ small line (List.mem_of_getLast? last)⟩

theorem announces_start (place : Place) : (start place).Announces :=
  ⟨fun _ mem => absurd mem List.not_mem_nil, rfl⟩

theorem announcesLate_start : (start .position).AnnouncesLate :=
  ⟨fun _ mem => absurd mem List.not_mem_nil, Nat.zero_le 180, rfl⟩

/-- One more line with a small number. -/
theorem forall_mem_append {console : List Line} {line : Line}
    (small : ∀ line ∈ console, line.number < 1024) (bound : line.number < 1024) :
    ∀ other ∈ console ++ [line], other.number < 1024 := by
  intro other mem
  rcases List.mem_append.mp mem with earlier | last
  · exact small other earlier
  · rw [List.mem_singleton.mp last]
    exact bound

/-- A line that is printed along with its number. -/
theorem announces_print {site : Site} {line : Line}
    (small : ∀ line ∈ site.console, line.number < 1024) (bound : line.number < 1024) :
    ((site.print line).printNumHex line.number).Announces := by
  refine ⟨forall_mem_append small bound, ?_⟩
  simp [ShowsLastLine, print, printNumHex]

end Site

theorem telemetreUs_announces {site : Site} (announces : site.Announces)
    (bound : site.place = .read → word.toNat < 1024) :
    ((telemetreUs spent).next site word).Announces := by
  obtain ⟨place, i, distance, console, numHex⟩ := site
  cases place with
  | read =>
      have small := bound rfl
      change (Site.printNumHex word.toInt _).Announces
      rw [toInt_of_lt small]
      exact Site.announces_print announces.1 small
  | digit iowr rest => cases rest <;> exact announces
  | _ => exact announces

theorem radar_announces {site : Site} (announces : site.Announces)
    (bound : site.place = .read → word.toNat < 1024) :
    ((radar spent delay increment).next site word).Announces := by
  obtain ⟨place, i, distance, console, numHex⟩ := site
  cases place with
  | read =>
      have small := bound rfl
      change (Site.printNumHex word.toInt _).Announces
      rw [toInt_of_lt small]
      exact Site.announces_print announces.1 small
  | digit iowr rest => cases rest <;> exact announces
  | _ => exact announces

theorem servomoteur_announces {site : Site} (announces : site.AnnouncesLate) :
    ((servomoteur spent delay increment).next site word).AnnouncesLate := by
  obtain ⟨place, i, distance, console, numHex⟩ := site
  obtain ⟨small, shows⟩ := announces
  cases place with
  | position =>
      change (Site.printNumHex i _).AnnouncesLate
      rw [Site.AnnouncesLate, Site.printNumHex_place]
      exact ⟨small, shows.1, rfl⟩
  | digit iowr rest =>
      cases rest with
      | nil =>
          obtain ⟨angle, called⟩ := shows
          have below : i < 1024 := lt_of_le_of_lt angle (by norm_num)
          have last : Site.ShowsLastLine
              (Site.endStep increment (Site.print (.angle i)
                { place := .digit iowr [], i, distance, console, numHex })) := by
            rw [Site.ShowsLastLine]
            simpa [Site.endStep, Site.print, Line.number] using called
          refine ⟨Site.forall_mem_append small below, ?_⟩
          change match (if i + increment ≤ 180 then Place.position else Place.home) with
            | .position => i + increment ≤ 180 ∧ Site.ShowsLastLine _
            | .digit _ _ => i + increment ≤ 180 ∧ _
            | _ => Site.ShowsLastLine _
          split_ifs with more
          · exact ⟨more, last⟩
          · exact last
      | cons iowr rest => exact ⟨small, shows⟩
  | undefined => exact ⟨small, shows⟩
  | _ => exact ⟨small, Nat.zero_le 180, shows⟩

end Main
end FpgaRadar
