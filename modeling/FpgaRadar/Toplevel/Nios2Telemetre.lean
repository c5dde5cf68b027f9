import FpgaRadar.Bus.Abstraction
import FpgaRadar.TelemetreUs.Stream
import FpgaRadar.Toplevel.Nios2Display

/-!
# What `telemetre_us` prints

The loop of `telemetre_us` reads the distance at edges that depend on nothing but the time that the
processor takes.  The whole console is known from them, and a loop that is shorter than the cooldown
of the range finder prints every distance that is measured.
-/

namespace FpgaRadar
namespace Nios2TelemetreServoTop

open Vhdl Main AvalonSevenSegment

/-- The loop of `telemetre_us` without its stores, on the lines printed so far. -/
def telemetreLoop (spent : Spent) : Bus.Program (List Line) Access (BitVec 32) where
  access _ := some .iordTelemetreUs
  next console word := console ++ [.distance word]
  wait console := spent console.length 6 + storeTime spent console.length 6

/-- The edge of the `j`-th read. -/
def readEdge (spent : Spent) (greeting : ℕ) : ℕ → ℕ
  | 0 => greeting
  | j + 1 => readEdge spent greeting j + 1 + (spent j 6 + storeTime spent j 6)

/-- The line that the `j`-th read leads to. -/
def lineAt (spent : Spent) (greeting : ℕ) (powerUp : PowerUp) (echo : ℕ → Bool) (j : ℕ) : Line :=
  .distance (0#22 ++ (TelemetreUs.process.trace (released echo) powerUp.telemeter
    (readEdge spent greeting j)).distCm)

/-- The stores of `telemetre_us` are hidden. -/
def telemetreAbstraction (spent : Spent) :
    Bus.Abstraction (telemetreUs spent) (telemetreLoop spent) where
  project := Site.console
  hidden site :=
    match site.place with
    | .digit _ rest => storeTime spent (site.console.length - 1) (rest.length + 1)
    | .position | .home => 1
    | .read | .undefined => 0
  Reads site word :=
    match site.place with
    | .read => word.toNat < 1024
    | .undefined => False
    | _ => True
  next_hidden {site word} reads hides := by
    obtain ⟨place, i, distance, console, numHex⟩ := site
    cases place with
    | digit iowr rest =>
        cases rest with
        | nil => exact ⟨rfl, rfl⟩
        | cons iowr rest => exact ⟨rfl, rfl⟩
    | undefined => exact reads.elim
    | read => exact absurd hides (lt_irrefl 0)
    | position => exact ⟨rfl, rfl⟩
    | home => exact ⟨rfl, rfl⟩
  next_visible {site word} reads shown := by
    obtain ⟨place, i, distance, console, numHex⟩ := site
    cases place with
    | read =>
        refine ⟨rfl, ?_⟩
        simp only [telemetreUs, toInt_of_lt reads, Site.printNumHex_place]
        simp [Site.printNumHex, Site.print, Site.read, telemetreLoop]
    | digit iowr rest => exact absurd shown (Nat.succ_ne_zero _)
    | undefined => exact reads.elim
    | position => exact absurd shown Nat.one_ne_zero
    | home => exact absurd shown Nat.one_ne_zero

variable {spent : Spent} {greeting j k t : ℕ} {powerUp : PowerUp} {echo : ℕ → Bool}

/-! ## The reads -/

/-- The visits of the loop. -/
theorem telemetreLoop_visit (spent : Spent) (words : ℕ → BitVec 32) (greeting j : ℕ) :
    (telemetreLoop spent).visit words { site := [], left := greeting } j =
      ((List.range j).map fun i => .distance (words (readEdge spent greeting i)),
        readEdge spent greeting j) := by
  induction j with
  | zero => rfl
  | succ j induction =>
      rw [Bus.Program.visit, induction, List.range_succ, List.map_append]
      simp [telemetreLoop, readEdge]

theorem readEdge_strictMono (spent : Spent) (greeting : ℕ) :
    StrictMono (readEdge spent greeting) := by
  apply strictMono_nat_of_lt_succ
  intro j
  rw [readEdge]
  omega

/-- Every access of a run is a store or reads a distance. -/
theorem telemetre_reads (spent : Spent) (greeting : ℕ) (powerUp : PowerUp) (echo : ℕ → Bool)
    (t : ℕ) (ready : (runFunction spent .telemetreUs greeting powerUp echo t).master.left = 0) :
    (telemetreAbstraction spent).Reads
      (runFunction spent .telemetreUs greeting powerUp echo t).master.site
      (words (telemetreUs spent) (Function.telemetreUs.start greeting) powerUp echo t) := by
  have displaying := displaying_telemetreUs spent
  have defined := (displaying.displayed (start_resting .telemetreUs greeting) rfl powerUp echo
    t).defined
  rw [telemetreAbstraction]
  simp only
  split
  · next reading => exact displaying.words_lt ready reading
  · next undefined => exact absurd undefined defined
  · trivial

/-- The run of the loop. -/
theorem telemetre_view (spent : Spent) (greeting : ℕ) (powerUp : PowerUp) (echo : ℕ → Bool)
    (t : ℕ) :
    (telemetreAbstraction spent).view
        (runFunction spent .telemetreUs greeting powerUp echo t).master =
      (telemetreLoop spent).run
        (words (telemetreUs spent) (Function.telemetreUs.start greeting) powerUp echo)
        { site := [], left := greeting } t := by
  have reads := telemetre_reads spent greeting powerUp echo
  simp only [runFunction, master_eq] at reads ⊢
  exact (telemetreAbstraction spent).view_run reads t

/-- Only the reads are visible. -/
theorem telemetre_shown_iff {site : Site} {word : BitVec 32}
    (reads : (telemetreAbstraction spent).Reads site word) :
    (telemetreAbstraction spent).hidden site = 0 ↔ site.access = some .iordTelemetreUs := by
  obtain ⟨place, i, distance, console, numHex⟩ := site
  cases place with
  | undefined => exact reads.elim
  | _ => simp [telemetreAbstraction, storeTime, Site.access]

/-- The program reads at the edges of the loop. -/
theorem accesses_readEdge (spent : Spent) (greeting : ℕ) (powerUp : PowerUp) (echo : ℕ → Bool)
    (j : ℕ) :
    accesses (telemetreUs spent) (Function.telemetreUs.start greeting) powerUp echo
      (readEdge spent greeting j) = some .iordTelemetreUs := by
  have view := telemetre_view spent greeting powerUp echo (readEdge spent greeting j)
  have visited := (telemetreLoop spent).run_visit
    (words (telemetreUs spent) (Function.telemetreUs.start greeting) powerUp echo)
    { site := [], left := greeting } j
  rw [telemetreLoop_visit] at visited
  rw [visited] at view
  obtain ⟨ready, shown⟩ := Nat.add_eq_zero_iff.mp (congrArg Bus.Master.left view)
  have reads := telemetre_reads spent greeting powerUp echo _ ready
  exact (Bus.Program.accessOf_of_ready ready).trans ((telemetre_shown_iff reads).mp shown)

/-- What has been printed before the `j`-th read. -/
theorem console_eq (spent : Spent) (greeting : ℕ) (powerUp : PowerUp) (echo : ℕ → Bool)
    (after : ∀ i, j = i + 1 → readEdge spent greeting i < t)
    (before : t ≤ readEdge spent greeting j) :
    (runFunction spent .telemetreUs greeting powerUp echo t).master.site.console =
      (List.range j).map (lineAt spent greeting powerUp echo) := by
  have read : ∀ i, Line.distance (words (telemetreUs spent) (Function.telemetreUs.start greeting)
      powerUp echo (readEdge spent greeting i)) = lineAt spent greeting powerUp echo i := by
    intro i
    rw [(displaying_telemetreUs spent).apart.words_eq
      (accesses_readEdge spent greeting powerUp echo i)]
    rfl
  have visited := telemetreLoop_visit spent
    (words (telemetreUs spent) (Function.telemetreUs.start greeting) powerUp echo) greeting
  have site := (telemetreLoop spent).site_eq_visit (n := j) (t := t)
    (words (telemetreUs spent) (Function.telemetreUs.start greeting) powerUp echo)
    { site := [], left := greeting } (by simpa only [visited] using after)
    (by simpa only [visited] using before)
  rw [← telemetre_view, visited] at site
  simp only [read] at site
  exact site

/-- A read adds its line. -/
theorem console_readEdge (spent : Spent) (greeting : ℕ) (powerUp : PowerUp) (echo : ℕ → Bool)
    (j : ℕ) :
    (runFunction spent .telemetreUs greeting powerUp echo
        (readEdge spent greeting j + 1)).master.site.console =
      (runFunction spent .telemetreUs greeting powerUp echo
          (readEdge spent greeting j)).master.site.console ++
        [lineAt spent greeting powerUp echo j] := by
  have increasing := readEdge_strictMono spent greeting
  rw [console_eq (j := j + 1) spent greeting powerUp echo
      (fun i i_eq => by obtain rfl := Nat.succ.inj i_eq; exact Nat.lt_succ_self _)
      (increasing j.lt_succ_self),
    console_eq (j := j) spent greeting powerUp echo
      (fun i i_eq => increasing (by omega)) le_rfl,
    List.range_succ, List.map_append]
  rfl

/-- The whole output of `telemetre_us`.  Whatever the echo is and however long the processor takes,
it reads at the edges `readEdge spent greeting j` and at no others, and by the access that follows
one of these reads it has printed the distances shown at the reads so far, a line for each. -/
theorem telemetre_us_output (spent : Spent) (greeting : ℕ) (powerUp : PowerUp) (echo : ℕ → Bool) :
    (∀ t, accesses (telemetreUs spent) (Function.telemetreUs.start greeting) powerUp echo t =
      some .iordTelemetreUs ↔ ∃ j, t = readEdge spent greeting j) ∧
    ∀ j t, (∀ i, j = i + 1 → readEdge spent greeting i < t) → t ≤ readEdge spent greeting j →
      (runFunction spent .telemetreUs greeting powerUp echo t).master.site.console =
        (List.range j).map fun i => .distance
          (0#22 ++ (TelemetreUs.process.trace (released echo) powerUp.telemeter
            (readEdge spent greeting i)).distCm) := by
  refine ⟨fun t => ⟨fun reads => ?_, ?_⟩, fun j t => console_eq spent greeting powerUp echo⟩
  · obtain ⟨ready, access⟩ := Bus.Program.ready_of_accessOf reads
    have view := telemetre_view spent greeting powerUp echo t
    have shown := (telemetre_shown_iff (telemetre_reads spent greeting powerUp echo t ready)).mpr
      access
    have visited : ((telemetreAbstraction spent).view
        (runFunction spent .telemetreUs greeting powerUp echo t).master).left = 0 :=
      Nat.add_eq_zero_iff.mpr ⟨ready, shown⟩
    rw [view] at visited
    obtain ⟨j, t_eq⟩ := (Bus.Program.ready_iff _ _ _ t).mp visited
    rw [telemetreLoop_visit] at t_eq
    exact ⟨j, t_eq⟩
  · rintro ⟨j, rfl⟩
    exact accesses_readEdge spent greeting powerUp echo j

/-- No measurement is missed.  If each trigger is answered by one echo pulse, which has ended
`bound` edges after the trigger pulse, and each round of `telemetre_us` is shorter than what is left
of the cooldown, every distance that is converted after the greeting is read before the next one is
converted, and printed. -/
theorem telemetre_us_misses_none (spent : Spent) (greeting : ℕ) (powerUp : PowerUp)
    (echo : ℕ → Bool) (bound : ℕ)
    (within : TelemetreUs.AnswersWithin (released echo) powerUp.telemeter bound)
    (quick : ∀ j, spent j 6 + storeTime spent j 6 + bound ≤ 5000504) :
    ∃ soundings : ℕ → TelemetreUs.Sounding (released echo) powerUp.telemeter,
      (∀ q, TelemetreUs.EntersE2 (released echo) powerUp.telemeter q ↔
        ∃ k, q = (soundings k).q) ∧
      ∀ k, greeting ≤ (soundings k).conversion →
        ∃ t, (soundings k).conversion < t ∧ t ≤ (soundings (k + 1)).conversion ∧
          (runFunction spent .telemetreUs greeting powerUp echo (t + 1)).master.site.console =
            (runFunction spent .telemetreUs greeting powerUp echo t).master.site.console ++
              [.distance (0#22 ++ TelemetreUs.distanceOf (soundings k).n)] := by
  have release := releasedFrom_released echo
  obtain ⟨soundings, stream⟩ := TelemetreUs.exists_stream release within
    (by have := quick 0; omega)
  refine ⟨soundings, fun q => ⟨stream.exists_of_entersE2 release, ?_⟩, fun k greeted => ?_⟩
  · rintro ⟨k, rfl⟩
    exact (soundings k).entry
  obtain ⟨i, lower, upper⟩ := exists_interval (readEdge_strictMono spent greeting) greeted
  have short_echo := (soundings k).n_le release within
  have next_eq := stream.next k
  have next_measured := (soundings (k + 1)).lt_conversion
  have in_time : readEdge spent greeting (i + 1) ≤ (soundings (k + 1)).conversion := by
    have round := quick i
    rw [TelemetreUs.Sounding.nextEntry, TelemetreUs.restartEdge] at next_eq
    rw [TelemetreUs.Sounding.conversion] at lower
    rw [readEdge]
    omega
  refine ⟨readEdge spent greeting (i + 1), upper, in_time, ?_⟩
  rw [console_readEdge, lineAt, stream.distCm_eq release upper in_time]

/-- A processor that takes a millisecond for everything, with the prompt sensor. -/
theorem telemetre_us_misses_none_prompt :
    ∃ soundings : ℕ → TelemetreUs.Sounding (released TelemetreUs.promptEcho)
        uninitialised.telemeter,
      ∀ k, 10 ≤ (soundings k).conversion →
        ∃ t, (soundings k).conversion < t ∧ t ≤ (soundings (k + 1)).conversion ∧
          (runFunction (fun _ _ => 50000) .telemetreUs 10 uninitialised TelemetreUs.promptEcho
              (t + 1)).master.site.console =
            (runFunction (fun _ _ => 50000) .telemetreUs 10 uninitialised TelemetreUs.promptEcho
                t).master.site.console ++
              [.distance (0#22 ++ TelemetreUs.distanceOf (soundings k).n)] := by
  obtain ⟨soundings, _, printed⟩ := telemetre_us_misses_none (fun _ _ => 50000) 10 uninitialised
    TelemetreUs.promptEcho 2 (TelemetreUs.promptEcho_answers _) (by simp [storeTime])
  exact ⟨soundings, printed⟩

end Nios2TelemetreServoTop
end FpgaRadar
