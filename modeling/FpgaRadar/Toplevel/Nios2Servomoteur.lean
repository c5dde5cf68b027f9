import FpgaRadar.Bus.Abstraction
import FpgaRadar.Radar.Sweep
import FpgaRadar.Toplevel.Nios2Display

/-!
# What `servomoteur` drives and prints

The loop of `servomoteur` writes the positions of the angles at edges that depend on nothing but the
time that the processor takes.  When it sleeps for a frame and a pulse, the servo driver outputs all
of them.
-/

namespace FpgaRadar
namespace Nios2TelemetreServoTop

open Vhdl Main AvalonSevenSegment
open Radar (edgesPerUs positionWord angle angle_succ angle_le angleWidth)

/-- The edges from the last access of a step to the next step. -/
def turnTime (increment i : ℕ) : ℕ := if i + increment ≤ 180 then 0 else 1 + edgesPerUs * 300000

/-- The edges that follow the first access of the `k`-th step. -/
def stepTime (spent : Spent) (delay k : ℕ) : ℕ :=
  spent k 6 + (storeTime spent k 6 + edgesPerUs * delay)

/-- The angle after an angle. -/
def nextAngle (increment i : ℕ) : ℕ := if i + increment ≤ 180 then i + increment else 0

/-- The loop of `servomoteur` without its stores and without the return to the first position, on
the angle and the lines printed so far. -/
def servomoteurLoop (spent : Spent) (delay increment : ℕ) :
    Bus.Program (ℕ × List Line) Access (BitVec 32) where
  access point := some (.iowrServomoteur (positionWord point.1))
  next point _ := (nextAngle increment point.1, point.2 ++ [.angle point.1])
  wait point := stepTime spent delay point.2.length + turnTime increment point.1

/-- The edge at which the `k`-th angle is written. -/
def writeEdge (spent : Spent) (delay increment greeting : ℕ) : ℕ → ℕ
  | 0 => greeting
  | k + 1 =>
      writeEdge spent delay increment greeting k + 1 +
        (stepTime spent delay k + turnTime increment (angle increment k))

/-- The angle that is written next, and the lines that have been printed by then. -/
def pointOf (increment : ℕ) (site : Site) : ℕ × List Line :=
  match site.place with
  | .digit _ _ => (nextAngle increment site.i, site.console ++ [.angle site.i])
  | .position => (site.i, site.console)
  | .home | .read | .undefined => (0, site.console)

/-- The edges from the access of a site to the next step. -/
def timeToStep (spent : Spent) (delay increment : ℕ) (site : Site) : ℕ :=
  match site.place with
  | .digit _ rest =>
      storeTime spent site.console.length (rest.length + 1) + edgesPerUs * delay +
        turnTime increment site.i
  | .home => 1 + edgesPerUs * 300000
  | .read => 1
  | .position | .undefined => 0

variable {spent : Spent} {delay increment greeting k t : ℕ} {powerUp : PowerUp} {echo : ℕ → Bool}

theorem pointOf_of_home {site : Site} (place : site.place = .home) :
    pointOf increment site = (0, site.console) := by
  rw [pointOf, place]

theorem timeToStep_of_home {site : Site} (place : site.place = .home) :
    timeToStep spent delay increment site = 1 + edgesPerUs * 300000 := by
  rw [timeToStep, place]

theorem pointOf_endStep (site : Site) :
    pointOf increment (site.endStep increment) = (nextAngle increment site.i, site.console) := by
  by_cases more : site.i + increment ≤ 180
  · rw [Site.endStep, if_pos more, nextAngle, if_pos more]
    rfl
  · rw [Site.endStep, if_neg more, nextAngle, if_neg more]
    rfl

theorem timeToStep_endStep (site : Site) :
    timeToStep spent delay increment (site.endStep increment) = turnTime increment site.i := by
  by_cases more : site.i + increment ≤ 180
  · rw [Site.endStep, if_pos more, turnTime, if_pos more]
    rfl
  · rw [Site.endStep, if_neg more, turnTime, if_neg more, timeToStep]

/-- The stores of `servomoteur` and the returns are hidden. -/
def servomoteurAbstraction (spent : Spent) (delay increment : ℕ) :
    Bus.Abstraction (servomoteur spent delay increment)
      (servomoteurLoop spent delay increment) where
  project := pointOf increment
  hidden := timeToStep spent delay increment
  Reads site _ := site.place ≠ .undefined
  next_hidden {site word} reads hides := by
    obtain ⟨place, i, distance, console, numHex⟩ := site
    cases place with
    | position => exact absurd hides (lt_irrefl 0)
    | digit iowr rest =>
        cases rest with
        | nil =>
            simp only [servomoteur, pointOf_endStep, timeToStep_endStep]
            refine ⟨rfl, ?_⟩
            simp only [timeToStep, Site.print, storeTime, List.length_nil]
            omega
        | cons iowr rest =>
            refine ⟨rfl, ?_⟩
            simp only [servomoteur, timeToStep, storeTime, List.length_cons]
            omega
    | undefined => exact absurd rfl reads
    | read => exact ⟨rfl, rfl⟩
    | home =>
        refine ⟨rfl, ?_⟩
        simp only [servomoteur, Site.startSweep, timeToStep]
        omega
  next_visible {site word} reads shown := by
    obtain ⟨place, i, distance, console, numHex⟩ := site
    cases place with
    | position =>
        simp only [servomoteur, pointOf, timeToStep, Site.printNumHex_place]
        simp only [Site.printNumHex, servomoteurLoop, stepTime, List.length_map, List.length_range',
          Nat.reduceAdd, true_and]
        omega
    | digit iowr rest =>
        simp only [timeToStep, storeTime] at shown
        omega
    | undefined => exact absurd rfl reads
    | home =>
        simp only [timeToStep] at shown
        omega
    | read => exact absurd shown Nat.one_ne_zero

/-- Only the writes of the loop are visible. -/
theorem place_of_shown {site : Site} (defined : site.place ≠ .undefined)
    (shown : timeToStep spent delay increment site = 0) : site.place = .position := by
  obtain ⟨place, i, distance, console, numHex⟩ := site
  cases place with
  | position => rfl
  | undefined => exact absurd rfl defined
  | _ => simp [timeToStep, storeTime] at shown

theorem place_of_writes {site : Site} {word : BitVec 32}
    (writes : site.access = some (.iowrServomoteur word)) :
    site.place = .position ∨ site.place = .home := by
  obtain ⟨place, i, distance, console, numHex⟩ := site
  cases place <;> simp [Site.access] at writes ⊢

/-- The angle goes past the last one only when the loop ends, by less than the increment. -/
def Sweeps (increment : ℕ) (site : Site) : Prop :=
  match site.place with
  | .home => 180 < site.i ∧ site.i ≤ 180 + increment
  | _ => site.i ≤ 180

theorem sweeps_endStep {site : Site} (bound : site.i ≤ 180) :
    Sweeps increment (site.endStep increment) := by
  by_cases more : site.i + increment ≤ 180
  · rw [Site.endStep, if_pos more]
    exact more
  · rw [Site.endStep, if_neg more]
    exact ⟨Nat.lt_of_not_le more, Nat.add_le_add_right bound increment⟩

theorem sweeps_next {site : Site} (sweeps : Sweeps increment site) (word : BitVec 32) :
    Sweeps increment ((servomoteur spent delay increment).next site word) := by
  obtain ⟨place, i, distance, console, numHex⟩ := site
  cases place with
  | position =>
      change Sweeps increment (Site.printNumHex i _)
      rw [Sweeps, Site.printNumHex_place]
      exact sweeps
  | digit iowr rest =>
      cases rest with
      | nil =>
          change Sweeps increment ((Site.print (.angle i) _).endStep increment)
          exact sweeps_endStep sweeps
      | cons iowr rest => exact sweeps
  | undefined => exact sweeps
  | _ => exact Nat.zero_le 180

/-! ## The writes -/

/-- The visits of the loop. -/
theorem servomoteurLoop_visit (spent : Spent) (delay increment greeting : ℕ)
    (words : ℕ → BitVec 32) (k : ℕ) :
    (servomoteurLoop spent delay increment).visit words { site := (0, []), left := greeting } k =
      ((angle increment k, (List.range k).map fun j => .angle (angle increment j)),
        writeEdge spent delay increment greeting k) := by
  induction k with
  | zero => rw [angle, Nat.zero_mod, Nat.zero_mul]; rfl
  | succ k induction =>
      rw [Bus.Program.visit, induction, List.range_succ, List.map_append, angle_succ]
      simp only [servomoteurLoop, nextAngle, List.length_map, List.length_range, writeEdge]
      rfl

section Run

variable (spent delay increment greeting powerUp echo)

/-- The system in a call of `servomoteur`. -/
def sweeping (t : ℕ) : System :=
  runFunction spent (.servomoteur delay increment) greeting powerUp echo t

/-- The PWM output, cycle by cycle. -/
def commandeWave (t : ℕ) : Bool :=
  (sweeping spent delay increment greeting powerUp echo t).servo.servomoteur.commande

/-- The access made at an edge. -/
def sweepAccesses (t : ℕ) : Option Access :=
  accesses (servomoteur spent delay increment) (Function.start (.servomoteur delay increment)
    greeting) powerUp echo t

/-- The waveform on the servo driver's bus port. -/
def sweepWave : ℕ → Period ServomoteurAvalon.Bus :=
  servoWave (servomoteur spent delay increment) (Function.start (.servomoteur delay increment)
    greeting) powerUp echo

theorem sweeping_defined (t : ℕ) :
    (sweeping spent delay increment greeting powerUp echo t).master.site.place ≠ .undefined :=
  ((displaying_servomoteur spent delay increment).displayed
    (start_resting (.servomoteur delay increment) greeting) rfl powerUp echo t).defined

theorem sweeping_sweeps (t : ℕ) :
    Sweeps increment (sweeping spent delay increment greeting powerUp echo t).master.site := by
  rw [sweeping, runFunction, master_eq]
  have initial : Sweeps increment ((Function.servomoteur delay increment).start greeting).site :=
    Nat.zero_le 180
  exact Bus.Program.site_invariant initial (fun t _ sweeps => sweeps_next sweeps _) t

/-- The run of the loop. -/
theorem servomoteur_view (t : ℕ) :
    (servomoteurAbstraction spent delay increment).view
        (sweeping spent delay increment greeting powerUp echo t).master =
      (servomoteurLoop spent delay increment).run
        (words (servomoteur spent delay increment) (Function.start (.servomoteur delay increment)
          greeting) powerUp echo)
        { site := (0, []), left := greeting } t := by
  have reads : ∀ t, _ := sweeping_defined spent delay increment greeting powerUp echo
  simp only [sweeping, runFunction, master_eq] at reads ⊢
  exact (servomoteurAbstraction spent delay increment).view_run (fun t _ => reads t) t

/-- At the edges of the loop the program writes the positions of the angles. -/
theorem at_writeEdge (k : ℕ) :
    sweepAccesses spent delay increment greeting powerUp echo
        (writeEdge spent delay increment greeting k) =
      some (.iowrServomoteur (positionWord (angle increment k))) ∧
    (sweeping spent delay increment greeting powerUp echo
        (writeEdge spent delay increment greeting k)).master.site.console =
      (List.range k).map fun j => .angle (angle increment j) := by
  have view := servomoteur_view spent delay increment greeting powerUp echo
    (writeEdge spent delay increment greeting k)
  have visited := (servomoteurLoop spent delay increment).run_visit
    (words (servomoteur spent delay increment) (Function.start (.servomoteur delay increment)
      greeting) powerUp echo) { site := (0, []), left := greeting } k
  rw [servomoteurLoop_visit] at visited
  rw [visited] at view
  obtain ⟨ready, shown⟩ := Nat.add_eq_zero_iff.mp (congrArg Bus.Master.left view)
  have place := place_of_shown (sweeping_defined spent delay increment greeting powerUp echo _)
    shown
  have point : pointOf increment _ = _ := congrArg Bus.Master.site view
  rw [pointOf, place] at point
  refine ⟨(Bus.Program.accessOf_of_ready ready).trans ?_, congrArg Prod.snd point⟩
  change Site.access _ = _
  rw [Site.access, place]
  exact congrArg (fun i => some (Access.iowrServomoteur (positionWord i))) (congrArg Prod.fst point)

/-- The first access is the first write of the loop. -/
theorem place_of_le_greeting (before : t ≤ greeting) :
    (sweeping spent delay increment greeting powerUp echo t).master.site.place = .position := by
  have site := (servomoteur spent delay increment).site_eq_visit (n := 0) (t := t)
    (words (servomoteur spent delay increment) (Function.start (.servomoteur delay increment)
      greeting) powerUp echo) (Function.start (.servomoteur delay increment) greeting)
    (fun m absurd_eq => absurd absurd_eq m.succ_ne_zero.symm) before
  rw [sweeping, runFunction, master_eq]
  exact congrArg Site.place site

/-- The program writes at these edges only, apart from the return to the first position at the end
of each sweep. -/
theorem writes_only {word : BitVec 32}
    (writes : sweepAccesses spent delay increment greeting powerUp echo t =
      some (.iowrServomoteur word)) :
    (∃ k, t = writeEdge spent delay increment greeting k) ∨
      word = 0 ∧ ∃ k, 180 < angle increment k + increment ∧
        t + (1 + edgesPerUs * 300000) = writeEdge spent delay increment greeting (k + 1) := by
  have made : (sweeping spent delay increment greeting powerUp echo t).master.left = 0 ∧
      (sweeping spent delay increment greeting powerUp echo t).master.site.access =
        some (.iowrServomoteur word) := Bus.Program.ready_of_accessOf writes
  obtain ⟨ready, access⟩ := made
  obtain ⟨n, bound, state⟩ := (servomoteurLoop spent delay increment).exists_visit
    (words (servomoteur spent delay increment) (Function.start (.servomoteur delay increment)
      greeting) powerUp echo) { site := (0, []), left := greeting } t
  rw [servomoteurLoop_visit] at bound state
  have view := (servomoteur_view spent delay increment greeting powerUp echo t).trans state
  have left : (sweeping spent delay increment greeting powerUp echo t).master.left +
      timeToStep spent delay increment _ = writeEdge spent delay increment greeting n - t :=
    congrArg Bus.Master.left view
  rw [ready, Nat.zero_add] at left
  rcases place_of_writes access with place | place
  · refine Or.inl ⟨n, le_antisymm bound ?_⟩
    rw [timeToStep, place] at left
    exact Nat.sub_eq_zero_iff_le.mp left.symm
  · rw [Site.access, place] at access
    rw [timeToStep_of_home place] at left
    cases n with
    | zero =>
        rw [place_of_le_greeting spent delay increment greeting powerUp echo bound] at place
        contradiction
    | succ k =>
        refine Or.inr ⟨(Access.iowrServomoteur.inj (Option.some.inj access)).symm, k, ?_, ?_⟩
        · by_contra! more
          have point : (pointOf increment _).1 = angle increment (k + 1) :=
            congrArg (fun master => master.site.1) view
          have sweeps := sweeping_sweeps spent delay increment greeting powerUp echo t
          rw [Sweeps, place] at sweeps
          rw [pointOf_of_home place, angle_succ, if_pos more] at point
          simp only at sweeps point
          omega
        · rw [left]
          exact Nat.add_sub_cancel' bound

theorem writeEdge_strictMono : StrictMono (writeEdge spent delay increment greeting) := by
  apply strictMono_nat_of_lt_succ
  intro k
  rw [writeEdge]
  omega

/-- While it sleeps after a write the program does not write again. -/
theorem not_writes (slow : t ≤ writeEdge spent delay increment greeting k + edgesPerUs * delay)
    (after : writeEdge spent delay increment greeting k < t) (word : BitVec 32) :
    sweepAccesses spent delay increment greeting powerUp echo t ≠ some (.iowrServomoteur word) := by
  intro writes
  have increasing := writeEdge_strictMono spent delay increment greeting
  have next_edge : writeEdge spent delay increment greeting (k + 1) =
    writeEdge spent delay increment greeting k + 1 + (_ + turnTime increment _) := rfl
  rw [stepTime] at next_edge
  rcases writes_only spent delay increment greeting powerUp echo writes with
    ⟨j, rfl⟩ | ⟨_, j, last, edge⟩
  · have later := increasing.le_iff_le.mpr (Nat.succ_le_of_lt (increasing.lt_iff_lt.mp after))
    rw [Nat.succ_eq_add_one] at later
    omega
  · rcases Nat.lt_or_ge j k with before | beyond
    · have earlier := increasing.le_iff_le.mpr (Nat.succ_le_of_lt before)
      rw [Nat.succ_eq_add_one] at earlier
      omega
    · have later := increasing.monotone beyond
      rw [writeEdge, stepTime, turnTime, if_neg (not_le.mpr last)] at edge
      rcases beyond.eq_or_lt with rfl | skipped
      · omega
      · have next_later := increasing.monotone (Nat.succ_le_of_lt skipped)
        rw [Nat.succ_eq_add_one] at next_later
        omega

end Run

/-- The servo driver accepts the writes of the program and nothing else. -/
theorem acceptsWrite_iff (program : Bus.Program Site Access (BitVec 32)) (start : Bus.Master Site)
    (powerUp : PowerUp) (echo : ℕ → Bool) (t : ℕ) :
    ServomoteurAvalon.AcceptsWrite (servoWave program start powerUp echo) t ↔
      ∃ word, accesses program start powerUp echo t = some (.iowrServomoteur word) := by
  rw [ServomoteurAvalon.AcceptsWrite, servoWave, released]
  rcases accesses program start powerUp echo t with _ | _ | _ | _ <;> simp [servoBus]

/-- The angle has a pulse of its own if the program sleeps for long enough. -/
theorem exists_pulse_of_angle (spent : Spent) (increment greeting : ℕ) (powerUp : PowerUp)
    (echo : ℕ → Bool) (slow : 1124904 ≤ edgesPerUs * delay) (k : ℕ) :
    ∃ b, writeEdge spent delay increment greeting k < b ∧
      b < writeEdge spent delay increment greeting (k + 1) ∧
      RisesAt (commandeWave spent delay increment greeting powerUp echo) b ∧
      Pulse (commandeWave spent delay increment greeting powerUp echo) (b + 1)
        (b + 1 + angleWidth (angle increment k)) := by
  have access := (at_writeEdge spent delay increment greeting powerUp echo k).1
  have word : (sweepWave spent delay increment greeting powerUp echo
      (writeEdge spent delay increment greeting k)).input = _ := congrArg servoBus access
  have wave_eq : commandeWave spent delay increment greeting powerUp echo =
      ServomoteurAvalon.commandeWave
        (sweepWave spent delay increment greeting powerUp echo) powerUp.servo := by
    funext t
    exact congrArg (fun servo => servo.servomoteur.commande) (servo_eq _ _ powerUp echo t)
  have release : ReleasedFrom (sweepWave spent delay increment greeting powerUp echo) 0 :=
    releasedFrom_released _
  have alone : ∀ v, writeEdge spent delay increment greeting k + 1 ≤ v →
      v ≤ writeEdge spent delay increment greeting k + 1124904 →
      ¬ ServomoteurAvalon.AcceptsWrite (sweepWave spent delay increment greeting powerUp echo)
        v := by
    intro v lower upper accepts
    obtain ⟨word, writes⟩ := (acceptsWrite_iff _ _ powerUp echo v).mp accepts
    exact not_writes spent delay increment greeting powerUp echo
      (upper.trans (Nat.add_le_add_left slow _)) lower word writes
  obtain ⟨b, after, before, rises, pulse⟩ := ServomoteurAvalon.exists_pulse_of_write powerUp.servo
    release (Nat.zero_le _) ((acceptsWrite_iff _ _ powerUp echo _).mpr ⟨_, access⟩) alone
  rw [word] at pulse
  refine ⟨b, after, ?_, wave_eq ▸ rises, wave_eq ▸ pulse⟩
  rw [writeEdge, stepTime]
  omega

/-- The sweep of `servomoteur`.  Whatever the echo is and however long the processor takes, the
`k`-th write of the loop is that of the `k`-th angle and comes after the lines of the angles before
it; the program writes at no other edges but those of the return to the first position, 300 ms
before the sweep starts again; and if it sleeps for a frame and a pulse, each angle has a pulse of
its width before the next one is written. -/
theorem servomoteur_sweeps (spent : Spent) (delay increment greeting : ℕ) (powerUp : PowerUp)
    (echo : ℕ → Bool) :
    (∀ k, accesses (servomoteur spent delay increment)
          (Function.start (.servomoteur delay increment) greeting) powerUp echo
          (writeEdge spent delay increment greeting k) =
        some (.iowrServomoteur (positionWord (angle increment k))) ∧
      (runFunction spent (.servomoteur delay increment) greeting powerUp echo
          (writeEdge spent delay increment greeting k)).master.site.console =
        (List.range k).map fun j => .angle (angle increment j)) ∧
    (∀ t word, accesses (servomoteur spent delay increment)
          (Function.start (.servomoteur delay increment) greeting) powerUp echo t =
        some (.iowrServomoteur word) →
      (∃ k, t = writeEdge spent delay increment greeting k) ∨
        word = 0 ∧ ∃ k, 180 < angle increment k + increment ∧
          t + (1 + edgesPerUs * 300000) = writeEdge spent delay increment greeting (k + 1)) ∧
    (1124904 ≤ edgesPerUs * delay → ∃ rises : ℕ → ℕ, StrictMono rises ∧ ∀ k,
      writeEdge spent delay increment greeting k < rises k ∧
      rises k < writeEdge spent delay increment greeting (k + 1) ∧
      RisesAt (commandeWave spent delay increment greeting powerUp echo) (rises k) ∧
      Pulse (commandeWave spent delay increment greeting powerUp echo) (rises k + 1)
        (rises k + 1 + angleWidth (angle increment k))) := by
  refine ⟨at_writeEdge spent delay increment greeting powerUp echo,
    fun t word => writes_only spent delay increment greeting powerUp echo, fun slow => ?_⟩
  choose rises after before rise pulse using
    exists_pulse_of_angle spent increment greeting powerUp echo slow
  exact ⟨rises, strictMono_nat_of_lt_succ fun k => (before k).trans (after (k + 1)),
    fun k => ⟨after k, before k, rise k, pulse k⟩⟩

/-- With 23 ms per step and a processor that takes a microsecond for everything. -/
theorem servomoteur_sweeps_23_ms :
    ∃ rises : ℕ → ℕ, StrictMono rises ∧ ∀ k,
      Pulse (commandeWave (fun _ _ => 50) 23000 1 10 uninitialised TelemetreUs.promptEcho)
        (rises k + 1) (rises k + 1 + angleWidth (angle 1 k)) := by
  obtain ⟨rises, increasing, sweeps⟩ := (servomoteur_sweeps (fun _ _ => 50) 23000 1 10
    uninitialised TelemetreUs.promptEcho).2.2 (by norm_num [edgesPerUs])
  exact ⟨rises, increasing, fun k => (sweeps k).2.2.2⟩

end Nios2TelemetreServoTop
end FpgaRadar
