import FpgaRadar.Radar.Coherence

/-!
# The sweeps of the radar

The steps of `radar` have a schedule that depends on neither peripheral.  With it the whole output
of the program is known: the `k`-th line has the `k`-th angle of the sweeps and the distance that
the range finder shows at the read of the `k`-th step.
-/

namespace FpgaRadar
namespace Radar

open Vhdl

/-- The number of steps in a sweep. -/
def sweepSteps (increment : ℕ) : ℕ := 180 / increment + 1

/-- The angle of the `k`-th step. -/
def angle (increment k : ℕ) : ℕ := k % sweepSteps increment * increment

/-- The edges that a step takes after its read: the output of its pair, and at the end of a sweep
the return to the first position. -/
def restTime (parameters : Parameters) (k : ℕ) : ℕ :=
  parameters.printTime k +
    if angle parameters.increment k + parameters.increment ≤ 180 then 0
    else 1 + edgesPerUs * 300000

/-- The edge at which the `k`-th step starts. -/
def stepEdge (parameters : Parameters) : ℕ → ℕ
  | 0 => parameters.greeting
  | k + 1 => readEdge parameters (stepEdge parameters k) + 1 + restTime parameters k

/-- The pair of the `k`-th step. -/
def pairAt (parameters : Parameters) (powerUp : PowerUp) (echo : ℕ → Bool) (k : ℕ) :
    ℕ × BitVec 32 :=
  (angle parameters.increment k,
    0#22 ++ (TelemetreUs.process.trace (released echo) powerUp.telemeter
      (readEdge parameters (stepEdge parameters k))).distCm)

/-- What the program is about to do when the `k`-th step starts. -/
structure StepStarts (parameters : Parameters) (powerUp : PowerUp) (echo : ℕ → Bool)
    (k : ℕ) : Prop where
  /-- It writes a position. -/
  steps : StepsAt parameters powerUp echo (stepEdge parameters k)
  /-- The position is the one of the `k`-th angle. -/
  i_eq : (run parameters powerUp echo (stepEdge parameters k)).software.i =
    angle parameters.increment k
  /-- The pairs of the steps before it have been printed. -/
  printed_eq : (run parameters powerUp echo (stepEdge parameters k)).software.printed =
    (List.range k).map (pairAt parameters powerUp echo)

variable {parameters : Parameters} {powerUp : PowerUp} {echo : ℕ → Bool} {increment k t : ℕ}

/-! ## The angles -/

theorem angle_le (increment k : ℕ) : angle increment k ≤ 180 := by
  have below : k % sweepSteps increment ≤ 180 / increment :=
    Nat.lt_succ_iff.mp (Nat.mod_lt k (Nat.succ_pos _))
  exact (Nat.mul_le_mul_right increment below).trans (Nat.div_mul_le_self 180 increment)

/-- There is another step in the sweep. -/
theorem angle_add_le_iff (positive : 0 < increment) (k : ℕ) :
    angle increment k + increment ≤ 180 ↔ k % sweepSteps increment + 1 < sweepSteps increment := by
  rw [angle, ← Nat.succ_mul, sweepSteps, Nat.add_lt_add_iff_right]
  exact (Nat.le_div_iff_mul_le positive).symm.trans Nat.succ_le_iff

/-- The variable `i` follows the angles. -/
theorem angle_succ (increment k : ℕ) :
    angle increment (k + 1) =
      if angle increment k + increment ≤ 180 then angle increment k + increment else 0 := by
  rcases Nat.eq_zero_or_pos increment with rfl | positive
  · simp [angle]
  have below : k % sweepSteps increment < sweepSteps increment := Nat.mod_lt k (Nat.succ_pos _)
  have next : (k + 1) % sweepSteps increment =
      (k % sweepSteps increment + 1) % sweepSteps increment := (Nat.mod_add_mod k _ 1).symm
  split_ifs with more <;> rw [angle_add_le_iff positive] at more
  · rw [angle, next, Nat.mod_eq_of_lt more, Nat.succ_mul, angle]
  · have last : k % sweepSteps increment + 1 = sweepSteps increment := by omega
    rw [angle, next, last, Nat.mod_self, Nat.zero_mul]

/-! ## One step -/

/-- The edge after the read of the `k`-th step. -/
def restEdge (parameters : Parameters) (k : ℕ) : ℕ :=
  readEdge parameters (stepEdge parameters k) + 1

/-- The pair of a step is printed at its read. -/
theorem StepStarts.read (starts : StepStarts parameters powerUp echo k) :
    (run parameters powerUp echo (restEdge parameters k)).software =
      { access :=
          if angle parameters.increment k + parameters.increment ≤ 180 then .writePosition
          else .writeHome
        left := parameters.printTime k
        i := angle parameters.increment k + parameters.increment
        distance := (pairAt parameters powerUp echo k).2
        printed := (List.range (k + 1)).map (pairAt parameters powerUp echo) } := by
  have reads := starts.steps.reads
  have distance := readdata_eq (Software.accesses_iff.mpr
    ⟨congrArg Software.left reads, congrArg Software.access reads⟩)
  rw [restEdge, run_succ, System.advance, Software.advance, reads]
  simp only
  rw [starts.i_eq, starts.printed_eq, distance, List.length_map, List.length_range,
    List.range_succ, List.map_append]
  rfl

/-- Between two steps of a sweep the program prints. -/
theorem StepStarts.prints (starts : StepStarts parameters powerUp echo k)
    (more : angle parameters.increment k + parameters.increment ≤ 180) {j : ℕ}
    (bound : j ≤ parameters.printTime k) :
    (run parameters powerUp echo (restEdge parameters k + j)).software =
      { access := .writePosition
        left := parameters.printTime k - j
        i := angle parameters.increment k + parameters.increment
        distance := (pairAt parameters powerUp echo k).2
        printed := (List.range (k + 1)).map (pairAt parameters powerUp echo) } := by
  have read := starts.read
  rw [if_pos more] at read
  rw [software_waits (by rw [read]; exact bound), read]

/-- After the last step of a sweep it prints before it writes the first position. -/
theorem StepStarts.prints_last (starts : StepStarts parameters powerUp echo k)
    (last : ¬ angle parameters.increment k + parameters.increment ≤ 180) {j : ℕ}
    (bound : j ≤ parameters.printTime k) :
    (run parameters powerUp echo (restEdge parameters k + j)).software =
      { access := .writeHome
        left := parameters.printTime k - j
        i := angle parameters.increment k + parameters.increment
        distance := (pairAt parameters powerUp echo k).2
        printed := (List.range (k + 1)).map (pairAt parameters powerUp echo) } := by
  have read := starts.read
  rw [if_neg last] at read
  rw [software_waits (by rw [read]; exact bound), read]

/-- And then it sleeps. -/
theorem StepStarts.returns (starts : StepStarts parameters powerUp echo k)
    (last : ¬ angle parameters.increment k + parameters.increment ≤ 180) {j : ℕ}
    (bound : j ≤ edgesPerUs * 300000) :
    (run parameters powerUp echo
        (restEdge parameters k + parameters.printTime k + 1 + j)).software =
      { access := .writePosition
        left := edgesPerUs * 300000 - j
        i := 0
        distance := (pairAt parameters powerUp echo k).2
        printed := (List.range (k + 1)).map (pairAt parameters powerUp echo) } := by
  have written : (run parameters powerUp echo
      (restEdge parameters k + parameters.printTime k + 1)).software =
      { access := .writePosition
        left := edgesPerUs * 300000
        i := 0
        distance := (pairAt parameters powerUp echo k).2
        printed := (List.range (k + 1)).map (pairAt parameters powerUp echo) } := by
    rw [run_succ, System.advance, starts.prints_last last le_rfl, Nat.sub_self]
    rfl
  rw [software_waits (by rw [written]; exact bound), written]

/-- The next step starts when the time of this one is over. -/
theorem StepStarts.next (starts : StepStarts parameters powerUp echo k) :
    StepStarts parameters powerUp echo (k + 1) := by
  have software : (run parameters powerUp echo (stepEdge parameters (k + 1))).software =
      { access := .writePosition
        left := 0
        i := angle parameters.increment (k + 1)
        distance := (pairAt parameters powerUp echo k).2
        printed := (List.range (k + 1)).map (pairAt parameters powerUp echo) } := by
    rw [angle_succ, stepEdge, restTime, ← restEdge]
    split_ifs with more
    · rw [Nat.add_zero, starts.prints more le_rfl, Nat.sub_self]
    · rw [← Nat.add_assoc, ← Nat.add_assoc, starts.returns more le_rfl, Nat.sub_self]
  exact ⟨Software.accesses_iff.mpr (by simp [software]), by rw [software], by rw [software]⟩

/-- After the read of a step, what happens until the next one starts. -/
theorem StepStarts.rests (starts : StepStarts parameters powerUp echo k)
    (after : restEdge parameters k ≤ t) (before : t ≤ stepEdge parameters (k + 1)) :
    (run parameters powerUp echo t).software.printed =
        (List.range (k + 1)).map (pairAt parameters powerUp echo) ∧
      (StepsAt parameters powerUp echo t → t = stepEdge parameters (k + 1)) := by
  obtain ⟨j, rfl⟩ := Nat.exists_eq_add_of_le after
  rw [StepsAt, Software.accesses_iff]
  rw [stepEdge, restTime, ← restEdge] at before ⊢
  rw [Nat.add_le_add_iff_left] at before
  rw [Nat.add_left_cancel_iff]
  by_cases more : angle parameters.increment k + parameters.increment ≤ 180
  · rw [if_pos more] at before ⊢
    rw [starts.prints more before]
    exact ⟨rfl, fun ready => le_antisymm before (Nat.le_of_sub_eq_zero ready.1)⟩
  rw [if_neg more] at before ⊢
  rcases Nat.lt_or_ge (parameters.printTime k) j with returning | printing
  · obtain ⟨i, rfl⟩ := Nat.exists_eq_add_of_le (Nat.succ_le_of_lt returning)
    rw [Nat.succ_eq_add_one, ← Nat.add_assoc, ← Nat.add_assoc, starts.returns more (by omega)]
    refine ⟨rfl, fun ready => ?_⟩
    have awake := Nat.le_of_sub_eq_zero ready.1
    omega
  · rw [starts.prints_last more printing]
    exact ⟨rfl, fun ready => Access.noConfusion ready.2⟩

/-- No other step starts before the next one. -/
theorem StepStarts.alone (starts : StepStarts parameters powerUp echo k)
    (after : stepEdge parameters k < t) (before : t < stepEdge parameters (k + 1)) :
    ¬ StepsAt parameters powerUp echo t := by
  intro steps
  rcases Nat.lt_or_ge t (restEdge parameters k) with sleeping | resting
  · obtain ⟨j, rfl⟩ := Nat.exists_eq_add_of_le (Nat.succ_le_of_lt after)
    rw [restEdge, readEdge] at sleeping
    rw [StepsAt, Software.accesses_iff, starts.steps.sleeps (by omega)] at steps
    exact Access.noConfusion steps.2
  · exact before.ne ((starts.rests resting before.le).2 steps)

/-! ## All steps -/

/-- Before its first step the program waits. -/
theorem software_greets (before : t ≤ parameters.greeting) :
    (run parameters powerUp echo t).software =
      { Software.start parameters with left := parameters.greeting - t } := by
  have waiting : (run parameters powerUp echo (0 + t)).software = _ :=
    software_waits (show t ≤ (run parameters powerUp echo 0).software.left from before)
  rw [Nat.zero_add] at waiting
  exact waiting

theorem stepStarts (parameters : Parameters) (powerUp : PowerUp) (echo : ℕ → Bool) (k : ℕ) :
    StepStarts parameters powerUp echo k := by
  induction k with
  | zero =>
      refine ⟨stepsAt_greeting parameters powerUp echo, ?_, ?_⟩
      · rw [stepEdge, software_greets le_rfl, angle, Nat.zero_mod, Nat.zero_mul]
        rfl
      · rw [stepEdge, software_greets le_rfl]
        rfl
  | succ k induction => exact induction.next

theorem stepEdge_strictMono (parameters : Parameters) : StrictMono (stepEdge parameters) := by
  apply strictMono_nat_of_lt_succ
  intro k
  rw [stepEdge, readEdge]
  omega

/-- The steps start at the edges of the schedule. -/
theorem stepsAt_iff (parameters : Parameters) (powerUp : PowerUp) (echo : ℕ → Bool) (t : ℕ) :
    StepsAt parameters powerUp echo t ↔ ∃ k, t = stepEdge parameters k := by
  constructor
  · intro steps
    have reached : parameters.greeting ≤ t := by
      by_contra! before
      rw [StepsAt, Software.accesses_iff, software_greets before.le] at steps
      exact absurd (Nat.le_of_sub_eq_zero steps.1) (Nat.not_le_of_lt before)
    obtain ⟨k, lower, upper⟩ := exists_interval (stepEdge_strictMono parameters) reached
    rcases lower.eq_or_lt with equal | after
    · exact ⟨k, equal.symm⟩
    · exact absurd steps ((stepStarts parameters powerUp echo k).alone after upper)
  · rintro ⟨k, rfl⟩
    exact (stepStarts parameters powerUp echo k).steps

/-- The pairs that have been printed before the read of the `k`-th step. -/
theorem printed_eq (powerUp : PowerUp) (echo : ℕ → Bool)
    (after : ∀ j, k = j + 1 → readEdge parameters (stepEdge parameters j) < t)
    (before : t ≤ readEdge parameters (stepEdge parameters k)) :
    (run parameters powerUp echo t).software.printed =
      (List.range k).map (pairAt parameters powerUp echo) := by
  rcases Nat.lt_or_ge (stepEdge parameters k) t with started | waiting
  · have starts := stepStarts parameters powerUp echo k
    obtain ⟨j, rfl⟩ := Nat.exists_eq_add_of_le (Nat.succ_le_of_lt started)
    rw [readEdge] at before
    rw [starts.steps.sleeps (by omega)]
    exact starts.printed_eq
  · cases k with
    | zero =>
        rw [software_greets waiting]
        rfl
    | succ k =>
        exact ((stepStarts parameters powerUp echo k).rests (after k rfl) waiting).1

/-- The whole output of `radar`.  Whatever the echo is and however long printing takes, the sweep
steps start at the edges of the schedule and at no others, and the `k`-th one has the angle
`k % (180 / increment + 1) * increment`; between the reads of two steps exactly the pairs up to the
first of them have been printed, each with the distance shown at its own read. -/
theorem radar_sweeps (parameters : Parameters) (powerUp : PowerUp) (echo : ℕ → Bool) :
    (∀ t, StepsAt parameters powerUp echo t ↔ ∃ k, t = stepEdge parameters k) ∧
      (∀ k, (run parameters powerUp echo (stepEdge parameters k)).software.i =
        angle parameters.increment k) ∧
      ∀ k t, (∀ j, k = j + 1 → readEdge parameters (stepEdge parameters j) < t) →
        t ≤ readEdge parameters (stepEdge parameters k) →
        (run parameters powerUp echo t).software.printed =
          (List.range k).map (pairAt parameters powerUp echo) :=
  ⟨stepsAt_iff parameters powerUp echo,
    fun k => (stepStarts parameters powerUp echo k).i_eq,
    fun _ _ => printed_eq powerUp echo⟩

/-! ## The positions -/

/-- The width of the pulses for an angle. -/
def angleWidth (i : ℕ) : ℕ := ServomoteurAvalon.widthOf (positionWord i)

theorem angleWidth_eq {i : ℕ} (bound : i ≤ 180) :
    angleWidth i = 25002 + i * 1023 / 180 * 100000 / 1024 := by
  have word : (positionWord i).toNat % 1024 = i * 1023 / 180 := by
    rw [positionWord, BitVec.toNat_ofNat]
    omega
  rw [angleWidth, ServomoteurAvalon.widthOf, word]
  omega

/-- Larger angles have wider pulses. -/
theorem angleWidth_strictMono {i j : ℕ} (less : i < j) (bound : j ≤ 180) :
    angleWidth i < angleWidth j := by
  rw [angleWidth_eq (less.le.trans bound), angleWidth_eq bound]
  omega

/-- A program that waits outputs each angle.  If it sleeps for a frame and a pulse, each step has a
pulse of its own, which starts before the next step and has the width of its angle, so that the
pulses of a sweep get wider from each step to the next. -/
theorem radar_sweep_pulses (parameters : Parameters) (powerUp : PowerUp) (echo : ℕ → Bool)
    (slow : 1124904 ≤ edgesPerUs * parameters.delay) :
    ∃ rises : ℕ → ℕ, StrictMono rises ∧ ∀ k,
      stepEdge parameters k < rises k ∧ rises k < stepEdge parameters (k + 1) ∧
      RisesAt (commandeWave parameters powerUp echo) (rises k) ∧
      Pulse (commandeWave parameters powerUp echo) (rises k + 1)
        (rises k + 1 + angleWidth (angle parameters.increment k)) ∧
      (angle parameters.increment k < angle parameters.increment (k + 1) →
        angleWidth (angle parameters.increment k) <
          angleWidth (angle parameters.increment (k + 1))) := by
  have outputs : ∀ k, ∃ b, stepEdge parameters k < b ∧ b < stepEdge parameters (k + 1) ∧
      RisesAt (commandeWave parameters powerUp echo) b ∧
      Pulse (commandeWave parameters powerUp echo) (b + 1)
        (b + 1 + angleWidth (angle parameters.increment k)) := by
    intro k
    have starts := stepStarts parameters powerUp echo k
    obtain ⟨b, after, before, rises, pulse⟩ := starts.steps.outputs slow
    rw [starts.i_eq] at pulse
    refine ⟨b, after, ?_, rises, pulse⟩
    rw [stepEdge, readEdge]
    omega
  choose rises after before rise pulse using outputs
  refine ⟨rises, strictMono_nat_of_lt_succ fun k => (before k).trans (after (k + 1)), fun k =>
    ⟨after k, before k, rise k, pulse k, fun wider => ?_⟩⟩
  exact angleWidth_strictMono wider (angle_le parameters.increment (k + 1))

/-- With 23 ms per step the pulses of a sweep of ten steps can be told apart. -/
theorem radar_sweep_pulses_23_ms :
    ∃ rises : ℕ → ℕ, StrictMono rises ∧ ∀ k,
      Pulse (commandeWave { prompt 23000 with increment := 20 } uninitialised
          TelemetreUs.promptEcho) (rises k + 1)
        (rises k + 1 + angleWidth (angle 20 k)) := by
  obtain ⟨rises, increasing, pulses⟩ := radar_sweep_pulses
    { prompt 23000 with increment := 20 } uninitialised TelemetreUs.promptEcho
    (by norm_num [edgesPerUs, prompt])
  exact ⟨rises, increasing, fun k => (pulses k).2.2.2.1⟩

/-- The pulses start a frame apart. -/
theorem rises_spaced (parameters : Parameters) (powerUp : PowerUp) (echo : ℕ → Bool) (s t : ℕ)
    (first : RisesAt (commandeWave parameters powerUp echo) s)
    (second : RisesAt (commandeWave parameters powerUp echo) t) (less : s < t) :
    s + 1000003 ≤ t := by
  have release : ReleasedFrom (servoWave parameters powerUp echo) 0 := releasedFrom_released _
  have regular := Servomoteur.rises_iff_released Servomoteur.default_framed
    powerUp.servo.servomoteur (ServomoteurAvalon.servomoteurComponent.releasedFrom release
      powerUp.servo)
  rw [Servomoteur.frameTicks, Servomoteur.default_ticks.2.2] at regular
  rw [commandeWave_eq, ServomoteurAvalon.commandeWave_eq] at first second
  obtain ⟨i, rfl⟩ := (regular s).mp first
  obtain ⟨j, rfl⟩ := (regular t).mp second
  omega

/-- A program that is too quick skips angles.  If `n + 1` steps take together no longer than `n`
frames, one of them at least is over before a pulse has started in it. -/
theorem radar_skips_angles (parameters : Parameters) (powerUp : PowerUp) (echo : ℕ → Bool)
    (k n : ℕ) (quick : stepEdge parameters (k + n + 1) ≤ stepEdge parameters k + n * 1000003) :
    ∃ j, j ≤ n ∧ ∀ b, stepEdge parameters (k + j) ≤ b → b < stepEdge parameters (k + j + 1) →
      ¬ RisesAt (commandeWave parameters powerUp echo) b :=
  exists_interval_without (rises_spaced parameters powerUp echo) k n quick

/-- With the 10 ms of `main` and nothing but these, one of the first three angles is skipped. -/
theorem radar_skips_angles_10_ms :
    ∃ j, j ≤ 2 ∧ ∀ b, stepEdge (prompt 10000) (0 + j) ≤ b →
      b < stepEdge (prompt 10000) (0 + j + 1) →
      ¬ RisesAt (commandeWave (prompt 10000) uninitialised TelemetreUs.promptEcho) b :=
  radar_skips_angles (prompt 10000) uninitialised TelemetreUs.promptEcho 0 2
    (by norm_num [stepEdge, readEdge, restTime, angle, sweepSteps, prompt, edgesPerUs])

end Radar
end FpgaRadar
