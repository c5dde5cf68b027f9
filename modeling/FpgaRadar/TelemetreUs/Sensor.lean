import FpgaRadar.TelemetreUs.Echo

/-!
# A sensor that answers

A sensor that answers every trigger pulse with one echo pulse keeps the automaton going: each
measurement is followed by another one, and if the answers come within a bound then so do the
trigger pulses and the distances.  Between two E4 the distance output belongs to the measurement of
the first of them.
-/

namespace FpgaRadar
namespace TelemetreUs

open Vhdl

/-- The trigger pulse that ends at edge `q` is answered by one echo pulse, the samples `a`, ...,
`a + n - 1`, and the echo is low otherwise until two edges before the next trigger pulse ends. -/
structure Answers (wave : ℕ → Period Bool) (powerUp : Registers) (q a n : ℕ) : Prop where
  /-- The first edge of E2 may be the one at which the answer has come through from the pin. -/
  after : q ≤ a + 2
  /-- The answer has at least one sample. -/
  nonempty : 1 ≤ n
  /-- Nothing is heard before it. -/
  low_before : ∀ u, q ≤ u + 2 → u < a → (wave u).input = false
  /-- The answer. -/
  high : ∀ u, a ≤ u → u < a + n → (wave u).input = true
  /-- The answer ends. -/
  falls : (wave (a + n)).input = false
  /-- Nothing is heard after it. -/
  low_after : ∀ u, a + n < u → (∀ v, q < v → v ≤ u + 2 → ¬ EntersE2 wave powerUp v) →
    (wave u).input = false

/-- The sensor answers each trigger with one echo pulse. -/
def AnswersEachTrigger (wave : ℕ → Period Bool) (powerUp : Registers) : Prop :=
  ∀ q, EntersE2 wave powerUp q → ∃ a n, Answers wave powerUp q a n

/-- Each trigger is answered by one echo pulse, which has ended `bound` edges after the trigger
pulse that it answers. -/
def AnswersWithin (wave : ℕ → Period Bool) (powerUp : Registers) (bound : ℕ) : Prop :=
  ∀ q, EntersE2 wave powerUp q → ∃ a n, Answers wave powerUp q a n ∧ a + n ≤ q + bound

theorem AnswersWithin.answersEachTrigger {wave : ℕ → Period Bool} {powerUp : Registers}
    {bound : ℕ} (answers : AnswersWithin wave powerUp bound) : AnswersEachTrigger wave powerUp :=
  fun q entry => (answers q entry).imp fun _ answered => answered.imp fun _ => And.left

/-- At edge `t` the distance output is that of the measurement that began at edge `q`. -/
structure Latched (wave : ℕ → Period Bool) (powerUp : Registers) (q m n t : ℕ) : Prop where
  /-- The measurement begins after a trigger pulse. -/
  entry : EntersE2 wave powerUp q
  /-- The measurement. -/
  measurement : Measurement wave powerUp q m n
  /-- It is complete. -/
  before : q + m + n < t
  /-- No other distance has been published since. -/
  last : ∀ u, q + m + n < u → u < t → (process.trace wave powerUp u).state ≠ .e4

variable {wave : ℕ → Period Bool} {powerUp : Registers} {q a m n t bound start : ℕ}

/-! ## Where trigger pulses start -/

/-- E0 is reached from E5 unless there is a reset. -/
theorem e0_pred (quiet : (wave t).Quiet)
    (state : (process.trace wave powerUp (t + 1)).state = .e0) :
    (process.trace wave powerUp t).state = .e5 := by
  rw [trace_step wave powerUp quiet, clocked_state_iff] at state
  exact state.1

/-- E1 begins, with its counter cleared, after E0. -/
theorem e1_start_pred (quiet : (wave t).Quiet)
    (state : (process.trace wave powerUp (t + 1)).state = .e1)
    (cleared : (process.trace wave powerUp (t + 1)).counter1 = 0) :
    (process.trace wave powerUp t).state = .e0 := by
  have coherent := coherent_trace wave powerUp t
  rw [trace_step wave powerUp quiet] at state cleared
  obtain started | ⟨triggering, _⟩ := (clocked_state_iff _ _ _).mp state
  · exact started
  · rw [clocked_counter1, triggering] at cleared
    simp only [coherent.counter1_succ triggering] at cleared
    simp only [Coherent, triggering] at coherent
    omega

/-- After a cooldown the trigger output rises at the first edge of E1. -/
theorem EntersE2.rises {u : ℕ} (entry : EntersE2 wave powerUp (u + 504))
    (quiet : Quiet wave u (u + 2)) : RisesAt (trigWave wave powerUp) (u + 2) := by
  obtain ⟨p, p_eq, quiet_e1, triggering⟩ := entry.history
  obtain rfl : p = u + 2 := by omega
  obtain ⟨state, cleared⟩ := triggering 0 (by norm_num)
  have restarted := e1_start_pred (quiet.period (u + 1) (by omega)) state cleared
  have cooling := e0_pred (quiet.period u (by omega)) restarted
  have low := coherent_trace wave powerUp u
  simp only [Coherent, cooling] at low
  constructor
  · rw [trigWave, (e0_step (quiet.period (u + 1) (by omega)) restarted).2.2,
      trace_step wave powerUp (quiet.period u (by omega)), clocked_trig, cooling]
    exact low
  · exact trig_high_of_e1 (quiet_e1.period (u + 2) (by omega)) state

/-! ## From trigger to trigger -/

/-- An answered trigger leads to a measurement of the answer. -/
theorem Answers.measurement (answers : Answers wave powerUp q a n)
    (entry : EntersE2 wave powerUp q) (release : ReleasedFrom wave start) :
    ∃ m, q + m = a + 3 ∧ Measurement wave powerUp q m n := by
  have start_le := start_le_of_entersE2 release entry
  obtain ⟨m, delay⟩ : ∃ m, q + m = a + 3 := ⟨a + 3 - q, by have := answers.after; omega⟩
  refine ⟨m, delay, ?_⟩
  exact measurement_of_echo (release.quiet_between (by omega)) (by omega) entry.1 delay
    (by have := answers.after; omega) answers.nonempty answers.low_before answers.high answers.falls

/-- A measurement is followed by another trigger pulse. -/
theorem Measurement.next_entry (measurement : Measurement wave powerUp q m n)
    (exact : InInteger n) (quiet : Quiet wave q (restartEdge q m n + 503)) :
    EntersE2 wave powerUp (restartEdge q m n + 503) :=
  entersE2_of_e0 (quiet.mono ⟨by rw [restartEdge]; omega, le_rfl⟩)
    (measurement.restarts exact (quiet.mono ⟨le_rfl, Nat.le_add_right _ _⟩))

/-- And not before that pulse has ended. -/
theorem Measurement.next_entry_le (measurement : Measurement wave powerUp q m n)
    (exact : InInteger n) {v : ℕ} (quiet : Quiet wave q v) (entry : EntersE2 wave powerUp v)
    (later : q < v) : restartEdge q m n + 503 ≤ v := by
  by_contra! early
  obtain ⟨p, rfl, _, triggering⟩ := entry.history
  by_cases restarted : restartEdge q m n < p + 502
  · obtain ⟨i, i_eq⟩ : ∃ i, p + i = restartEdge q m n := ⟨restartEdge q m n - p, by omega⟩
    have state := (triggering i (by omega)).1
    rw [i_eq, measurement.restarts exact (quiet.mono ⟨le_rfl, restarted.le⟩)] at state
    contradiction
  · have state := measurement.state_eq exact (t := p + 501) (quiet.mono (by omega))
      (by omega) (by omega)
    rw [(triggering 501 (by norm_num)).1] at state
    split_ifs at state
    omega

/-- A run that keeps `rst_n` high after its initial reset enters E2 after 503 edges. -/
theorem entersE2_of_releasedFrom (release : ReleasedFrom wave start) :
    EntersE2 wave powerUp (start + 503) := by
  apply entersE2_of_e0 (release.quiet_between le_rfl)
  rw [process.trace_held release powerUp le_rfl]
  rfl

/-- How far apart two trigger pulses are at most. -/
def cycleBound (bound : ℕ) : ℕ := bound + 5000508

/-- Wherever one looks, a trigger pulse starts before long. -/
theorem exists_entry_after (release : ReleasedFrom wave start)
    (within : AnswersWithin wave powerUp bound) (small : bound ≤ 2147483645)
    (started : start ≤ t) :
    ∃ q, EntersE2 wave powerUp q ∧ t + 502 ≤ q ∧ q < t + 502 + cycleBound bound := by
  induction t, started using Nat.le_induction with
  | base =>
      refine ⟨start + 503, entersE2_of_releasedFrom release, Nat.le_succ _, ?_⟩
      rw [cycleBound]
      omega
  | succ t started induction =>
      obtain ⟨q, entry, lower, upper⟩ := induction
      rcases lower.eq_or_lt with now | later
      · obtain ⟨a, n, answers, ends⟩ := within q entry
        obtain ⟨m, delay, measurement⟩ := answers.measurement entry release
        have first := answers.after
        have nonempty := answers.nonempty
        refine ⟨restartEdge q m n + 503,
          measurement.next_entry (inInteger_natCast (by omega)) (release.quiet_between (by omega)),
          ?_, ?_⟩
        · rw [restartEdge]
          omega
        · rw [restartEdge, cycleBound]
          omega
      · exact ⟨q, entry, by omega, by omega⟩

/-! ## The latched distance -/

theorem Latched.distCm (latched : Latched wave powerUp q m n t) (quiet : (wave (q + m + n)).Quiet) :
    (process.trace wave powerUp t).distCm = distanceOf (integer n) := by
  have published := (e4_step quiet latched.measurement.converts).2.2
  rw [latched.measurement.counter2] at published
  exact (distCm_holds (Nat.succ_le_of_lt latched.before) latched.last).trans published

/-- No trigger pulse ends while a measurement is under way. -/
theorem Measurement.entry_le {q' : ℕ} (measurement : Measurement wave powerUp q m n)
    (entry : EntersE2 wave powerUp q') (bound : q' ≤ q + m + n) : q' ≤ q := by
  by_contra! within
  obtain ⟨v, rfl⟩ : ∃ v, q' = v + 1 := ⟨q' - 1, by omega⟩
  obtain ⟨waiting, first⟩ := entry
  by_cases still_waiting : v < q + m
  · exact first v rfl (measurement.waits v (by omega) still_waiting)
  · rcases bound.eq_or_lt with done | counting
    · rw [done, measurement.converts] at waiting
      contradiction
    · rw [measurement.counts (v + 1) (by omega) counting] at waiting
      contradiction

/-- Once a measurement is complete, the latched one is no older. -/
theorem Measurement.exists_latched (measurement : Measurement wave powerUp q m n)
    (entry : EntersE2 wave powerUp q) (complete : q + m + n < t) :
    ∃ q' m' n', q ≤ q' ∧ Latched wave powerUp q' m' n' t := by
  obtain ⟨final, final_ge, final_lt, converts, last⟩ :=
    exists_last (fun u => (process.trace wave powerUp u).state = .e4) complete
      measurement.converts
  obtain ⟨q', m', n', entry', measurement', rfl⟩ := exists_measurement_of_e4 converts
  exact ⟨q', m', n', measurement'.entry_le entry (by omega),
    ⟨entry', measurement', final_lt, last⟩⟩

/-! ## A prompt sensor -/

/-- An echo of one sample, one edge after each trigger pulse. -/
def promptEcho (t : ℕ) : Bool := decide (t % 5000510 = 504)

/-- The edges at which E2 is entered with this echo. -/
def promptEntry (k : ℕ) : ℕ := 503 + k * 5000510

theorem promptEntry_measurement {k : ℕ}
    (entry : EntersE2 (released promptEcho) powerUp (promptEntry k)) :
    Measurement (released promptEcho) powerUp (promptEntry k) 4 1 := by
  rw [promptEntry] at entry ⊢
  refine measurement_of_echo (quiet_released _ _ _) (by omega) entry.1
    (a := 504 + k * 5000510) (by omega) (by norm_num) le_rfl ?_ ?_ ?_
  · intro u lower upper
    simp only [released, promptEcho, decide_eq_false_iff_not]
    omega
  · intro u lower upper
    simp only [released, promptEcho, decide_eq_true_iff]
    omega
  · simp only [released, promptEcho, decide_eq_false_iff_not]
    omega

theorem promptEntry_enters (powerUp : Registers) (k : ℕ) :
    EntersE2 (released promptEcho) powerUp (promptEntry k) := by
  induction k with
  | zero => exact entersE2_of_releasedFrom (releasedFrom_released promptEcho)
  | succ k induction =>
      have next := (promptEntry_measurement induction).next_entry (inInteger_natCast (by norm_num))
        (quiet_released _ _ _)
      rwa [show restartEdge (promptEntry k) 4 1 + 503 = promptEntry (k + 1) by
        rw [restartEdge, promptEntry, promptEntry]; omega] at next

/-- E2 is entered at no other edge. -/
theorem eq_promptEntry (entry : EntersE2 (released promptEcho) powerUp q) :
    ∃ k, q = promptEntry k := by
  have first := entry.after_reset
  refine ⟨(q - 503) / 5000510, ?_⟩
  by_contra! differs
  have later : promptEntry ((q - 503) / 5000510) < q := by
    rw [promptEntry] at differs ⊢
    omega
  have next_le := (promptEntry_measurement (promptEntry_enters powerUp _)).next_entry_le
    (inInteger_natCast (by norm_num)) (quiet_released _ _ _) entry later
  rw [restartEdge, promptEntry] at next_le
  omega

/-- This sensor answers each trigger, within two edges. -/
theorem promptEcho_answers (powerUp : Registers) :
    AnswersWithin (released promptEcho) powerUp 2 := by
  intro q entry
  obtain ⟨k, rfl⟩ := eq_promptEntry entry
  refine ⟨promptEntry k + 1, 1, ⟨Nat.le_add_right _ 3, le_rfl, ?_, ?_, ?_, ?_⟩, le_rfl⟩
  · intro u lower upper
    simp only [released, promptEcho, decide_eq_false_iff_not]
    rw [promptEntry] at lower upper
    omega
  · intro u lower upper
    simp only [released, promptEcho, decide_eq_true_iff]
    rw [promptEntry] at lower upper
    omega
  · simp only [released, promptEcho, decide_eq_false_iff_not]
    rw [promptEntry]
    omega
  · intro u lower none
    have within : u + 2 < promptEntry (k + 1) := by
      by_contra! late
      refine none _ ?_ late (promptEntry_enters powerUp (k + 1))
      rw [promptEntry, promptEntry]
      omega
    simp only [released, promptEcho, decide_eq_false_iff_not]
    rw [promptEntry] at lower within
    omega

end TelemetreUs
end FpgaRadar
