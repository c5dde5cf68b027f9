import FpgaRadar.TelemetreUs.Distance

/-!
# Whole and truncated echoes

E2 looks at the level of the synchronised echo and not at its edges.  The count converted in E4 is
therefore the width of a whole echo only if the echo was seen low at the last edge of E1 or at the
first edge of E2.
-/

namespace FpgaRadar
namespace TelemetreUs

open Vhdl

variable {wave : ℕ → Period Bool} {powerUp : Registers} {q m n t : ℕ}

/-- E4 is executed at edge `t`. -/
def ExecutesE4 (wave : ℕ → Period Bool) (powerUp : Registers) (t : ℕ) : Prop :=
  (wave t).Quiet ∧ (process.trace wave powerUp t).state = .e4

/-- The count converted at edge `t` is the length of a maximal run of high samples of the
synchronised echo, and the low sample before it was seen after edge `trigger`. -/
def CountsWholePulse (wave : ℕ → Period Bool) (powerUp : Registers) (trigger t : ℕ) : Prop :=
  ∃ before width, trigger < before ∧ before + width + 2 = t ∧ 1 ≤ width ∧
    (process.trace wave powerUp t).counter2 = width ∧
    (process.trace wave powerUp before).echoRR = false ∧
    (∀ u, before < u → u ≤ before + width → (process.trace wave powerUp u).echoRR = true) ∧
    (process.trace wave powerUp (before + width + 1)).echoRR = false

/-- The states of a measurement are reached from one another or from E1. -/
theorem measuring_pred (wave : ℕ → Period Bool) (powerUp : Registers)
    (measuring : (process.trace wave powerUp (t + 1)).state ∈ [.e2, .e3, .e4]) :
    (wave t).Quiet ∧
      ((process.trace wave powerUp t).state ∈ [.e2, .e3] ∨
        (process.trace wave powerUp (t + 1)).state = .e2) := by
  have quiet : (wave t).Quiet := by
    apply quiet_of_state wave powerUp <;> intro state <;> simp [state] at measuring
  refine ⟨quiet, ?_⟩
  simp only [List.mem_cons, List.not_mem_nil, or_false] at measuring ⊢
  rw [trace_step wave powerUp quiet] at measuring ⊢
  obtain waiting | counting | converting := measuring
  · exact Or.inr waiting
  · exact Or.inl ((clocked_state_iff _ _ _).mp counting).1
  · exact Or.inl (Or.inr ((clocked_state_iff _ _ _).mp converting).1)

/-- Every E4 ends a measurement that began by entering E2. -/
theorem exists_measurement_of_e4 (state : (process.trace wave powerUp t).state = .e4) :
    ∃ q m n, EntersE2 wave powerUp q ∧ Measurement wave powerUp q m n ∧ t = q + m + n := by
  have converting : (process.trace wave powerUp t).state ∈ [.e2, .e3, .e4] := by simp [state]
  obtain ⟨u, u_lt, outside, inside⟩ :=
    exists_entry (fun t => (process.trace wave powerUp t).state ∈ [.e2, .e3, .e4])
      (by simp [reset]) converting
  have quiet : Quiet wave u t := fun v lower upper =>
    (measuring_pred wave powerUp (inside (v + 1) (by omega) (by omega))).1
  have entered : (process.trace wave powerUp (u + 1)).state = .e2 := by
    rcases (measuring_pred wave powerUp (inside (u + 1) (by omega) u_lt)).2 with before | entered
    · exact absurd (List.mem_append_left [StateType.e4] before) outside
    · exact entered
  obtain ⟨m, n, measurement, bound⟩ := exists_measurement u_lt (quiet.mono (by omega))
    entered (by simp [state]) (by simp [state])
  refine ⟨u + 1, m, n, ⟨entered, ?_⟩, measurement, ?_⟩
  · rintro v v_eq waiting
    obtain rfl : v = u := by omega
    simp [waiting] at outside
  · by_contra! differs
    have cooling := (e4_step (quiet.period (u + 1 + m + n) (by omega)) measurement.converts).1
    have measuring := inside (u + 1 + m + n + 1) (by omega) (by omega)
    simp [cooling] at measuring

/-- The first E2 comes 503 edges after the reset at the earliest. -/
theorem EntersE2.after_reset (entry : EntersE2 wave powerUp q) : 503 ≤ q := by
  obtain ⟨p, rfl, _, triggering⟩ := entry.history
  cases p with
  | zero =>
      have state := (triggering 0 (by norm_num)).1
      simp [reset] at state
  | succ p => exact Nat.add_le_add_right (Nat.le_add_left 1 p) 502

/-- No E4 precedes a measurement that starts then. -/
theorem Measurement.first_e4 (measurement : Measurement wave powerUp 503 m n)
    (earlier : t < 503 + m + n) : (process.trace wave powerUp t).state ≠ .e4 := by
  intro converting
  obtain ⟨q, m', n', entry, _, t_eq⟩ := exists_measurement_of_e4 converting
  have first := entry.after_reset
  by_cases waiting : t < 503 + m
  · simp [measurement.waits t (by omega) waiting] at converting
  · simp [measurement.counts t (not_lt.mp waiting) earlier] at converting

/-- When E2 is entered the last two samples have come through from the pin. -/
theorem EntersE2.samples (entry : EntersE2 wave powerUp q) :
    ∃ u, u + 3 = q ∧ (process.trace wave powerUp (u + 2)).echoRR = (wave u).input ∧
      (process.trace wave powerUp (u + 3)).echoRR = (wave (u + 1)).input := by
  obtain ⟨p, rfl, quiet, _⟩ := entry.history
  exact ⟨p + 499, by omega,
    echoRR_eq_input (quiet.period _ (by omega)).2 (quiet.period _ (by omega)).2,
    echoRR_eq_input (quiet.period _ (by omega)).2 (quiet.period _ (by omega)).2⟩

theorem integer_natCast_le (n : ℕ) : integer n ≤ n := by
  by_cases exact : InInteger n
  · exact (integer_of_inInteger exact).le
  · have bounds := (inInteger_iff _).mp (inInteger_integer n)
    rw [inInteger_iff] at exact
    omega

/-- The count is the width of a whole echo exactly when the counter did not overflow and the last
sample of E1 or the first sample of E2 was low. -/
theorem Measurement.countsWholePulse_iff (measurement : Measurement wave powerUp q m n)
    (entry : EntersE2 wave powerUp q) :
    CountsWholePulse wave powerUp (q - 502) (q + m + n) ↔
      ((wave (q - 3)).input = false ∨ (wave (q - 2)).input = false) ∧ InInteger n := by
  obtain ⟨u, rfl, last_e1, first_e2⟩ := entry.samples
  obtain ⟨p, p_eq, _⟩ := entry.history
  rw [show u + 3 - 3 = u by omega, show u + 3 - 2 = u + 1 by omega, ← last_e1, ← first_e2]
  have waits_pos := measurement.waits_pos
  have counts_pos := measurement.counts_pos
  constructor
  · rintro ⟨before, width, _, ends, width_pos, counted, low, _, _⟩
    rw [measurement.counter2] at counted
    have width_le : width ≤ n := by
      have := integer_natCast_le n
      omega
    have width_ge : n ≤ width := by
      by_contra! shorter
      rw [measurement.high (t := before) (by omega) (by omega)] at low
      simp at low
    obtain rfl : width = n := le_antisymm width_le width_ge
    refine ⟨?_, counted ▸ inInteger_integer _⟩
    rcases waits_pos.eq_or_lt with rfl | waited
    · obtain rfl : before = u + 2 := by omega
      exact Or.inl low
    · exact Or.inr (measurement.low_before le_rfl (by omega))
  · rintro ⟨seen_low, exact⟩
    obtain ⟨before, before_eq⟩ : ∃ before, before + 2 = u + 3 + m := ⟨u + 1 + m, by omega⟩
    refine ⟨before, n, by omega, by omega, counts_pos, ?_, ?_, ?_, ?_⟩
    · rw [measurement.counter2, integer_of_inInteger exact]
    · rcases waits_pos.eq_or_lt with rfl | waited
      · obtain rfl : before = u + 2 := by omega
        rcases seen_low with low | low
        · exact low
        · rw [measurement.high (t := u + 3) (by omega) (by omega)] at low
          simp at low
      · exact measurement.low_before (by omega) (by omega)
    · exact fun v lower upper => measurement.high (by omega) (by omega)
    · exact measurement.low_after (by omega)

/-- Which E4 report a whole echo.  E2 is entered once in the cycle of every E4, at some edge `q`,
and the trigger pulse of the cycle starts at edge `q - 502`; the count is that of a whole echo if
and only if the echo pin was not high at both edges `q - 3` and `q - 2` and the echo was counted
for an `INTEGER` number of edges. -/
theorem counts_whole_pulse_iff (wave : ℕ → Period Bool) (powerUp : Registers) (t : ℕ)
    (executes : ExecutesE4 wave powerUp t) :
    ∃ q m n, EntersE2 wave powerUp q ∧ Measurement wave powerUp q m n ∧ t = q + m + n ∧
      (CountsWholePulse wave powerUp (q - 502) t ↔
        ((wave (q - 3)).input = false ∨ (wave (q - 2)).input = false) ∧ InInteger n) := by
  obtain ⟨q, m, n, entry, measurement, rfl⟩ := exists_measurement_of_e4 executes.2
  exact ⟨q, m, n, entry, measurement, rfl, measurement.countsWholePulse_iff entry⟩

/-- An echo that is high from the start and falls two edges after the trigger has ended. -/
theorem tail_executesE4 :
    ExecutesE4 (released (echoPulse 0 503)) uninitialised 506 ∧
      (process.trace (released (echoPulse 0 503)) uninitialised 506).counter2 = 2 := by
  have measurement : Measurement (released (echoPulse 0 503)) uninitialised 503 1 2 :=
    measurement_of_echoPulse (by norm_num) (by norm_num) (by norm_num)
  exact ⟨⟨⟨rfl, rfl⟩, measurement.converts⟩, measurement.counter2.trans (by decide)⟩

/-- The two samples that are left of it at the first edge of E2 are reported as a distance. -/
theorem tail_is_reported :
    ExecutesE4 (released (echoPulse 0 503)) uninitialised 506 ∧
      ¬ CountsWholePulse (released (echoPulse 0 503)) uninitialised 1 506 := by
  refine ⟨tail_executesE4.1, ?_⟩
  rintro ⟨before, width, _, ends, _, counted, low, _⟩
  rw [tail_executesE4.2] at counted
  obtain rfl : before = 500 + 2 := by omega
  rw [echoRR_eq_input rfl rfl] at low
  simp [released, echoPulse] at low

/-- The condition at the E4 of that run. -/
theorem counts_whole_pulse_iff_tail :
    ∃ q m n, EntersE2 (released (echoPulse 0 503)) uninitialised q ∧
      Measurement (released (echoPulse 0 503)) uninitialised q m n ∧ 506 = q + m + n ∧
      (CountsWholePulse (released (echoPulse 0 503)) uninitialised (q - 502) 506 ↔
        ((released (echoPulse 0 503) (q - 3)).input = false ∨
          (released (echoPulse 0 503) (q - 2)).input = false) ∧ InInteger n) :=
  counts_whole_pulse_iff _ _ 506 tail_executesE4.1

end TelemetreUs
end FpgaRadar
