import FpgaRadar.TelemetreUs.Phases

/-!
# Measurement cycles

A measurement spends `m` edges in E2 and `n` edges in E3 and converts `n` in E4; the automaton is
back in E0 after a cooldown that depends on `n`.  This file recovers `m` and `n` from any run that
leaves E2 and from any echo that E2 waits for, and gives the state at every edge of the cycle.
-/

namespace FpgaRadar
namespace TelemetreUs

open Vhdl

/-- E2 is executed from edge `q` for `m` edges, then E3 for `n` edges, then E4. -/
structure Measurement (wave : ℕ → Period Bool) (powerUp : Registers) (q m n : ℕ) : Prop where
  /-- E2 is executed at least once. -/
  waits_pos : 1 ≤ m
  /-- E3 is executed at least once. -/
  counts_pos : 1 ≤ n
  /-- No reset falls into the measurement. -/
  quiet : Quiet wave q (q + m + n)
  /-- The edges spent waiting for the echo. -/
  waits : ∀ t, q ≤ t → t < q + m → (process.trace wave powerUp t).state = .e2
  /-- The edges spent counting. -/
  counts : ∀ t, q + m ≤ t → t < q + m + n → (process.trace wave powerUp t).state = .e3
  /-- The edge at which the count is converted. -/
  converts : (process.trace wave powerUp (q + m + n)).state = .e4
  /-- The count that is converted. -/
  counter2 : (process.trace wave powerUp (q + m + n)).counter2 = integer n

variable {wave : ℕ → Period Bool} {powerUp : Registers} {q a m n t last : ℕ}

theorem e2_succ (quiet : (wave t).Quiet) (state : (process.trace wave powerUp t).state = .e2) :
    ((process.trace wave powerUp (t + 1)).state = .e2 ∧
        (process.trace wave powerUp t).echoRR = false) ∨
      ((process.trace wave powerUp (t + 1)).state = .e3 ∧
        (process.trace wave powerUp t).echoRR = true) := by
  cases sample : (process.trace wave powerUp t).echoRR with
  | false =>
      refine Or.inl ⟨?_, rfl⟩
      rw [trace_step wave powerUp quiet, clocked_state]
      simp [state, sample]
  | true => exact Or.inr ⟨(e2_exit quiet state sample).1, rfl⟩

theorem e3_succ (quiet : (wave t).Quiet) (state : (process.trace wave powerUp t).state = .e3) :
    ((process.trace wave powerUp (t + 1)).state = .e3 ∧
        (process.trace wave powerUp t).echoRR = true) ∨
      ((process.trace wave powerUp (t + 1)).state = .e4 ∧
        (process.trace wave powerUp t).echoRR = false) := by
  cases sample : (process.trace wave powerUp t).echoRR with
  | false => exact Or.inr ⟨e3_exit quiet state sample, rfl⟩
  | true =>
      refine Or.inl ⟨?_, rfl⟩
      rw [trace_step wave powerUp quiet, clocked_state]
      simp [state, sample]

/-- A run that is in E2 and later in neither E2 nor E3 has completed a measurement. -/
theorem exists_measurement (bound : q ≤ last) (quiet : Quiet wave q last)
    (state : (process.trace wave powerUp q).state = .e2)
    (not_waiting : (process.trace wave powerUp last).state ≠ .e2)
    (not_counting : (process.trace wave powerUp last).state ≠ .e3) :
    ∃ m n, Measurement wave powerUp q m n ∧ q + m + n ≤ last := by
  obtain ⟨start, q_lt, start_le, waits, left⟩ :=
    exists_exit (fun t => (process.trace wave powerUp t).state = .e2)
      bound state not_waiting
  obtain ⟨m, start_eq⟩ : ∃ m, start = q + m := ⟨start - q, by omega⟩
  subst start_eq
  obtain ⟨before, before_eq⟩ : ∃ before, q + m = before + 1 := ⟨q + m - 1, by omega⟩
  have quiet_before : (wave before).Quiet := quiet.period before (by omega)
  have waiting := waits before (by omega) (by omega)
  rw [before_eq] at left
  obtain ⟨kept, _⟩ | ⟨_, high⟩ := e2_succ quiet_before waiting
  · exact absurd kept left
  obtain ⟨counting, cleared⟩ := e2_exit quiet_before waiting high
  rw [← before_eq] at counting cleared
  obtain ⟨done, start_lt, done_le, counts, stopped⟩ :=
    exists_exit (fun t => (process.trace wave powerUp t).state = .e3)
      start_le counting not_counting
  obtain ⟨n, done_eq⟩ : ∃ n, done = q + m + n := ⟨done - (q + m), by omega⟩
  subst done_eq
  obtain ⟨final, final_eq⟩ : ∃ final, q + m + n = final + 1 := ⟨q + m + n - 1, by omega⟩
  have converted : (process.trace wave powerUp (q + m + n)).state = .e4 := by
    rw [final_eq] at stopped ⊢
    obtain ⟨kept, _⟩ | ⟨converts, _⟩ := e3_succ (quiet.period final (by omega))
      (counts final (by omega) (by omega))
    · exact absurd kept stopped
    · exact converts
  refine ⟨m, n, ⟨by omega, by omega, quiet.mono ⟨le_rfl, done_le⟩, waits, counts, converted, ?_⟩,
    done_le⟩
  exact e3_counter2 (quiet.mono ⟨by omega, done_le⟩)
    (fun j bound => counts (q + m + j) (by omega) (by omega)) cleared

/-- One complete echo that reaches the pin no earlier than two edges before E2 is measured. -/
theorem measurement_of_echo (quiet : Quiet wave (q - 2) (q + m + n)) (q_pos : 2 ≤ q)
    (waiting : (process.trace wave powerUp q).state = .e2) (delay : q + m = a + 3)
    (m_pos : 1 ≤ m) (n_pos : 1 ≤ n)
    (low : ∀ u, q ≤ u + 2 → u < a → (wave u).input = false)
    (high : ∀ u, a ≤ u → u < a + n → (wave u).input = true)
    (falls : (wave (a + n)).input = false) : Measurement wave powerUp q m n := by
  have sample : ∀ u, q ≤ u + 2 → u + 2 < q + m + n →
      (process.trace wave powerUp (u + 2)).echoRR = (wave u).input := fun u lower upper =>
    echoRR_eq_input (quiet.period u (by omega)).2 (quiet.period (u + 1) (by omega)).2
  have waits : ∀ t, q ≤ t → t < q + m → (process.trace wave powerUp t).state = .e2 := by
    intro t lower upper
    obtain ⟨i, rfl⟩ := Nat.exists_eq_add_of_le lower
    apply e2_phase (quiet.mono (by omega)) waiting
    intro j bound
    obtain ⟨u, u_eq⟩ : ∃ u, q + j = u + 2 := ⟨q + j - 2, by omega⟩
    rw [u_eq, sample u (by omega) (by omega)]
    exact low u (by omega) (by omega)
  obtain ⟨counting, cleared⟩ : (process.trace wave powerUp (q + m)).state = .e3 ∧
      (process.trace wave powerUp (q + m)).counter2 = 0 := by
    rw [delay]
    exact e2_exit (quiet.period (a + 2) (by omega)) (waits (a + 2) (by omega) (by omega))
      ((sample a (by omega) (by omega)).trans (high a le_rfl (by omega)))
  have counts : ∀ t, q + m ≤ t → t < q + m + n →
      (process.trace wave powerUp t).state = .e3 := by
    intro t lower upper
    obtain ⟨i, rfl⟩ := Nat.exists_eq_add_of_le lower
    apply e3_phase (quiet.mono (by omega)) counting
    intro j bound
    rw [show q + m + j = a + 1 + j + 2 by omega, sample (a + 1 + j) (by omega) (by omega)]
    exact high (a + 1 + j) (by omega) (by omega)
  refine ⟨m_pos, n_pos, quiet.mono ⟨Nat.sub_le q 2, le_rfl⟩, waits, counts, ?_, ?_⟩
  · have final : (process.trace wave powerUp (a + n + 2)).state = .e3 :=
      counts (a + n + 2) (by omega) (by omega)
    rw [show q + m + n = a + n + 2 + 1 by omega]
    exact e3_exit (quiet.period (a + n + 2) (by omega)) final
      ((sample (a + n) (by omega) (by omega)).trans falls)
  · exact e3_counter2 (quiet.mono (by omega))
      (fun j bound => counts (q + m + j) (by omega) (by omega)) cleared

/-- The edge at which the automaton is back in E0 after measuring `n` from edge `q` on. -/
def restartEdge (q m n : ℕ) : ℕ := q + m + n + (5000001 - n) + 2

namespace Measurement

/-- While E2 is kept the synchronised echo is low. -/
theorem low_before (measurement : Measurement wave powerUp q m n) (first_le : q ≤ t)
    (within : t + 1 < q + m) : (process.trace wave powerUp t).echoRR = false := by
  have counts_pos := measurement.counts_pos
  obtain ⟨_, low⟩ | ⟨counting, _⟩ := e2_succ (measurement.quiet t first_le (by omega))
    (measurement.waits t first_le (by omega))
  · exact low
  · rw [measurement.waits (t + 1) (by omega) within] at counting
    contradiction

/-- The sample that ends E2 and those that keep E3 are high. -/
theorem high (measurement : Measurement wave powerUp q m n) (first_le : q + m ≤ t + 1)
    (within : t + 1 < q + m + n) : (process.trace wave powerUp t).echoRR = true := by
  have waits_pos := measurement.waits_pos
  have counting := measurement.counts (t + 1) first_le within
  have quiet := measurement.quiet.period t (by omega)
  rcases first_le.eq_or_lt with start | later
  · obtain ⟨waiting, _⟩ | ⟨_, high⟩ := e2_succ quiet (measurement.waits t (by omega) (by omega))
    · rw [counting] at waiting
      contradiction
    · exact high
  · obtain ⟨_, high⟩ | ⟨converting, _⟩ :=
      e3_succ quiet (measurement.counts t (by omega) (by omega))
    · exact high
    · rw [counting] at converting
      contradiction

/-- The sample that ends E3 is low. -/
theorem low_after (measurement : Measurement wave powerUp q m n) (final : t + 1 = q + m + n) :
    (process.trace wave powerUp t).echoRR = false := by
  have counts_pos := measurement.counts_pos
  obtain ⟨counting, _⟩ | ⟨_, low⟩ := e3_succ (measurement.quiet.period t (by omega))
    (measurement.counts t (by omega) (by omega))
  · rw [final, measurement.converts] at counting
    contradiction
  · exact low

/-- The cooldown starts from the width of the echo. -/
theorem cools (measurement : Measurement wave powerUp q m n) (exact : InInteger n) {i : ℕ}
    (quiet : Quiet wave q (q + m + n + 1 + i)) (bound : i ≤ 5000001 - n) :
    (process.trace wave powerUp (q + m + n + 1 + i)).state = .e5 ∧
      (process.trace wave powerUp (q + m + n + 1 + i)).counter2 = n + i := by
  obtain ⟨cooling, counter, _⟩ :=
    e4_step (quiet.period (q + m + n) (by omega)) measurement.converts
  rw [measurement.counter2, integer_of_inInteger exact] at counter
  rcases Nat.eq_zero_or_pos i with rfl | i_pos
  · exact ⟨cooling, by simpa using counter⟩
  · rw [inInteger_iff] at exact
    rw [← counter]
    refine e5_phase (quiet.mono (by omega)) cooling ?_ (by omega)
    rw [counter, integerLow]
    omega

/-- The automaton is back in E0 after the cooldown. -/
theorem restarts (measurement : Measurement wave powerUp q m n) (exact : InInteger n)
    (quiet : Quiet wave q (restartEdge q m n)) :
    (process.trace wave powerUp (restartEdge q m n)).state = .e0 := by
  rw [restartEdge] at quiet ⊢
  obtain ⟨cooling, counter⟩ := measurement.cools exact (i := 5000001 - n)
    (quiet.mono (by omega)) le_rfl
  rw [show q + m + n + (5000001 - n) + 2 = q + m + n + 1 + (5000001 - n) + 1 by omega]
  apply e5_exit (quiet.period _ (by omega)) cooling
  rw [counter]
  omega

/-- The state at every edge from the start of E2 to the first edge of the next trigger. -/
theorem state_eq (measurement : Measurement wave powerUp q m n) (exact : InInteger n)
    (quiet : Quiet wave q t) (first_le : q ≤ t) (bound : t ≤ restartEdge q m n + 1) :
    (process.trace wave powerUp t).state =
      if t < q + m then .e2
      else if t < q + m + n then .e3
      else if t = q + m + n then .e4
      else if t < restartEdge q m n then .e5
      else if t = restartEdge q m n then .e0
      else .e1 := by
  split_ifs with waiting counting converting cooling restarting
  · exact measurement.waits t first_le waiting
  · exact measurement.counts t (by omega) counting
  · exact converting ▸ measurement.converts
  · rw [restartEdge] at cooling
    obtain ⟨i, rfl⟩ : ∃ i, t = q + m + n + 1 + i := ⟨t - (q + m + n + 1), by omega⟩
    exact (measurement.cools exact quiet (by omega)).1
  · subst restarting
    exact measurement.restarts exact quiet
  · obtain rfl : t = restartEdge q m n + 1 := by omega
    have restarted := measurement.restarts exact (quiet.mono (by omega))
    exact (e0_step (quiet.period _ (by omega)) restarted).1

/-- The trigger output is low from the second edge of E2 to the first edge of the next E1. -/
theorem trig_low (measurement : Measurement wave powerUp q m n) (exact : InInteger n)
    (quiet : Quiet wave q t) (first_lt : q < t) (bound : t ≤ restartEdge q m n + 1) :
    (process.trace wave powerUp t).trig = false := by
  induction t, first_lt using Nat.le_induction with
  | base =>
      rw [trace_step wave powerUp (quiet.period q (by omega)), clocked_trig,
        measurement.waits q le_rfl (by have := measurement.waits_pos; omega)]
  | succ t first_le induction =>
      have low := induction (quiet.mono (by omega)) (by omega)
      have state := measurement.state_eq exact (quiet.mono ⟨le_rfl, t.le_succ⟩) (by omega)
        (by omega)
      rw [trace_step wave powerUp (quiet.period t (by omega)), clocked_trig, low, state]
      split_ifs <;> first | rfl | omega

end Measurement
end TelemetreUs
end FpgaRadar
