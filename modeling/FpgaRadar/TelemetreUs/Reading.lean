import FpgaRadar.TelemetreUs.Echo

/-!
# Complete echo pulses

A complete echo pulse is one whose rising edge reaches the pin when the automaton can still see it.
Its width is counted, converted, and shown on the distance output from the next edge on; what
resets do before the cycle or after the conversion is of no consequence.
-/

namespace FpgaRadar
namespace TelemetreUs

open Vhdl

/-- The samples `a`, ..., `a + n - 1` form a complete echo pulse that is measured in the cycle that
enters E2 at edge `q`. -/
structure MeasuredEcho (wave : ℕ → Period Bool) (powerUp : Registers) (q a n : ℕ) : Prop where
  /-- The edge that enters E2. -/
  entry : EntersE2 wave powerUp q
  /-- The pulse is in time. -/
  arrives : q ≤ a + 2
  /-- It has at least one sample. -/
  nonempty : 1 ≤ n
  /-- The pin is low until it starts, and just before. -/
  low_before : ∀ u, q ≤ u + 3 → u < a → (wave u).input = false
  /-- The pulse. -/
  high : ∀ u, a ≤ u → u < a + n → (wave u).input = true
  /-- The pulse ends. -/
  falls : (wave (a + n)).input = false
  /-- No reset comes between. -/
  quiet : Quiet wave (q - 2) (a + n + 4)

variable {wave : ℕ → Period Bool} {powerUp : Registers} {q a m n m' n' : ℕ}

theorem MeasuredEcho.measurement (echo : MeasuredEcho wave powerUp q a n) :
    ∃ m, q + m = a + 3 ∧ Measurement wave powerUp q m n := by
  have later := echo.entry.after_reset
  have arrives := echo.arrives
  obtain ⟨m, delay⟩ : ∃ m, q + m = a + 3 := ⟨a + 3 - q, by omega⟩
  refine ⟨m, delay, measurement_of_echo (echo.quiet.mono (by omega)) (by omega) echo.entry.1 delay
    (by omega) echo.nonempty (fun u lower upper => ?_) echo.high echo.falls⟩
  exact echo.low_before u (by omega) upper

/-- The distance output after the conversion. -/
theorem MeasuredEcho.distCm (echo : MeasuredEcho wave powerUp q a n) (exact : n ≤ 6260885) :
    (process.trace wave powerUp (a + n + 4)).distCm.toNat = 343 * n / 1000000 % 1024 := by
  obtain ⟨m, delay, measurement⟩ := echo.measurement
  have arrives := echo.arrives
  have edge_eq : q + m + n = a + n + 3 := by omega
  have converting := measurement.converts
  have counted := measurement.counter2
  rw [edge_eq] at converting counted
  rw [(e4_step (echo.quiet.period (a + n + 3) (by omega)) converting).2.2, counted,
    integer_natCast (by omega), distanceOf_toNat exact]

/-- A measurement is determined by the edge that enters E2. -/
theorem Measurement.unique (measurement : Measurement wave powerUp q m n)
    (measurement' : Measurement wave powerUp q m' n') : m = m' ∧ n = n' := by
  have waits_le : ∀ {m n m' n'}, Measurement wave powerUp q m n →
      Measurement wave powerUp q m' n' → m' ≤ m := by
    intro m n m' n' one other
    by_contra! longer
    have counting := one.counts (q + m) le_rfl (by have := one.counts_pos; omega)
    rw [other.waits (q + m) (Nat.le_add_right q m) (by omega)] at counting
    contradiction
  obtain rfl : m = m' := le_antisymm (waits_le measurement' measurement)
    (waits_le measurement measurement')
  have counts_le : ∀ {n n'}, Measurement wave powerUp q m n →
      Measurement wave powerUp q m n' → n' ≤ n := by
    intro n n' one other
    by_contra! longer
    have converting := one.converts
    rw [other.counts (q + m + n) (Nat.le_add_right _ n) (by omega)] at converting
    contradiction
  exact ⟨rfl, le_antisymm (counts_le measurement' measurement) (counts_le measurement measurement')⟩

/-- No other distance is published before the automaton is back in E1. -/
theorem Measurement.not_e4_after (measurement : Measurement wave powerUp q m n)
    (exact : InInteger n) {t : ℕ} (quiet : Quiet wave q t) (after : q + m + n < t)
    (before : t ≤ restartEdge q m n + 1) : (process.trace wave powerUp t).state ≠ .e4 := by
  rw [measurement.state_eq exact quiet (by omega) before, if_neg (by omega), if_neg (by omega),
    if_neg (by omega)]
  split_ifs <;> simp

/-- A run that is never reset again, on an input that is high around the pulse for its samples
only. -/
theorem measuredEcho_of_input {input : ℕ → Bool} (entry : EntersE2 (released input) powerUp q)
    (arrives : q ≤ a + 2) (nonempty : 1 ≤ n)
    (high_iff : ∀ u, q ≤ u + 3 → u ≤ a + n → (input u = true ↔ a ≤ u ∧ u < a + n)) :
    MeasuredEcho (released input) powerUp q a n where
  entry := entry
  arrives := arrives
  nonempty := nonempty
  low_before u lower upper := by
    apply Bool.eq_false_of_not_eq_true
    intro high
    exact absurd ((high_iff u lower (by omega)).mp high).1 (not_le.mpr upper)
  high u lower upper := (high_iff u (by omega) upper.le).mpr ⟨lower, upper⟩
  falls := by
    apply Bool.eq_false_of_not_eq_true
    intro high
    exact absurd ((high_iff (a + n) (by omega) le_rfl).mp high).2 (lt_irrefl _)
  quiet := quiet_released _ _ _

/-- A single echo pulse that starts when E2 is first entered. -/
theorem measuredEcho_of_echoPulse {n : ℕ} (nonempty : 1 ≤ n) :
    MeasuredEcho (released (echoPulse 503 n)) uninitialised 503 503 n :=
  measuredEcho_of_input (entersE2_of_released _) (Nat.le_add_right 503 2) nonempty
    fun _ _ _ => decide_eq_true_iff

end TelemetreUs
end FpgaRadar
