import FpgaRadar.TelemetreUs.Trigger

/-!
# The published distance

A complete echo of `n` samples that reaches the pin no earlier than two edges before E2 is counted
exactly, and converted without wrapping as long as `n * 343` is an `INTEGER`.
-/

namespace FpgaRadar
namespace TelemetreUs

open Vhdl

variable {wave : ℕ → Period Bool} {powerUp : Registers} {q a m n t : ℕ}

/-- The conversion truncates and keeps ten bits while the product is an `INTEGER`. -/
theorem distanceOf_toNat (bound : n ≤ 6260885) :
    (distanceOf n).toNat = 343 * n / 1000000 % 1024 := by
  have exact : integer ((n : ℤ) * 343) = ((343 * n : ℕ) : ℤ) := by
    rw [integer_of_inInteger (by rw [inInteger_iff]; omega)]
    push_cast
    ring
  have quotient : (((343 * n : ℕ) : ℤ)).tdiv 1000000 = ((343 * n / 1000000 : ℕ) : ℤ) := by
    rw [Int.tdiv_eq_ediv_of_nonneg (Int.natCast_nonneg _)]
    omega
  rw [distanceOf, exact, quotient, BitVec.ofInt_natCast, BitVec.toNat_ofNat]

/-- The distance output holds from one E4 to the next. -/
theorem distCm_holds {first : ℕ} (first_le : first ≤ t)
    (no_e4 : ∀ u, first ≤ u → u < t → (process.trace wave powerUp u).state ≠ .e4) :
    (process.trace wave powerUp t).distCm = (process.trace wave powerUp first).distCm := by
  induction t, first_le using Nat.le_induction with
  | base => rfl
  | succ t first_le induction =>
      rw [distCm_succ wave powerUp (no_e4 t first_le t.lt_succ_self)]
      exact induction fun u lower upper => no_e4 u lower (by omega)

/-- A run that keeps `rst_n` high after its initial reset enters E2 at least two edges later. -/
theorem start_le_of_entersE2 {start : ℕ} (release : ReleasedFrom wave start)
    (entry : EntersE2 wave powerUp q) : start + 2 ≤ q := by
  by_contra! early
  obtain ⟨p, p_eq, _, triggering⟩ := entry.history
  have held := process.trace_held release powerUp (t := p + 0) (by omega)
  have state := (triggering 0 (by omega)).1
  rw [held] at state
  simp [reset] at state

/-- Measurement correctness.  In a run that keeps `rst_n` high after its initial reset, let E2 be
entered at edge `q`.  An echo of `n` samples from edge `a` on, with `q - 2 ≤ a`, is converted at
edge `a + n + 3` from the count `n`, and the distance is kept until the next E4. -/
theorem measurement_correct (wave : ℕ → Period Bool) (powerUp : Registers) (start q a n : ℕ)
    (release : ReleasedFrom wave start) (entry : EntersE2 wave powerUp q)
    (first : q - 2 ≤ a) (n_pos : 1 ≤ n) (bound : n ≤ 6260885)
    (low : ∀ u, q - 2 ≤ u → u < a → (wave u).input = false)
    (high : ∀ u, a ≤ u → u < a + n → (wave u).input = true)
    (falls : (wave (a + n)).input = false) :
    (process.trace wave powerUp (a + n + 3)).state = .e4 ∧
      (process.trace wave powerUp (a + n + 3)).counter2 = n ∧
      (process.trace wave powerUp (a + n + 4)).distCm.toNat = 343 * n / 1000000 % 1024 ∧
      (n ≤ 2985422 → (process.trace wave powerUp (a + n + 4)).distCm.toNat =
        34300 * n / (2 * 50000000)) ∧
      ∀ t, a + n + 4 ≤ t →
        (∀ u, a + n + 4 ≤ u → u < t → (process.trace wave powerUp u).state ≠ .e4) →
        (process.trace wave powerUp t).distCm =
          (process.trace wave powerUp (a + n + 4)).distCm := by
  have start_le := start_le_of_entersE2 release entry
  obtain ⟨m, delay⟩ : ∃ m, q + m = a + 3 := ⟨a + 3 - q, by omega⟩
  have quiet : Quiet wave (q - 2) (q + m + n + 1) := release.quiet_between (by omega)
  have measurement := measurement_of_echo quiet.init (by omega) entry.1 delay (by omega) n_pos
    (fun u lower upper => low u (by omega) upper) high falls
  have converting := measurement.converts
  have counted := measurement.counter2
  rw [show q + m + n = a + n + 3 by omega] at converting counted
  rw [integer_natCast (by omega)] at counted
  have published : (process.trace wave powerUp (a + n + 4)).distCm.toNat =
      343 * n / 1000000 % 1024 := by
    rw [(e4_step (quiet.period (a + n + 3) (by omega)) converting).2.2, counted,
      distanceOf_toNat bound]
  refine ⟨converting, counted, published, fun small => ?_, fun t after no_e4 =>
    distCm_holds after no_e4⟩
  have unwrapped : 343 * n / 1000000 < 1024 := by omega
  rw [published, Nat.mod_eq_of_lt unwrapped]
  omega

/-- The earliest echo that is still measured in full, with the width of one centimetre. -/
theorem measurement_correct_one_centimetre :
    (process.trace (released (echoPulse 501 2916)) uninitialised 3420).state = .e4 ∧
      (process.trace (released (echoPulse 501 2916)) uninitialised 3420).counter2 = 2916 ∧
      (process.trace (released (echoPulse 501 2916)) uninitialised 3421).distCm.toNat = 1 := by
  obtain ⟨converting, counted, published, _⟩ :=
    measurement_correct (released (echoPulse 501 2916)) uninitialised 0 503 501 2916
      (releasedFrom_released _) (entersE2_of_released _) (by norm_num) (by norm_num) (by norm_num)
      (fun u _ upper => by simp [released, echoPulse]; omega)
      (fun u lower upper => by simp [released, echoPulse]; omega)
      (by simp [released, echoPulse])
  exact ⟨converting, counted, published⟩

end TelemetreUs
end FpgaRadar
