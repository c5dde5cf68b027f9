import FpgaRadar.AvalonSevenSegment.PrintNumHex

/-!
# Which numbers can be printed

The argument of `printNumHex` is an `int`, and the remainder of a negative number is not positive.
So a negative number leads out of the table unless its last six decimal digits are zeros.
-/

namespace FpgaRadar
namespace AvalonSevenSegment

open Vhdl

variable {n k i : ℕ}

/-- Dropping digits does not change the sign. -/
theorem tdiv_neg (n : ℕ) : (-(n : ℤ)).tdiv 10 = -((n / 10 : ℕ) : ℤ) := by
  rw [Int.neg_tdiv]
  rfl

theorem tmod_neg (n : ℕ) : (-(n : ℤ)).tmod 10 = -((n % 10 : ℕ) : ℤ) := by
  rw [Int.neg_tmod]
  rfl

theorem digit_zero (i : ℕ) : digit 0 i = 0 := by
  apply Fin.ext
  simp [digit]

theorem digitStore_eq_of_digit {num num' : ℕ} (equal : digit num i = digit num' i) :
    digitStore num i = digitStore num' i :=
  congrArg (fun d : Fin 10 => ({ offset := i * offset, data := ~~~sevenSeg[d] } : Iowr)) equal

/-- One iteration on a number that is not positive. -/
theorem printDigit_neg (n : ℕ) (iowrs : List Iowr) (i : ℕ) :
    printDigit (-(n : ℤ), iowrs) i =
      if 10 ∣ n then some (-((n / 10 : ℕ) : ℤ), iowrs ++ [digitStore 0 i]) else none := by
  rw [printDigit]
  simp only [tmod_neg, tdiv_neg]
  split_ifs with multiple
  · have stored : lookup (-((n % 10 : ℕ) : ℤ)) = some sevenSeg[digit 0 i] := by
      have zero := lookup_digit 0 i
      rw [Nat.zero_div] at zero
      rw [Nat.mod_eq_zero_of_dvd multiple]
      exact zero
    rw [stored]
    rfl
  · have positive : 0 < n % 10 := Nat.emod_pos_of_not_dvd multiple
    rw [lookup, if_neg (by omega)]
    rfl

/-- The loop goes on while the digits are zeros. -/
theorem foldlM_printDigit_neg (n k : ℕ) :
    (List.range k).foldlM printDigit (-(n : ℤ), []) =
      if 10 ^ k ∣ n then some (-((n / 10 ^ k : ℕ) : ℤ), (List.range k).map (digitStore 0))
      else none := by
  induction k with
  | zero => simp
  | succ k induction =>
      rw [List.range_succ, List.foldlM_append, induction, List.map_append]
      by_cases zeros : 10 ^ k ∣ n
      · have more : 10 ∣ n / 10 ^ k ↔ 10 ^ (k + 1) ∣ n := by
          rw [Nat.dvd_div_iff_mul_dvd zeros, pow_succ]
        rw [if_pos zeros]
        simp only [Option.bind_eq_bind, Option.bind_some, List.foldlM_cons, List.foldlM_nil,
          printDigit_neg, more, Nat.div_div_eq_div_mul, ← pow_succ]
        split_ifs <;> rfl
      · have fewer : ¬ 10 ^ (k + 1) ∣ n := fun more => zeros ((pow_dvd_pow 10 k.le_succ).trans more)
        rw [if_neg zeros, if_neg fewer]
        rfl

/-- A number whose last digits are zeros has the stores of zero. -/
theorem digitStores_of_dvd (zeros : 10 ^ digitCount ∣ n) :
    (List.finRange 6).map (fun i : Fin 6 => digitStore 0 i) =
      (List.finRange 6).map fun i : Fin 6 => digitStore n i := by
  apply List.map_congr_left
  intro i _
  apply digitStore_eq_of_digit
  have dvd : 10 ^ ((i : ℕ) + 1) ∣ n := (pow_dvd_pow 10 i.isLt).trans zeros
  have multiple : 10 ∣ n / 10 ^ (i : ℕ) := by
    rw [Nat.dvd_div_iff_mul_dvd ((pow_dvd_pow 10 (Nat.le_succ _)).trans dvd), ← pow_succ]
    exact dvd
  rw [digit_zero]
  apply Fin.ext
  exact (Nat.mod_eq_zero_of_dvd multiple).symm

theorem printNumHex_neg (n : ℕ) :
    printNumHex (-(n : ℤ)) =
      if 10 ^ digitCount ∣ n then some ((List.finRange 6).map fun i : Fin 6 => digitStore n i)
      else none := by
  rw [printNumHex, foldlM_printDigit_neg]
  split_ifs with zeros
  · rw [← digitStores_of_dvd zeros]
    rfl
  · rfl

/-- The domain of `printNumHex`.  The table is left exactly for the negative numbers that are not
multiples of a million, and when the stores of any other number have reached the displays, whatever
these held before, they show its absolute value modulo a million. -/
theorem printNumHex_domain (num : ℤ) :
    ((∃ iowrs, printNumHex num = some iowrs) ↔ 0 ≤ num ∨ 10 ^ 6 ∣ num) ∧
      ∀ iowrs, printNumHex num = some iowrs →
        ∀ (wave : ℕ → Period Bus) (registers : Registers) (n : ℕ), Quiet wave 0 n →
          slave.Carries (Port.inputs wave n) iowrs →
          (process.run wave registers n).shown = some (num.natAbs % 10 ^ 6) := by
  have shows : ∀ (m : ℕ) (iowrs : List Iowr),
      iowrs = ((List.finRange 6).map fun i : Fin 6 => digitStore m i) →
        ∀ (wave : ℕ → Period Bus) (registers : Registers) (n : ℕ), Quiet wave 0 n →
          slave.Carries (Port.inputs wave n) iowrs →
          (process.run wave registers n).shown = some (m % 10 ^ 6) := by
    rintro m _ rfl wave registers n quiet carries
    exact shown_of_output
      (output_of_digitStores (fun i => List.mem_finRange i) quiet carries registers)
  rcases Int.eq_nat_or_neg num with ⟨m, rfl | rfl⟩
  · rw [printNumHex_eq, Int.natAbs_natCast]
    refine ⟨⟨fun _ => Or.inl (Int.natCast_nonneg m), fun _ => ⟨_, rfl⟩⟩, ?_⟩
    intro iowrs printed
    exact shows m iowrs (Option.some.inj printed).symm
  · have multiple : (10 ^ 6 : ℤ) ∣ -(m : ℤ) ↔ 10 ^ digitCount ∣ m := by
      rw [Int.dvd_neg, digitCount]
      exact_mod_cast Iff.rfl
    have zero : 0 ≤ -(m : ℤ) → 10 ^ digitCount ∣ m := by
      intro nonneg
      obtain rfl : m = 0 := by omega
      exact dvd_zero _
    rw [printNumHex_neg, Int.natAbs_neg, Int.natAbs_natCast, multiple]
    split_ifs with zeros
    · exact ⟨⟨fun _ => Or.inr zeros, fun _ => ⟨_, rfl⟩⟩, fun iowrs printed =>
        shows m iowrs (Option.some.inj printed).symm⟩
    · refine ⟨⟨?_, fun defined => ?_⟩, fun _ printed => printed.elim⟩
      · rintro ⟨iowrs, printed⟩
        exact printed.elim
      · exact absurd (defined.elim zero id) zeros

end AvalonSevenSegment
end FpgaRadar
