import Mathlib.Data.Int.Basic
import Mathlib.Tactic

/-!
# Predefined integer types

`INTEGER` holds the values of 32-bit two's complement and `NATURAL` its nonnegative half.  An
operation whose exact result leaves the range is an error of the language; the circuit keeps the
low bits.  `integer` and `natural` are the circuit's readings, and they are the identity on the
range, which is the only fact about them that a program may rely on.
-/

namespace Vhdl

/-- `INTEGER'LOW`. -/
def integerLow : ℤ := -2147483648

/-- `INTEGER'HIGH`. -/
def integerHigh : ℤ := 2147483647

/-- The exact value is a value of `INTEGER`. -/
def InInteger (value : ℤ) : Prop := integerLow ≤ value ∧ value ≤ integerHigh

instance (value : ℤ) : Decidable (InInteger value) :=
  inferInstanceAs (Decidable (integerLow ≤ value ∧ value ≤ integerHigh))

/-- The 32-bit result of an `INTEGER` operation with the given exact value. -/
def integer (value : ℤ) : ℤ := Int.bmod value (2 ^ 32)

/-- The 31 bits that a signal of subtype `NATURAL` keeps of an `INTEGER` value. -/
def natural (value : ℤ) : ℕ := (value % 2 ^ 31).toNat

theorem inInteger_iff (value : ℤ) :
    InInteger value ↔ -2147483648 ≤ value ∧ value ≤ 2147483647 := Iff.rfl

theorem integer_of_inInteger {value : ℤ} (inRange : InInteger value) : integer value = value := by
  rw [inInteger_iff] at inRange
  rw [integer, Int.bmod_eq_of_le] <;> omega

theorem inInteger_natCast {value : ℕ} (bound : value ≤ 2147483647) : InInteger value := by
  rw [inInteger_iff]
  omega

theorem integer_natCast {value : ℕ} (bound : value ≤ 2147483647) :
    integer value = value :=
  integer_of_inInteger (inInteger_natCast bound)

theorem inInteger_integer (value : ℤ) : InInteger (integer value) := by
  have lower := Int.le_bmod (x := value) (m := 2 ^ 32) (by norm_num)
  have upper := Int.bmod_lt (x := value) (m := 2 ^ 32) (by norm_num)
  rw [inInteger_iff, integer]
  omega

/-- Wrapping an operand first does not change a wrapped sum. -/
theorem integer_integer_add (value offset : ℤ) :
    integer (integer value + offset) = integer (value + offset) := by
  simp [integer]

theorem natural_natCast {value : ℕ} (bound : value ≤ 2147483647) : natural value = value := by
  rw [natural]
  omega

/-- The low 31 bits of a sum or product do not depend on the overflow. -/
theorem natural_integer (value : ℤ) : natural (integer value) = natural value := by
  have multiple : (2 ^ 31 : ℤ) ∣ ((2 ^ 32 : ℕ) : ℤ) := ⟨2, by norm_num⟩
  rw [natural, natural, integer, ← Int.emod_emod_of_dvd _ multiple, Int.bmod_emod,
    Int.emod_emod_of_dvd _ multiple]

theorem natural_natCast_le (value : ℕ) : natural value ≤ value := by
  rw [natural]
  exact Int.toNat_le.mpr (by exact_mod_cast Nat.mod_le value (2 ^ 31))

theorem natural_le (value : ℤ) : natural value ≤ 2147483647 := by
  rw [natural]
  omega

end Vhdl
