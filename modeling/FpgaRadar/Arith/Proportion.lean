import Mathlib.Data.Nat.ModEq
import Mathlib.Tactic

/-!
# Truncated proportions

`n * p / d` is the truncated proportion that a program computes in place of a rational factor
`p / d`.  Below slope one a proportion climbs by at most one at a time, so two of them that agree
modulo anything from two on cannot drift apart.
-/

namespace Proportion

variable {p d p' d' n bound modulus : ℕ}

/-- A proportion below slope one climbs by at most one. -/
theorem succ_mul_div (below : p < d) :
    (n + 1) * p / d = n * p / d ∨ (n + 1) * p / d = n * p / d + 1 := by
  have positive : 0 < d := Nat.zero_lt_of_lt below
  have lower : n * p / d ≤ (n + 1) * p / d :=
    Nat.div_le_div_right (Nat.mul_le_mul_right p n.le_succ)
  have upper : (n + 1) * p / d ≤ n * p / d + 1 := by
    rw [← Nat.add_div_right _ positive, Nat.succ_mul]
    exact Nat.div_le_div_right (Nat.add_le_add_left below.le _)
  rcases lower.eq_or_lt with kept | climbed
  · exact Or.inl kept.symm
  · exact Or.inr (le_antisymm upper climbed)

theorem succ_mod_ne (two_le : 2 ≤ modulus) (n : ℕ) : (n + 1) % modulus ≠ n % modulus := by
  intro same
  have one : 1 ≡ 0 [MOD modulus] := Nat.ModEq.add_left_cancel' n same
  have one_le := Nat.le_of_dvd Nat.one_pos ((Nat.modEq_zero_iff_dvd).mp one)
  omega

/-- Proportions below slope one that agree modulo a number agree. -/
theorem eq_of_mod_eq (two_le : 2 ≤ modulus) (below : p < d) (below' : p' < d')
    (agree : ∀ n, n ≤ bound → n * p / d % modulus = n * p' / d' % modulus) {n : ℕ}
    (n_le : n ≤ bound) : n * p / d = n * p' / d' := by
  induction n with
  | zero => simp
  | succ n induction =>
      have same := induction (n.le_succ.trans n_le)
      have agree_succ := agree (n + 1) n_le
      rcases succ_mul_div (n := n) below with kept | climbed
      · rcases succ_mul_div (n := n) below' with kept' | climbed'
        · rw [kept, kept', same]
        · rw [kept, climbed', ← same] at agree_succ
          exact absurd agree_succ.symm (succ_mod_ne two_le _)
      · rcases succ_mul_div (n := n) below' with kept' | climbed'
        · rw [climbed, kept', ← same] at agree_succ
          exact absurd agree_succ (succ_mod_ne two_le _)
        · rw [climbed, climbed', same]

/-- Modulo a number the slope matters modulo that number only. -/
theorem mod_mul_div (positive : 0 < d) (n p modulus : ℕ) :
    n * (p % (modulus * d)) / d % modulus = n * p / d % modulus := by
  have split : n * p = n * (p % (modulus * d)) + d * (modulus * (n * (p / (modulus * d)))) := by
    calc
      n * p = n * (p % (modulus * d) + modulus * d * (p / (modulus * d))) := by
        rw [Nat.mod_add_div]
      _ = n * (p % (modulus * d)) + d * (modulus * (n * (p / (modulus * d)))) := by ring
  rw [split, Nat.add_mul_div_left _ _ positive, Nat.add_mul_mod_self_left]

/-- The range of numerators with a given proportion. -/
theorem div_bounds (positive : 0 < d) {value : ℕ} (div_eq : p / d = value) :
    value * d ≤ p ∧ p < (value + 1) * d := by
  rw [← div_eq]
  exact ⟨Nat.div_mul_le_self p d, by
    rw [Nat.mul_comm]
    exact Nat.lt_mul_div_succ p positive⟩

end Proportion
