import Mathlib.Tactic

/-!
# Gray codes

The Gray code of a number differs from that of its successor in one bit, which is why counters are
handed from one clock to another in this code.  Equality of numbers, half a turn of the counter and
the number without its top bit can all be seen in the code.
-/

namespace Gray

variable {w : ℕ}

/-- The Gray code of a number. -/
def gray (x : BitVec w) : BitVec w := x ^^^ (x >>> 1)

theorem getLsbD_gray (x : BitVec w) (i : ℕ) :
    (gray x).getLsbD i = (x.getLsbD i ^^ x.getLsbD (i + 1)) := by
  rw [gray, BitVec.getLsbD_xor, BitVec.getLsbD_ushiftRight, Nat.add_comm]

theorem gray_xor (x y : BitVec w) : gray (x ^^^ y) = gray x ^^^ gray y := by
  rw [gray, gray, gray, BitVec.ushiftRight_xor_distrib]
  ac_rfl

theorem gray_injective : Function.Injective (gray : BitVec w → BitVec w) := by
  intro x y same
  have difference : gray (x ^^^ y) = 0#w := by rw [gray_xor, same, BitVec.xor_self]
  have shifted : x ^^^ y = (x ^^^ y) >>> 1 := BitVec.xor_eq_zero_iff.mp difference
  have halved : (x ^^^ y).toNat = (x ^^^ y).toNat / 2 := by
    conv_lhs => rw [shifted]
    rw [BitVec.toNat_ushiftRight, Nat.shiftRight_eq_div_pow, pow_one]
  have zero : x ^^^ y = 0#w := BitVec.eq_of_toNat_eq (by rw [BitVec.toNat_zero]; omega)
  exact BitVec.xor_eq_zero_iff.mp zero

/-- Half a turn changes the top bit only. -/
theorem add_half (x : BitVec (w + 1)) :
    x + BitVec.twoPow (w + 1) w = x ^^^ BitVec.twoPow (w + 1) w := by
  obtain ⟨b, y, rfl⟩ : ∃ b, ∃ y : BitVec w, x = BitVec.cons b y :=
    ⟨x.msb, x.setWidth w, (BitVec.cons_msb_setWidth x).symm⟩
  have y_lt := y.isLt
  rw [← BitVec.true_cons_zero, BitVec.cons_xor_cons, BitVec.xor_zero]
  apply BitVec.eq_of_toNat_eq
  rw [BitVec.toNat_add, BitVec.toNat_cons', BitVec.toNat_cons', BitVec.toNat_cons',
    BitVec.toNat_zero, pow_succ]
  cases b with
  | false =>
      simp only [Bool.toNat_false, Bool.not_false, Nat.zero_shiftLeft, Bool.toNat_true,
        Nat.one_shiftLeft, Nat.zero_add, Nat.add_zero, Bool.bne_true]
      rw [Nat.mod_eq_of_lt (by omega), Nat.add_comm]
  | true =>
      simp only [Bool.toNat_true, Bool.not_true, Nat.zero_shiftLeft, Bool.toNat_false,
        Nat.one_shiftLeft, Nat.zero_add, Nat.add_zero, Bool.bne_true]
      rw [show 2 ^ w + y.toNat + 2 ^ w = y.toNat + 2 ^ w * 2 by omega, Nat.add_mod_right,
        Nat.mod_eq_of_lt (by omega)]

/-- In the code half a turn changes the two top bits. -/
theorem gray_add_half (x : BitVec (w + 1)) :
    gray (x + BitVec.twoPow (w + 1) w) = gray x ^^^ gray (BitVec.twoPow (w + 1) w) := by
  rw [add_half, gray_xor]

/-- The code of a number without its top bit comes from folding the two top bits of its code. -/
theorem gray_setWidth (x : BitVec (w + 2)) :
    gray (x.setWidth (w + 1)) =
      BitVec.cons ((gray x).getLsbD (w + 1) ^^ (gray x).getLsbD w) ((gray x).setWidth w) := by
  apply BitVec.eq_of_getLsbD_eq
  intro i bound
  have top : x.getLsbD (w + 1 + 1) = false := BitVec.getLsbD_of_ge _ _ le_rfl
  rw [BitVec.getLsbD_cons, getLsbD_gray, BitVec.getLsbD_setWidth, BitVec.getLsbD_setWidth,
    decide_eq_true bound, Bool.true_and]
  split_ifs with last
  · subst last
    rw [getLsbD_gray, getLsbD_gray, top, decide_eq_false (Nat.lt_irrefl _), Bool.false_and,
      Bool.xor_false, Bool.xor_false, Bool.xor_comm (x.getLsbD i), ← Bool.xor_assoc, Bool.xor_self,
      Bool.false_xor]
  · have below : i < w := by omega
    rw [BitVec.getLsbD_setWidth, getLsbD_gray, decide_eq_true below,
      decide_eq_true (Nat.succ_lt_succ below), Bool.true_and, Bool.true_and]

end Gray
