import FpgaRadar.AvalonSevenSegment.Basic
import Mathlib.Data.Nat.Digits.Defs

/-!
# Printing a number on the displays

This file embeds the function `printNumHex` of `main.c`, which extracts six decimal digits and
stores the complement of an encoding of each through the raw mode of the displays.  An index
outside of the table is undefined in C and stops the function here, so that a result shows that
every index was within the table.
-/

namespace FpgaRadar
namespace AvalonSevenSegment

open Vhdl

/-- The table `SevenSeg`. -/
def sevenSeg : Vector (BitVec 32) 10 :=
  #v[0x3F, 0x06, 0x5B, 0x4F, 0x66, 0xED, 0xFD, 0x07, 0xFF, 0xEF]

/-- `SevenSeg[index]` -/
def lookup (index : ℤ) : Option (BitVec 32) :=
  if 0 ≤ index then sevenSeg[index.toNat]? else none

/-- The bytes from one display to the next. -/
def offset : ℕ := 4

/-- The number of displays. -/
def digitCount : ℕ := 6

/-- The body of the loop, on `num` and the stores performed so far. -/
def printDigit (state : ℤ × List Iowr) (i : ℕ) : Option (ℤ × List Iowr) := do
  let code ← lookup (state.1.tmod 10)
  return (state.1.tdiv 10, state.2 ++ [{ offset := i * offset, data := ~~~code }])

/-- The stores performed by `printNumHex(num)`, in their order. -/
def printNumHex (num : ℤ) : Option (List Iowr) := do
  let state ← (List.range digitCount).foldlM printDigit (num, [])
  return state.2

/-! ## What the displays show -/

/-- Decimal digit `i` of a number. -/
def digit (num i : ℕ) : Fin 10 := ⟨num / 10 ^ i % 10, Nat.mod_lt _ (by norm_num)⟩

/-- The segments that form a digit, with segment `a` in bit 0 and segment `g` in bit 6. -/
def segmentCode : Fin 10 → BitVec 7
  | 0 => 0b0111111
  | 1 => 0b0000110
  | 2 => 0b1011011
  | 3 => 0b1001111
  | 4 => 0b1100110
  | 5 => 0b1101101
  | 6 => 0b1111101
  | 7 => 0b0000111
  | 8 => 0b1111111
  | 9 => 0b1101111

/-- The digit that is formed by some segments. -/
def digitOf (code : BitVec 7) : Option (Fin 10) :=
  (List.finRange 10).find? fun d => segmentCode d = code

/-- The number read off the displays, on which a low output lights a segment. -/
def Registers.shown (registers : Registers) : Option ℕ := do
  let digits ← (List.finRange 6).mapM fun i => digitOf (~~~registers.output i)
  return Nat.ofDigits 10 (digits.map Fin.val)

/-- The store for digit `i`. -/
def digitStore (num i : ℕ) : Iowr where
  offset := i * offset
  data := ~~~sevenSeg[digit num i]

variable {num n i : ℕ} {wave : ℕ → Period Bus}

/-! ## The loop -/

theorem lookup_digit (num i : ℕ) :
    lookup (((num / 10 ^ i : ℕ) : ℤ).tmod 10) = some sevenSeg[digit num i] := by
  have index : (((num / 10 ^ i : ℕ) : ℤ).tmod 10) = (digit num i : ℕ) := rfl
  rw [index, lookup, if_pos (Int.natCast_nonneg _), Int.toNat_natCast]
  exact Vector.getElem?_eq_getElem (digit num i).isLt

/-- One iteration stores one digit and drops it. -/
theorem printDigit_eq (num i : ℕ) (iowrs : List Iowr) :
    printDigit (((num / 10 ^ i : ℕ) : ℤ), iowrs) i =
      some (((num / 10 ^ (i + 1) : ℕ) : ℤ), iowrs ++ [digitStore num i]) := by
  have dropped : ((num / 10 ^ i : ℕ) : ℤ).tdiv 10 = ((num / 10 ^ (i + 1) : ℕ) : ℤ) := by
    rw [pow_succ, ← Nat.div_div_eq_div_mul]
    rfl
  simp only [printDigit, lookup_digit, dropped, Option.bind_eq_bind, Option.bind_some]
  rfl

/-- After `n` iterations the lowest `n` digits have been stored and dropped. -/
theorem foldlM_printDigit (num n : ℕ) :
    (List.range n).foldlM printDigit ((num : ℤ), []) =
      some (((num / 10 ^ n : ℕ) : ℤ), (List.range n).map (digitStore num)) := by
  induction n with
  | zero => simp
  | succ n induction =>
      rw [List.range_succ, List.foldlM_append, induction, List.map_append]
      simp only [Option.bind_eq_bind, Option.bind_some, List.foldlM_cons, List.foldlM_nil,
        printDigit_eq]
      rfl

theorem printNumHex_eq (num : ℕ) :
    printNumHex num = some ((List.finRange 6).map fun i : Fin 6 => digitStore num i) := by
  have stores : (List.range digitCount).map (digitStore num) =
      (List.finRange 6).map fun i : Fin 6 => digitStore num i := by
    rw [digitCount, ← List.map_coe_finRange_eq_range, List.map_map]
    rfl
  rw [printNumHex, foldlM_printDigit, ← stores]
  rfl

/-! ## The displays -/

/-- The table holds the segments of each digit, with bits above them that the port cuts off. -/
theorem sevenSeg_segments (d : Fin 10) :
    (~~~sevenSeg[d]).extractLsb' 0 7 = ~~~segmentCode d := by
  revert d
  decide

theorem digitOf_segmentCode (d : Fin 10) : digitOf (segmentCode d) = some d := by
  revert d
  decide

theorem digitStore_address (num i : ℕ) :
    (digitStore num i).request.address = BitVec.ofNat 4 i :=
  Iowr.request_address rfl

theorem digitStore_selects (num : ℕ) (i : Fin 6) :
    ((digitStore num i).request.address.extractLsb' 0 3).toNat = i := by
  rw [digitStore_address]
  revert i
  decide

theorem digitStore_segments (num : ℕ) (i : Fin 6) :
    (digitStore num i).segments = ~~~segmentCode (digit num i) := by
  have raw : (digitStore num i).request.address.msb = false := by
    rw [digitStore_address]
    revert i
    decide
  rw [segments_raw raw, digitStore, sevenSeg_segments]

theorem digitStore_within (num : ℕ) (order : List (Fin 6)) :
    ∀ iowr ∈ order.map fun i : Fin 6 => digitStore num i, iowr.offset < 64 := by
  intro iowr mem
  obtain ⟨i, _, rfl⟩ := List.mem_map.mp mem
  change (i : ℕ) * 4 < 64
  omega

/-- The stores of the digits, in whatever order, leave the complements of their codes. -/
theorem output_of_digitStores {order : List (Fin 6)} (complete : ∀ i, i ∈ order)
    (quiet : Quiet wave 0 n)
    (carries : slave.Carries (Port.inputs wave n)
      (order.map fun i : Fin 6 => digitStore num i))
    (registers : Registers) (i : Fin 6) :
    (process.run wave registers n).output i = ~~~segmentCode (digit num i) := by
  have stores := stores_of_selects (digitStore_selects num)
  rw [slave.cells_of_carries stores complete quiet carries]
  exact digitStore_segments num i

/-- The lowest `n` digits of a number have the value of its remainder. -/
theorem ofDigits_digit (num n : ℕ) :
    Nat.ofDigits 10 ((List.range n).map fun i => (digit num i : ℕ)) = num % 10 ^ n := by
  induction n with
  | zero => simp [Nat.mod_one]
  | succ n induction =>
      rw [List.range_succ, List.map_append, Nat.ofDigits_append, induction, Nat.mod_pow_succ]
      simp [digit]

/-- Displays with the complements of the codes of six digits show the number. -/
theorem shown_of_output {registers : Registers}
    (output : ∀ i : Fin 6, registers.output i = ~~~segmentCode (digit num i)) :
    registers.shown = some (num % 10 ^ 6) := by
  have read : (fun i : Fin 6 => digitOf (~~~registers.output i)) =
      fun i : Fin 6 => pure (digit num i) := by
    funext i
    rw [output, BitVec.not_not, digitOf_segmentCode]
    rfl
  have digits : ((List.finRange 6).map fun i : Fin 6 => digit num i).map Fin.val =
      (List.range 6).map fun i => (digit num i : ℕ) := by
    rw [← List.map_coe_finRange_eq_range, List.map_map, List.map_map]
    rfl
  rw [Registers.shown, read, List.mapM_pure]
  change some (Nat.ofDigits 10 _) = _
  rw [digits, ofDigits_digit]

/-- Printing a number.  The table is never left, and when the stores have reached the displays,
whatever these held before, each of them has the complement of the code of its digit, and the
number that they show is the printed one modulo a million. -/
theorem printNumHex_shows (num : ℕ) :
    ∃ iowrs, printNumHex num = some iowrs ∧
      ∀ (wave : ℕ → Period Bus) (registers : Registers) (n : ℕ), Quiet wave 0 n →
        slave.Carries (Port.inputs wave n) iowrs →
        (∀ i : Fin 6,
          (process.run wave registers n).output i = ~~~segmentCode (digit num i)) ∧
        (process.run wave registers n).shown = some (num % 10 ^ 6) := by
  refine ⟨_, printNumHex_eq num, fun wave registers n quiet carries => ?_⟩
  have output := output_of_digitStores (fun i => List.mem_finRange i) quiet carries registers
  exact ⟨output, shown_of_output output⟩

/-- The stores of a call can be performed at six edges. -/
theorem carries_of_printed {iowrs : List Iowr} (printed : printNumHex num = some iowrs) :
    slave.Carries (Port.inputs (storing iowrs) 6) iowrs := by
  obtain rfl := Option.some.inj ((printNumHex_eq num).symm.trans printed)
  exact carries_storing (digitStore_within num _)

/-- The displays after a reset and the printing of 1023. -/
theorem printNumHex_shows_1023 :
    ∃ iowrs, printNumHex 1023 = some iowrs ∧
      slave.Carries (Port.inputs (storing iowrs) 6) iowrs ∧
      (process.run (storing iowrs) blank 6).shown = some 1023 := by
  obtain ⟨iowrs, printed, shows⟩ := printNumHex_shows 1023
  have carries := carries_of_printed printed
  exact ⟨iowrs, printed, carries,
    (shows (storing iowrs) blank 6 (quiet_storing iowrs 0 6) carries).2⟩

end AvalonSevenSegment
end FpgaRadar
