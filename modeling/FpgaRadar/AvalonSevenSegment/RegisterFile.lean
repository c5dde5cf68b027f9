import FpgaRadar.AvalonSevenSegment.PrintNumHex
import FpgaRadar.Vhdl.Cell

/-!
# The displays as a register file

Whatever is written and whenever the component is reset, each display holds what was last written
to it.  With the decode mode this makes the displays a memory of six hexadecimal digits, which can
be read off them again.
-/

namespace FpgaRadar
namespace AvalonSevenSegment

open Vhdl

/-- The bus writes display `i`, in either mode. -/
def Bus.Writes (bus : Bus) (i : Fin 6) : Prop :=
  (bus.chipselectN = false ∧ bus.writeN = false) ∧ (bus.address.extractLsb' 0 3).toNat = i

/-- The segments that a write leaves. -/
def Bus.segments (bus : Bus) : BitVec 7 := (dataOutOf bus.address bus.writedata).extractLsb' 0 7

theorem output_of_not_writes {bus : Bus} {i : Fin 6} (other : ¬ bus.Writes i)
    (registers : Registers) : (clocked bus registers).output i = registers.output i := by
  rw [clocked]
  split_ifs with written
  · rcases Nat.lt_or_ge (bus.address.extractLsb' 0 3).toNat 6 with connected | unconnected
    · have selected : (bus.address.extractLsb' 0 3).toNat = (⟨_, connected⟩ : Fin 6) := rfl
      rw [output_select selected]
      apply Function.update_of_ne
      rintro rfl
      exact other ⟨written, rfl⟩
    · rw [output_select_other unconnected]
      rfl
  · rfl

/-- Display `i` is a cell of the component. -/
def displayCell (i : Fin 6) : Cell process (BitVec 7) where
  content registers := registers.output i
  initial := 0
  Writes bus := bus.Writes i
  value := Bus.segments
  reset _ := by
    change blank.output i = 0
    revert i
    decide
  clocked_of_writes {bus} writes registers := by
    change (clocked bus registers).output i = _
    rw [clocked, if_pos writes.1, output_select writes.2, Function.update_self]
    rfl
  clocked_of_not_writes other registers := output_of_not_writes other registers

/-- Each display holds what was last written to it.  In every run, after any writes and resets,
the output of display `i` is the segments of the last write to it, in raw or in decode mode, or
zero if a reset came later or there was none; writes to the other displays and to the addresses
without a display have no part in it. -/
theorem display_holds_last_write (wave : ℕ → Period Bus) (powerUp : Registers) (i : Fin 6)
    (t : ℕ) :
    (∃ u, u < t ∧ (displayCell i).WritesAt wave u ∧ (displayCell i).Untouched wave (u + 1) t ∧
      (process.trace wave powerUp t).output i = (wave u).input.segments) ∨
    (((displayCell i).Untouched wave 0 t ∨ ∃ u, u < t ∧ ¬ (wave u).Quiet ∧
        ¬ (displayCell i).WritesAt wave u ∧ (displayCell i).Untouched wave (u + 1) t) ∧
      (process.trace wave powerUp t).output i = 0) :=
  (displayCell i).content_cases wave powerUp t

/-! ## Hexadecimal digits -/

/-- The store of hexadecimal digit `i`, through the decode mode.  The higher digits need not be
masked, since the component reads four bits. -/
def hexStore (num : ℕ) (i : Fin 6) : Iowr where
  offset := (8 + i) * offset
  data := BitVec.ofNat 32 (num / 16 ^ (i : ℕ))

/-- The digit whose code an output carries. -/
def hexDigitOf (code : BitVec 7) : Option (Fin 16) :=
  (List.finRange 16).find? fun d => (decode (BitVec.ofFin d)).extractLsb' 0 7 = code

/-- The number whose hexadecimal digits are encoded on the outputs. -/
def Registers.hexadecimal (registers : Registers) : Option ℕ := do
  let digits ← (List.finRange 6).mapM fun i => hexDigitOf (registers.output i)
  return Nat.ofDigits 16 (digits.map Fin.val)

/-- Hexadecimal digit `i` of a number. -/
def hexDigit (num i : ℕ) : Fin 16 := ⟨num / 16 ^ i % 16, Nat.mod_lt _ (by norm_num)⟩

variable {num n : ℕ} {wave : ℕ → Period Bus}

/-- No two digits have one code. -/
theorem hexDigitOf_decode (d : Fin 16) :
    hexDigitOf ((decode (BitVec.ofFin d)).extractLsb' 0 7) = some d := by
  revert d
  decide

theorem hexStore_address (num : ℕ) (i : Fin 6) :
    (hexStore num i).request.address = BitVec.ofNat 4 (8 + i) :=
  Iowr.request_address rfl

theorem hexStore_selects (num : ℕ) (i : Fin 6) :
    ((hexStore num i).request.address.extractLsb' 0 3).toNat = i := by
  rw [hexStore_address]
  revert i
  decide

theorem hexStore_within (num : ℕ) (order : List (Fin 6)) :
    ∀ iowr ∈ order.map (hexStore num), iowr.offset < 64 := by
  intro iowr mem
  obtain ⟨i, _, rfl⟩ := List.mem_map.mp mem
  change (8 + i : ℕ) * 4 < 64
  omega

theorem hexStore_segments (num : ℕ) (i : Fin 6) :
    (hexStore num i).segments = (decode (BitVec.ofFin (hexDigit num i))).extractLsb' 0 7 := by
  have decoded : (hexStore num i).request.address.msb = true := by
    rw [hexStore_address]
    revert i
    decide
  have digit : (hexStore num i).data.extractLsb' 0 4 = BitVec.ofFin (hexDigit num i) := by
    apply BitVec.eq_of_toNat_eq
    rw [hexStore, BitVec.extractLsb'_toNat, BitVec.toNat_ofNat, Nat.shiftRight_zero,
      Nat.mod_mod_of_dvd _ (by norm_num)]
    rfl
  rw [segments_decode decoded, digit]

/-- The value of the lowest `n` digits of a number. -/
theorem ofDigits_div_mod (base num n : ℕ) :
    Nat.ofDigits base ((List.range n).map fun i => num / base ^ i % base) = num % base ^ n := by
  induction n with
  | zero => simp [Nat.mod_one]
  | succ n induction =>
      rw [List.range_succ, List.map_append, Nat.ofDigits_append, induction, Nat.mod_pow_succ]
      simp

/-- Displays with the codes of six digits encode the number. -/
theorem hexadecimal_of_output {registers : Registers}
    (output : ∀ i : Fin 6, registers.output i =
      (decode (BitVec.ofFin (hexDigit num i))).extractLsb' 0 7) :
    registers.hexadecimal = some (num % 16 ^ 6) := by
  have read : (fun i : Fin 6 => hexDigitOf (registers.output i)) =
      fun i : Fin 6 => pure (hexDigit num i) := by
    funext i
    rw [output, hexDigitOf_decode]
    rfl
  have digits : ((List.finRange 6).map fun i : Fin 6 => hexDigit num i).map Fin.val =
      (List.range 6).map fun i => num / 16 ^ i % 16 := by
    rw [← List.map_coe_finRange_eq_range, List.map_map, List.map_map]
    rfl
  rw [Registers.hexadecimal, read, List.mapM_pure]
  change some (Nat.ofDigits 16 _) = _
  rw [digits, ofDigits_div_mod]

/-- The hexadecimal round trip.  A number whose six lowest digits are written through the decode
mode, in whatever order and with any idle edges between the writes, is read off the outputs again,
modulo `16 ^ 6` and whatever the displays held before. -/
theorem hexadecimal_round_trip (num : ℕ) (order : List (Fin 6))
    (perm : order.Perm (List.finRange 6)) (wave : ℕ → Period Bus) (registers : Registers) (n : ℕ)
    (quiet : Quiet wave 0 n)
    (carries : slave.Carries (Port.inputs wave n) (order.map (hexStore num))) :
    (process.run wave registers n).hexadecimal = some (num % 16 ^ 6) := by
  have complete : ∀ i, i ∈ order := fun i => perm.mem_iff.mpr (List.mem_finRange i)
  apply hexadecimal_of_output
  intro i
  rw [slave.cells_of_carries (stores_of_selects (hexStore_selects num)) complete quiet carries]
  exact hexStore_segments num i

/-- The six digits of a number, the highest one first. -/
theorem hexadecimal_round_trip_c0ffee :
    (process.run (storing ([5, 4, 3, 2, 1, 0].map (hexStore 0xC0FFEE))) blank 6).hexadecimal =
      some 0xC0FFEE :=
  hexadecimal_round_trip 0xC0FFEE [5, 4, 3, 2, 1, 0] (by decide) _ blank 6 (quiet_storing _ 0 6)
    (carries_storing (hexStore_within 0xC0FFEE [5, 4, 3, 2, 1, 0]))

end AvalonSevenSegment
end FpgaRadar
