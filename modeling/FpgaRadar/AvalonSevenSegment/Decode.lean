import FpgaRadar.AvalonSevenSegment.PrintNumHex

/-!
# The two encodings of a digit

In decode mode the component encodes a digit itself.  Its table and the one in `main.c` hold the
same segments, but only the software complements them for the displays, which are lit by a low
output.  So the two ways of displaying a number agree on none.
-/

namespace FpgaRadar
namespace AvalonSevenSegment

open Vhdl

/-- The store of digit `i` through the decode mode. -/
def decodeStore (num : ℕ) (i : Fin 6) : Iowr where
  offset := (8 + i) * offset
  data := BitVec.ofNat 32 (digit num i)

variable {num n : ℕ} {wave : ℕ → Period Bus}

theorem decodeStore_address (num : ℕ) (i : Fin 6) :
    (decodeStore num i).request.address = BitVec.ofNat 4 (8 + i) :=
  Iowr.request_address rfl

theorem decodeStore_selects (num : ℕ) (i : Fin 6) :
    ((decodeStore num i).request.address.extractLsb' 0 3).toNat = i := by
  rw [decodeStore_address]
  revert i
  decide

theorem decodeStore_within (num : ℕ) (order : List (Fin 6)) :
    ∀ iowr ∈ order.map (decodeStore num), iowr.offset < 64 := by
  intro iowr mem
  obtain ⟨i, _, rfl⟩ := List.mem_map.mp mem
  change (8 + i : ℕ) * 4 < 64
  omega

/-- The table of the component holds the segments of each decimal digit as well. -/
theorem decode_segments (d : Fin 10) :
    (decode ((BitVec.ofNat 32 d).extractLsb' 0 4)).extractLsb' 0 7 = segmentCode d := by
  revert d
  decide

theorem decodeStore_segments (num : ℕ) (i : Fin 6) :
    (decodeStore num i).segments = segmentCode (digit num i) := by
  have decoded : (decodeStore num i).request.address.msb = true := by
    rw [decodeStore_address]
    revert i
    decide
  rw [segments_decode decoded, decodeStore, decode_segments]

/-- The decode mode leaves the codes of the digits, not their complements. -/
theorem output_of_decodeStores {order : List (Fin 6)} (complete : ∀ i, i ∈ order)
    (quiet : Quiet wave 0 n)
    (carries : slave.Carries (Port.inputs wave n) (order.map (decodeStore num)))
    (registers : Registers) (i : Fin 6) :
    (process.run wave registers n).output i = segmentCode (digit num i) := by
  have stores := stores_of_selects (decodeStore_selects num)
  rw [slave.cells_of_carries stores complete quiet carries]
  exact decodeStore_segments num i

/-- The two ways of displaying a number never agree.  Whatever the displays held before, and in
whatever order the digits are written, each output left by the decode mode is the complement of the
one left by `printNumHex`. -/
theorem decode_never_agrees (num : ℕ) (order : List (Fin 6))
    (perm : order.Perm (List.finRange 6)) :
    ∃ iowrs, printNumHex num = some iowrs ∧
      ∀ (wave wave' : ℕ → Period Bus) (registers registers' : Registers) (n n' : ℕ),
        Quiet wave 0 n → slave.Carries (Port.inputs wave n) iowrs →
        Quiet wave' 0 n' →
        slave.Carries (Port.inputs wave' n') (order.map (decodeStore num)) →
        ∀ i, (process.run wave' registers' n').output i =
            ~~~(process.run wave registers n).output i ∧
          (process.run wave' registers' n').output i ≠
            (process.run wave registers n).output i := by
  refine ⟨_, printNumHex_eq num, ?_⟩
  intro wave wave' registers registers' n n' quiet carries quiet' carries' i
  have complete : ∀ i, i ∈ order := fun i => perm.mem_iff.mpr (List.mem_finRange i)
  have raw := output_of_digitStores (fun i => List.mem_finRange i) quiet carries registers i
  have decoded := output_of_decodeStores complete quiet' carries' registers' i
  rw [raw, decoded, BitVec.not_not]
  exact ⟨rfl, BitVec.ne_not_self (by norm_num)⟩

/-- The two displays of 1023 after a reset, with the digits in decode mode written downwards. -/
theorem decode_never_agrees_1023 :
    ∃ iowrs, printNumHex 1023 = some iowrs ∧
      (process.run (storing ([5, 4, 3, 2, 1, 0].map (decodeStore 1023))) blank 6).output 0 ≠
        (process.run (storing iowrs) blank 6).output 0 := by
  obtain ⟨iowrs, printed, differ⟩ := decode_never_agrees 1023 [5, 4, 3, 2, 1, 0] (by decide)
  have carries := carries_of_printed printed
  have carries' := carries_storing (decodeStore_within 1023 [5, 4, 3, 2, 1, 0])
  exact ⟨iowrs, printed, (differ (storing iowrs) _ blank blank 6 6 (quiet_storing _ 0 6) carries
    (quiet_storing _ 0 6) carries' 0).2⟩

/-- For zero the decode mode leaves a low output for segment `g` alone, and `printNumHex` for the
other six. -/
theorem zero_displayed_differently :
    ∃ iowrs, printNumHex 0 = some iowrs ∧
      slave.Carries (Port.inputs (storing iowrs) 6) iowrs ∧
      slave.Carries (Port.inputs (storing ((List.finRange 6).map (decodeStore 0))) 6)
        ((List.finRange 6).map (decodeStore 0)) ∧
      (process.run (storing iowrs) blank 6).output 0 = 0x40 ∧
      (process.run (storing ((List.finRange 6).map (decodeStore 0))) blank 6).output 0 = 0x3F := by
  have carries := carries_storing (digitStore_within 0 (List.finRange 6))
  have carries' := carries_storing (decodeStore_within 0 (List.finRange 6))
  refine ⟨_, printNumHex_eq 0, carries, carries', ?_, ?_⟩
  · exact output_of_digitStores (fun i => List.mem_finRange i) (quiet_storing _ 0 6) carries blank 0
  · exact output_of_decodeStores (fun i => List.mem_finRange i) (quiet_storing _ 0 6) carries'
      blank 0

end AvalonSevenSegment
end FpgaRadar
