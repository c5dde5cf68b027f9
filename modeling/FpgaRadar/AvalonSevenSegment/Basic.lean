import FpgaRadar.Vhdl.Port

/-!
# The seven-segment displays on the bus

This file embeds `avalon_seven_segment.vhd`.  Address bit 3 selects between the two write modes, the
other three bits select the display.  Six displays are connected, and a write to one of them leaves
the other five alone.
-/

namespace FpgaRadar
namespace AvalonSevenSegment

open Vhdl

/-- The bus signals at an edge. -/
structure Bus where
  /-- Word address. -/
  address : BitVec 4
  /-- Written word. -/
  writedata : BitVec 32
  /-- Chip select, active low. -/
  chipselectN : Bool
  /-- Write strobe, active low. -/
  writeN : Bool
  deriving DecidableEq

/-- The output ports and the variable of the process. -/
structure Registers where
  /-- Display 0, with segment `a` in bit 0 and segment `g` in bit 6. -/
  s0 : BitVec 7
  /-- Display 1. -/
  s1 : BitVec 7
  /-- Display 2. -/
  s2 : BitVec 7
  /-- Display 3. -/
  s3 : BitVec 7
  /-- Display 4. -/
  s4 : BitVec 7
  /-- Display 5. -/
  s5 : BitVec 7
  /-- The variable `DataOut`. -/
  dataOut : BitVec 8
  deriving DecidableEq

/-- All output ports and the variable cleared. -/
def blank : Registers where
  s0 := 0
  s1 := 0
  s2 := 0
  s3 := 0
  s4 := 0
  s5 := 0
  dataOut := 0

/-- The reset branch. -/
def reset (_ : Registers) : Registers := blank

/-- The encoding of a hexadecimal digit in decode mode. -/
def decode (digit : BitVec 4) : BitVec 8 :=
  match digit with
  | 0x0#4 => 0x3F
  | 0x1#4 => 0x06
  | 0x2#4 => 0x5B
  | 0x3#4 => 0x4F
  | 0x4#4 => 0x66
  | 0x5#4 => 0xED
  | 0x6#4 => 0xFD
  | 0x7#4 => 0x07
  | 0x8#4 => 0xFF
  | 0x9#4 => 0xEF
  | 0xA#4 => 0xF7
  | 0xB#4 => 0xFC
  | 0xC#4 => 0x58
  | 0xD#4 => 0xDE
  | 0xE#4 => 0xF9
  | 0xF#4 => 0xF1
  | _ => 0x40

/-- The value assigned to `DataOut` by a write. -/
def dataOutOf (address : BitVec 4) (writedata : BitVec 32) : BitVec 8 :=
  if address.msb = true then decode (writedata.extractLsb' 0 4)
  else 0#1 ++ writedata.extractLsb' 0 7

/-- The assignment of `DataOut(6 downto 0)` to the selected display. -/
def select (address : BitVec 4) (registers : Registers) : Registers :=
  match (address.extractLsb' 0 3).toNat with
  | 0 => { registers with s0 := registers.dataOut.extractLsb' 0 7 }
  | 1 => { registers with s1 := registers.dataOut.extractLsb' 0 7 }
  | 2 => { registers with s2 := registers.dataOut.extractLsb' 0 7 }
  | 3 => { registers with s3 := registers.dataOut.extractLsb' 0 7 }
  | 4 => { registers with s4 := registers.dataOut.extractLsb' 0 7 }
  | 5 => { registers with s5 := registers.dataOut.extractLsb' 0 7 }
  | _ => registers

/-- The clocked branch. -/
def clocked (bus : Bus) (registers : Registers) : Registers :=
  if bus.chipselectN = false ∧ bus.writeN = false then
    select bus.address { registers with dataOut := dataOutOf bus.address bus.writedata }
  else registers

/-- The process of the architecture. -/
def process : ClockedProcess Registers Bus where
  reset := reset
  clocked := clocked
  reset_reset _ := rfl

/-- The output port of display `i`. -/
def Registers.output (registers : Registers) (i : Fin 6) : BitVec 7 :=
  match i with
  | 0 => registers.s0
  | 1 => registers.s1
  | 2 => registers.s2
  | 3 => registers.s3
  | 4 => registers.s4
  | 5 => registers.s5

/-- A store of a word at a byte offset from the base address of the component. -/
structure Iowr where
  /-- Byte offset. -/
  offset : ℕ
  /-- Stored word. -/
  data : BitVec 32
  deriving DecidableEq

/-- The bus signals of a store. -/
def Iowr.request (iowr : Iowr) : Bus where
  address := BitVec.ofNat 4 (iowr.offset / 4)
  writedata := iowr.data
  chipselectN := false
  writeN := false

/-- A bus on which nothing is written. -/
def idleBus : Bus where
  address := 0
  writedata := 0
  chipselectN := true
  writeN := true

/-- The bus presents a store of a word within the sixteen words of the component. -/
structure Presents (bus : Bus) (iowr : Iowr) : Prop where
  /-- The component is selected. -/
  chipselect : bus.chipselectN = false
  /-- It is written. -/
  write : bus.writeN = false
  /-- Bytes are addressed by the software, words by the bus. -/
  address : bus.address.toNat = iowr.offset / 4
  /-- The word. -/
  writedata : bus.writedata = iowr.data

theorem Presents.eq_request {bus : Bus} {iowr : Iowr} (presents : Presents bus iowr) :
    bus = iowr.request := by
  cases bus
  obtain ⟨rfl, rfl, address, rfl⟩ := presents
  rw [Iowr.request, ← address, BitVec.ofNat_toNat, BitVec.setWidth_eq]

/-- Four bytes to the word. -/
theorem Iowr.request_address {iowr : Iowr} {word : ℕ} (offset_eq : iowr.offset = word * 4) :
    iowr.request.address = BitVec.ofNat 4 word := by
  change BitVec.ofNat 4 (iowr.offset / 4) = BitVec.ofNat 4 word
  rw [offset_eq, Nat.mul_div_cancel word (by norm_num)]

theorem Iowr.presents_request {iowr : Iowr} (within : iowr.offset < 64) :
    Presents iowr.request iowr where
  chipselect := rfl
  write := rfl
  address := Nat.mod_eq_of_lt (Nat.div_lt_of_lt_mul within)
  writedata := rfl

theorem clocked_request (iowr : Iowr) (registers : Registers) :
    clocked iowr.request registers =
      select iowr.request.address
        { registers with dataOut := dataOutOf iowr.request.address iowr.data } :=
  if_pos ⟨rfl, rfl⟩

/-! ## One write -/

@[simp]
theorem dataOut_select (address : BitVec 4) (registers : Registers) :
    (select address registers).dataOut = registers.dataOut := by
  unfold select
  split <;> rfl

/-- A write changes the selected display and no other. -/
theorem output_select {address : BitVec 4} {i : Fin 6}
    (selected : (address.extractLsb' 0 3).toNat = i) (registers : Registers) :
    (select address registers).output =
      Function.update registers.output i (registers.dataOut.extractLsb' 0 7) := by
  funext j
  rw [select, selected]
  fin_cases i <;> fin_cases j <;> rfl

/-- A write to the two addresses without a display changes none. -/
theorem output_select_other {address : BitVec 4}
    (unconnected : 6 ≤ (address.extractLsb' 0 3).toNat) (registers : Registers) :
    (select address registers).output = registers.output := by
  have within := (address.extractLsb' 0 3).isLt
  unfold select
  split <;> first | omega | rfl

theorem Registers.eq_of_output {registers registers' : Registers}
    (output : registers.output = registers'.output)
    (dataOut : registers.dataOut = registers'.dataOut) : registers = registers' := by
  cases registers
  cases registers'
  have equal := fun i => congrFun output i
  simp only [Registers.mk.injEq]
  exact ⟨equal 0, equal 1, equal 2, equal 3, equal 4, equal 5, dataOut⟩

theorem select_select (address : BitVec 4) (registers : Registers) :
    select address (select address registers) = select address registers := by
  apply Registers.eq_of_output
  · rcases lt_or_ge (address.extractLsb' 0 3).toNat 6 with connected | unconnected
    · have selected : (address.extractLsb' 0 3).toNat = (⟨_, connected⟩ : Fin 6) := rfl
      rw [output_select selected, output_select selected, dataOut_select, Function.update_idem]
    · rw [output_select_other unconnected]
  · rw [dataOut_select]

/-- A write that takes more than one edge is performed once. -/
theorem clocked_clocked (iowr : Iowr) (registers : Registers) :
    clocked iowr.request (clocked iowr.request registers) = clocked iowr.request registers := by
  have written : (clocked iowr.request registers).dataOut =
      dataOutOf iowr.request.address iowr.data := by
    rw [clocked_request, dataOut_select]
  rw [clocked_request iowr (clocked _ _), ← written, clocked_request, select_select]

/-- The slave port of the component. -/
def slave : Port process Iowr where
  Presents := Presents
  Idle bus := ¬ (bus.chipselectN = false ∧ bus.writeN = false)
  effect iowr := clocked iowr.request
  clocked_of_presents presents registers := by
    rw [presents.eq_request]
    rfl
  clocked_of_idle idle registers := if_neg idle
  effect_effect := clocked_clocked

/-- A waveform that performs each store at one edge and is idle from then on. -/
def storing (iowrs : List Iowr) : ℕ → Period Bus := Port.playback Iowr.request idleBus iowrs

theorem quiet_storing (iowrs : List Iowr) (first last : ℕ) : Quiet (storing iowrs) first last :=
  quiet_released _ first last

theorem carries_storing {iowrs : List Iowr} (within : ∀ iowr ∈ iowrs, iowr.offset < 64) :
    slave.Carries (Port.inputs (storing iowrs) iowrs.length) iowrs :=
  slave.carries_playback idleBus fun iowr mem => Iowr.presents_request (within iowr mem)

/-- The segments that a store leaves on the display that it selects. -/
def Iowr.segments (iowr : Iowr) : BitVec 7 :=
  (dataOutOf iowr.request.address iowr.data).extractLsb' 0 7

/-- Stores that select one display each store their segments there. -/
theorem stores_of_selects {iowrs : Fin 6 → Iowr}
    (selects : ∀ i, ((iowrs i).request.address.extractLsb' 0 3).toNat = i) :
    slave.Stores Registers.output iowrs fun i => (iowrs i).segments := by
  intro i registers
  change (clocked (iowrs i).request registers).output = _
  rw [clocked_request, output_select (selects i)]
  rfl

/-- In raw mode the segments are the low seven bits of the word. -/
theorem segments_raw {iowr : Iowr} (raw : iowr.request.address.msb = false) :
    iowr.segments = iowr.data.extractLsb' 0 7 := by
  rw [Iowr.segments, dataOutOf, raw, if_neg Bool.false_ne_true]
  exact BitVec.extractLsb'_append_eq_right

/-- In decode mode they are those of the digit in the low four bits. -/
theorem segments_decode {iowr : Iowr} (decoded : iowr.request.address.msb = true) :
    iowr.segments = (decode (iowr.data.extractLsb' 0 4)).extractLsb' 0 7 := by
  rw [Iowr.segments, dataOutOf, if_pos decoded]

end AvalonSevenSegment
end FpgaRadar
