import FpgaRadar.AdcLtc2308.Measurements
import FpgaRadar.Vhdl.Cell

/-!
# The bus port of the analog-to-digital converter

This file embeds the pins of the slave port of `adc_ltc2308_fifo.v` and the registers that the bus
writes.  The sequencer, on its own clock, sees them at some of their edges.
-/

namespace FpgaRadar
namespace AdcLtc2308Fifo

open Vhdl

/-- The pins of the slave port. -/
structure Slave where
  /-- `slave_chipselect_n`. -/
  chipselectN : Bool
  /-- `slave_addr`. -/
  addr : BitVec 1
  /-- `slave_read_n`. -/
  readN : Bool
  /-- `slave_wrtie_n`. -/
  wrtieN : Bool
  /-- `slave_wriredata`. -/
  wriredata : BitVec 16
  deriving DecidableEq

def writeRegStartCh : BitVec 1 := 0

def writeRegMeasureNum : BitVec 1 := 1

def readRegMeasureDone : BitVec 1 := 0

def readRegAdcValue : BitVec 1 := 1

namespace Slave

/-- The bus writes a register. -/
def Writes (slave : Slave) (register : BitVec 1) : Prop :=
  slave.chipselectN = false ∧ slave.wrtieN = false ∧ slave.addr = register

/-- The bus reads a register. -/
def Reads (slave : Slave) (register : BitVec 1) : Prop :=
  slave.chipselectN = false ∧ slave.readN = false ∧ slave.addr = register

instance (slave : Slave) (register : BitVec 1) : Decidable (slave.Writes register) :=
  inferInstanceAs (Decidable (_ ∧ _ ∧ _))

instance (slave : Slave) (register : BitVec 1) : Decidable (slave.Reads register) :=
  inferInstanceAs (Decidable (_ ∧ _ ∧ _))

/-- `slave_read_status`. -/
def slaveReadStatus (slave : Slave) : Bool := decide (slave.Reads readRegMeasureDone)

/-- `slave_read_data`. -/
def slaveReadData (slave : Slave) : Bool := decide (slave.Reads readRegAdcValue)

end Slave

/-- The registers that control the sequencer. -/
structure ControlRegisters where
  /-- `measure_fifo_start`. -/
  measureFifoStart : Bool
  /-- `measure_fifo_num`. -/
  measureFifoNum : BitVec 12
  /-- `measure_fifo_ch`. -/
  measureFifoCh : BitVec 3
  deriving DecidableEq

/-- The clocked branches. -/
def write (slave : Slave) (registers : ControlRegisters) : ControlRegisters :=
  if slave.Writes writeRegStartCh then
    { registers with
      measureFifoCh := slave.wriredata.extractLsb' 1 3
      measureFifoStart := slave.wriredata.getLsbD 0 }
  else if slave.Writes writeRegMeasureNum then
    { registers with measureFifoNum := slave.wriredata.setWidth 12 }
  else registers

/-- The process of the control registers.  Its reset only stops the sequencer. -/
def controlProcess : ClockedProcess ControlRegisters Slave where
  reset registers := { registers with measureFifoStart := false }
  clocked := write
  reset_reset _ := rfl

/-- What the sequencer sees when its cycle `t` falls after edge `sample t - 1` of the bus. -/
def sampled (control : ℕ → ControlRegisters) (sample : ℕ → ℕ) (adcSdo unknown : ℕ → Bool) (t : ℕ) :
    Inputs where
  measureFifoStart := (control (sample t)).measureFifoStart
  measureFifoNum := (control (sample t)).measureFifoNum
  measureFifoCh := (control (sample t)).measureFifoCh
  adcSdo := adcSdo t
  unknown := unknown t

/-- A program that asks for `num` measurements of a channel: it stops the sequencer at edge `idle`,
writes the number at edge `number` and starts the sequencer at edge `go`. -/
structure Asks (wave : ℕ → Period Slave) (idle number go : ℕ) (num : BitVec 12)
    (measureCh : BitVec 3) : Prop where
  idle_lt : idle < go
  number_lt : number < go
  quiet : ∀ t, idle ≤ t ∨ number ≤ t → (wave t).Quiet
  stops : (wave idle).input.Writes writeRegStartCh ∧
    (wave idle).input.wriredata.getLsbD 0 = false
  asks : (wave number).input.Writes writeRegMeasureNum ∧
    (wave number).input.wriredata.setWidth 12 = num
  starts : (wave go).input.Writes writeRegStartCh ∧
    (wave go).input.wriredata.getLsbD 0 = true ∧
    (wave go).input.wriredata.extractLsb' 1 3 = measureCh
  start_kept : ∀ t, idle < t → t ≠ go → ¬ (wave t).input.Writes writeRegStartCh
  number_kept : ∀ t, number < t → ¬ (wave t).input.Writes writeRegMeasureNum

variable {wave : ℕ → Period Slave} {registers : ControlRegisters} {idle number go : ℕ}
  {num : BitVec 12} {measureCh : BitVec 3} {slave : Slave} {t : ℕ}

theorem write_startCh (writes : slave.Writes writeRegStartCh) (registers : ControlRegisters) :
    write slave registers =
      { registers with
        measureFifoCh := slave.wriredata.extractLsb' 1 3
        measureFifoStart := slave.wriredata.getLsbD 0 } :=
  if_pos writes

theorem write_measureNum (writes : slave.Writes writeRegMeasureNum)
    (registers : ControlRegisters) :
    write slave registers = { registers with measureFifoNum := slave.wriredata.setWidth 12 } := by
  have other : ¬ slave.Writes writeRegStartCh := by
    rintro ⟨_, _, addr⟩
    rw [writes.2.2] at addr
    contradiction
  rw [write, if_neg other, if_pos writes]

theorem write_other (other : ¬ slave.Writes writeRegStartCh) (registers : ControlRegisters) :
    (write slave registers).measureFifoStart = registers.measureFifoStart ∧
      (write slave registers).measureFifoCh = registers.measureFifoCh := by
  rw [write, if_neg other]
  split_ifs <;> exact ⟨rfl, rfl⟩

theorem write_measureFifoNum (other : ¬ slave.Writes writeRegMeasureNum)
    (registers : ControlRegisters) :
    (write slave registers).measureFifoNum = registers.measureFifoNum := by
  rw [write, if_neg other]
  split_ifs <;> rfl

namespace Asks

variable (asks : Asks wave idle number go num measureCh)

include asks

/-- The number stays once it is written. -/
theorem measureFifoNum_eq (registers : ControlRegisters) (after : number < t) :
    (controlProcess.run wave registers t).measureFifoNum = num := by
  have written : (controlProcess.run wave registers (number + 1)).measureFifoNum = num := by
    rw [controlProcess.run_succ, controlProcess.edge_of_quiet (asks.quiet _ (Or.inr le_rfl))]
    exact (congrArg _ (write_measureNum asks.asks.1 _)).trans asks.asks.2
  rw [← written]
  apply controlProcess.run_kept ControlRegisters.measureFifoNum _ after
  intro u lower _
  exact ⟨asks.quiet u (Or.inr (Nat.le_of_succ_le lower)),
    write_measureFifoNum (asks.number_kept u lower)⟩

/-- The sequencer is stopped from edge `idle` to edge `go`. -/
theorem measureFifoStart_before (registers : ControlRegisters) (after : idle < t)
    (before : t ≤ go) : (controlProcess.run wave registers t).measureFifoStart = false := by
  have written : (controlProcess.run wave registers (idle + 1)).measureFifoStart = false := by
    rw [controlProcess.run_succ, controlProcess.edge_of_quiet (asks.quiet _ (Or.inl le_rfl))]
    exact (congrArg _ (write_startCh asks.stops.1 _)).trans asks.stops.2
  rw [← written]
  apply controlProcess.run_kept ControlRegisters.measureFifoStart _ after
  intro u lower upper
  exact ⟨asks.quiet u (Or.inl (Nat.le_of_succ_le lower)), fun registers =>
    (write_other (asks.start_kept u lower (upper.trans_le before).ne) registers).1⟩

/-- And it is started on the channel from then on. -/
theorem started (registers : ControlRegisters) (after : go < t) :
    (controlProcess.run wave registers t).measureFifoStart = true ∧
      (controlProcess.run wave registers t).measureFifoCh = measureCh := by
  have quiet : ∀ u, go ≤ u → (wave u).Quiet :=
    fun u lower => asks.quiet u (Or.inl (asks.idle_lt.le.trans lower))
  have other : ∀ u, go + 1 ≤ u → ¬ (wave u).input.Writes writeRegStartCh :=
    fun u lower => asks.start_kept u (asks.idle_lt.trans lower) (Nat.ne_of_gt lower)
  have written : controlProcess.run wave registers (go + 1) = _ :=
    (controlProcess.edge_of_quiet (quiet go le_rfl) _).trans (write_startCh asks.starts.1 _)
  have start := controlProcess.run_kept ControlRegisters.measureFifoStart registers after
    fun u lower _ => ⟨quiet u (Nat.le_of_succ_le lower),
      fun registers => (write_other (other u lower) registers).1⟩
  have channel := controlProcess.run_kept ControlRegisters.measureFifoCh registers after
    fun u lower _ => ⟨quiet u (Nat.le_of_succ_le lower),
      fun registers => (write_other (other u lower) registers).2⟩
  rw [written] at start channel
  exact ⟨start.trans asks.starts.2.1, channel.trans asks.starts.2.2⟩

/-- Wherever the edges of the other clock fall, the sequencer sees one request. -/
theorem request (registers : ControlRegisters) {sample : ℕ → ℕ} (monotone : Monotone sample)
    (adcSdo unknown : ℕ → Bool) (seen : ∃ t, idle < sample t ∧ sample t ≤ go)
    (later : ∃ t, go < sample t) :
    ∃ start, sample start ≤ go ∧ go < sample (start + 1) ∧ ∀ last,
      Request (sampled (controlProcess.run wave registers) sample adcSdo unknown) start last
        num.toNat measureCh := by
  obtain ⟨first, first_gt, first_le⟩ := seen
  obtain ⟨final, final_gt⟩ := later
  have ordered : first < final := by
    by_contra! reversed
    exact absurd (final_gt.trans_le (monotone reversed)) (not_lt.mpr first_le)
  obtain ⟨start, start_ge, start_lt, start_le, since⟩ :=
    exists_last (fun t => sample t ≤ go) ordered first_le
  have passed : go < sample (start + 1) := by
    rcases (Nat.succ_le_of_lt start_lt).eq_or_lt with equal | before
    · rw [← Nat.succ_eq_add_one, equal]
      exact final_gt
    · exact not_le.mp (since (start + 1) start.lt_succ_self before)
  have beyond : ∀ t, start < t → go < sample t := fun t after => passed.trans_le (monotone after)
  refine ⟨start, start_le, passed, fun last => ⟨⟨?_, ?_⟩, ?_, ?_, ?_⟩⟩
  · exact asks.measureFifoStart_before registers (first_gt.trans_le (monotone start_ge)) start_le
  · exact (asks.started registers passed).1
  · intro t after _ rises
    have high := (asks.started registers (beyond t after)).1
    have low : (controlProcess.run wave registers (sample t)).measureFifoStart = false := rises.1
    rw [high] at low
    contradiction
  · intro t after _
    exact congrArg BitVec.toNat
      (asks.measureFifoNum_eq registers (asks.number_lt.trans (beyond t after)))
  · intro t after _
    exact (asks.started registers (beyond t after)).2

end Asks

/-- Measurements over the bus.  Whatever the sequencer was doing and however the edges of its clock
fall between those of the bus, provided that it sees the stop: a program that stops it, writes the
number and the channel and starts it gets the words of that many conversions, 400 cycles apart, and
`measure_fifo_done` with the last of them. -/
theorem measure_over_bus (wave : ℕ → Period Slave) (registers : ControlRegisters)
    (powerUp : Registers) (idle number go : ℕ) (num : BitVec 12) (measureCh : BitVec 3)
    (asks : Asks wave idle number go num measureCh) (sample : ℕ → ℕ) (monotone : Monotone sample)
    (adcSdo unknown : ℕ → Bool) (seen : ∃ t, idle < sample t ∧ sample t ≤ go)
    (later : ∃ t, go < sample t) :
    ∃ start, sample start ≤ go ∧ go < sample (start + 1) ∧ ∀ d,
      fifoWords (sampled (controlProcess.run wave registers) sample adcSdo unknown) powerUp
          (start + 1 + d) =
        ((List.range (min num.toNat ((d - 402) / 400))).map fun k => Vector.ofFn fun i =>
          adcSdo (start + 1 + (begins (k + 1) + 66 + (11 - i)))) ∧
      ((run (sampled (controlProcess.run wave registers) sample adcSdo unknown) powerUp
          (start + 1 + d)).measureFifoDone = true ↔ 402 + 400 * num.toNat ≤ d) := by
  obtain ⟨start, before, after, request⟩ :=
    asks.request registers monotone adcSdo unknown seen later
  exact ⟨start, before, after, fun d => (request (start + 1 + d)).fifoWords_eq powerUp le_rfl⟩

/-- Stop, ask for three measurements of channel 5, and start. -/
def asking (t : ℕ) : Slave where
  chipselectN := decide (t ∉ [0, 1, 5])
  addr := if t = 1 then writeRegMeasureNum else writeRegStartCh
  readN := true
  wrtieN := false
  wriredata := if t = 0 then 0#16 else if t = 1 then 3#16 else 11#16

theorem asks_asking : Asks (released asking) 0 1 5 3#12 5#3 where
  idle_lt := by norm_num
  number_lt := by norm_num
  quiet _ _ := ⟨rfl, rfl⟩
  stops := by decide
  asks := by decide
  starts := by decide
  start_kept t later other writes := by
    have selected : t ∈ [0, 1, 5] := not_not.mp (of_decide_eq_false writes.1)
    have number : t ≠ 1 := by
      rintro rfl
      exact absurd writes (by decide)
    simp only [List.mem_cons, List.not_mem_nil, or_false] at selected
    omega
  number_kept t later writes := by
    have register : (if t = 1 then writeRegMeasureNum else writeRegStartCh) = _ := writes.2.2
    rw [if_neg later.ne'] at register
    contradiction

/-- With one clock for both. -/
theorem measure_over_bus_three :
    ∃ start, start ≤ 5 ∧
      (fifoWords (sampled (controlProcess.run (released asking) ⟨true, 0, 0⟩) id (fun _ => true)
        fun _ => false) cleared (start + 1 + 1602)).length = 3 := by
  obtain ⟨start, before, _, words⟩ := measure_over_bus (released asking) ⟨true, 0, 0⟩ cleared 0 1 5
    3#12 5#3 asks_asking id monotone_id (fun _ => true) (fun _ => false) ⟨3, by norm_num⟩
    ⟨6, by norm_num⟩
  refine ⟨start, before, ?_⟩
  rw [(words 1602).1, List.length_map, List.length_range]
  rfl

end AdcLtc2308Fifo
end FpgaRadar
