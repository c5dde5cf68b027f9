import Mathlib.Data.Vector.Basic
import Mathlib.Tactic

/-!
# The controller of the analog-to-digital converter

This file embeds `adc_ltc2308.v`.  Its processes run on both edges of the clock, and they are reset
asynchronously where `measure_start` rises.  A cycle lasts from one rising edge to the next: first
the processes of the rising edge, then the reset if there is one, then those of the falling edge.
-/

namespace FpgaRadar
namespace AdcLtc2308

/-! ## Timing -/

/-- CONVST high time. -/
def tWHConv : ℕ := 3

/-- Conversion time. -/
def tConv : ℕ := 64

/-- Acquisition time after a transfer. -/
def tHConvst : ℕ := 320

/-- Bits of a result. -/
def dataBitsNum : ℕ := 12

/-- Bits of a command. -/
def cmdBitsNum : ℕ := 6

def tConvstHighStart : ℕ := 0

def tConvstHighEnd : ℕ := tConvstHighStart + tWHConv

def tConfigStart : ℕ := tConvstHighEnd

def tClkStart : ℕ := tConvstHighStart + tConv

def tClkEnd : ℕ := tClkStart + dataBitsNum

def tConfigEnd : ℕ := tClkStart + cmdBitsNum - 1

def tDone : ℕ := tClkEnd + tHConvst

/-! ## Registers -/

/-- What the processes assign. -/
structure Registers where
  /-- Level of `measure_start` at the last rising edge. -/
  preMeasureStart : Bool
  /-- Cycles since the trigger. -/
  tick : ℕ
  /-- The clock is passed on to `ADC_SCK`. -/
  clkEnable : Bool
  /-- Bits received so far, by their index. -/
  readData : Vector Bool 12
  /-- Index of the next bit. -/
  writePos : BitVec 4
  /-- The result is complete. -/
  measureDone : Bool
  /-- Command of the channel. -/
  configCmd : BitVec 6
  /-- `ADC_SDI`. -/
  adcSdi : Bool
  /-- Index of the next bit of the command. -/
  sdiIndex : BitVec 3
  deriving DecidableEq

/-- Registers that are all zero. -/
def cleared : Registers where
  preMeasureStart := false
  tick := 0
  clkEnable := false
  readData := Vector.replicate 12 false
  writePos := 0
  measureDone := false
  configCmd := 0
  adcSdi := false
  sdiIndex := 0

/-- The levels of the input ports in a cycle. -/
structure Inputs where
  /-- `measure_start` from the rising edge on. -/
  measureStart : Bool
  /-- `measure_ch` from the rising edge on. -/
  measureCh : BitVec 3
  /-- `ADC_SDO` at the falling edge. -/
  adcSdo : Bool
  /-- What a bit outside of the command reads as. -/
  unknown : Bool
  deriving DecidableEq

/-- The command that selects a channel. -/
def configCmdOf (measureCh : BitVec 3) : BitVec 6 :=
  let uniMode := 1#1
  let slpMode := 0#1
  match measureCh.toNat with
  | 0 => 0x8#4 ++ uniMode ++ slpMode
  | 1 => 0xC#4 ++ uniMode ++ slpMode
  | 2 => 0x9#4 ++ uniMode ++ slpMode
  | 3 => 0xD#4 ++ uniMode ++ slpMode
  | 4 => 0xA#4 ++ uniMode ++ slpMode
  | 5 => 0xE#4 ++ uniMode ++ slpMode
  | 6 => 0xB#4 ++ uniMode ++ slpMode
  | 7 => 0xF#4 ++ uniMode ++ slpMode
  | _ => 0xF#4 ++ 0#2

namespace Registers

/-- `reset_n`, low from a rise of `measure_start` to the next rising edge of the clock. -/
def resetN (measureStart : Bool) (registers : Registers) : Bool :=
  !(!registers.preMeasureStart && measureStart)

/-- `ADC_CONVST`. -/
def adcConvst (registers : Registers) : Bool :=
  decide (tConvstHighStart ≤ registers.tick) && decide (registers.tick < tConvstHighEnd)

/-- The processes of the rising edge, with the level of `measure_start` before it. -/
def posedge (measureStart : Bool) (registers : Registers) : Registers :=
  { registers with
    preMeasureStart := measureStart
    tick :=
      if registers.resetN measureStart = false then 0
      else if registers.tick < tDone then registers.tick + 1 else registers.tick
    measureDone :=
      if registers.resetN measureStart = false then false
      else if registers.tick = tDone then true else registers.measureDone }

/-- What the processes assign where `reset_n` falls. -/
def reset (measureCh : BitVec 3) (registers : Registers) : Registers :=
  { registers with
    tick := 0
    clkEnable := false
    readData := Vector.replicate 12 false
    writePos := BitVec.ofNat 4 (dataBitsNum - 1)
    measureDone := false
    configCmd := configCmdOf measureCh }

/-- `reset_n` is high until the rising edge, so it falls if it is low afterwards. -/
def settle (measureStart : Bool) (measureCh : BitVec 3) (registers : Registers) : Registers :=
  if registers.resetN measureStart = false then registers.reset measureCh else registers

/-- The processes of the falling edge. -/
def negedge (input : Inputs) (registers : Registers) : Registers :=
  let resetN := registers.resetN input.measureStart
  let configInit := registers.tick = tConfigStart
  let configEnable := tClkStart < registers.tick ∧ registers.tick ≤ tConfigEnd
  let configDone := tConfigEnd < registers.tick
  { registers with
    clkEnable :=
      if resetN = false then false
      else decide (tClkStart ≤ registers.tick ∧ registers.tick < tClkEnd)
    readData :=
      if resetN = false then Vector.replicate 12 false
      else if registers.clkEnable then
        registers.readData.setIfInBounds registers.writePos.toNat input.adcSdo
      else registers.readData
    writePos :=
      if resetN = false then BitVec.ofNat 4 (dataBitsNum - 1)
      else if registers.clkEnable then registers.writePos - 1 else registers.writePos
    adcSdi :=
      if configInit then registers.configCmd.getLsbD (cmdBitsNum - 1)
      else if configEnable then
        if registers.sdiIndex.toNat < cmdBitsNum then
          registers.configCmd.getLsbD registers.sdiIndex.toNat
        else input.unknown
      else if configDone then false else registers.adcSdi
    sdiIndex :=
      if configInit then BitVec.ofNat 3 (cmdBitsNum - 2)
      else if configEnable then registers.sdiIndex - 1 else registers.sdiIndex }

/-- The first half of a cycle, up to the falling edge; `measureStart` is the level of the cycle
before. -/
def firstHalf (measureStart : Bool) (input : Inputs) (registers : Registers) : Registers :=
  (registers.posedge measureStart).settle input.measureStart input.measureCh

/-- One cycle. -/
def cycle (measureStart : Bool) (input : Inputs) (registers : Registers) : Registers :=
  (registers.firstHalf measureStart input).negedge input

end Registers

/-- The registers at the end of cycle `t`. -/
def run (inputs : ℕ → Inputs) (powerUp : Registers) : ℕ → Registers
  | 0 => powerUp
  | t + 1 => (run inputs powerUp t).cycle (inputs t).measureStart (inputs (t + 1))

/-- The registers in the first half of cycle `t`. -/
def firstHalf (inputs : ℕ → Inputs) (powerUp : Registers) : ℕ → Registers
  | 0 => powerUp
  | t + 1 => (run inputs powerUp t).firstHalf (inputs t).measureStart (inputs (t + 1))

/-- `ADC_CONVST` in cycle `t`. -/
def adcConvst (inputs : ℕ → Inputs) (powerUp : Registers) (t : ℕ) : Bool :=
  (run inputs powerUp t).adcConvst

/-- `ADC_SCK` in the first half of cycle `t`.  In the second half it is low. -/
def adcSck (inputs : ℕ → Inputs) (powerUp : Registers) (t : ℕ) : Bool :=
  (firstHalf inputs powerUp t).clkEnable

/-- `ADC_SDI` in the first half of cycle `t`. -/
def adcSdi (inputs : ℕ → Inputs) (powerUp : Registers) (t : ℕ) : Bool :=
  (firstHalf inputs powerUp t).adcSdi

/-- The wave at the port `measure_start`. -/
def measureStartWave (inputs : ℕ → Inputs) (t : ℕ) : Bool := (inputs t).measureStart

end AdcLtc2308
end FpgaRadar
