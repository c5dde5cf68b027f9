import FpgaRadar.AdcLtc2308.Basic

/-!
# The sequencer of the analog-to-digital converter

This file embeds the part of `adc_ltc2308_fifo.v` that runs on `adc_clk`, around an instance of the
controller.  The registers that the bus writes are its input ports, and the FIFO is represented by
the words that its write port is given.
-/

namespace FpgaRadar
namespace AdcLtc2308Fifo

/-- What the processes on `adc_clk` assign. -/
structure Registers where
  /-- Level of `measure_fifo_start` at the last rising edge. -/
  preMeasureFifoStart : Bool
  /-- Measurements that have been counted. -/
  measureCount : BitVec 12
  /-- The first measurement has not ended yet. -/
  configFirst : Bool
  /-- A measurement goes on. -/
  waitMeasureDone : Bool
  /-- Trigger of the controller. -/
  measureStart : Bool
  /-- All measurements have been made. -/
  measureFifoDone : Bool
  /-- `measure_done` at the last rising edge. -/
  preMeasureDone : Bool
  /-- The instance `adc_ltc2308_inst`. -/
  adc : AdcLtc2308.Registers
  deriving DecidableEq

/-- Registers that are all zero. -/
def cleared : Registers where
  preMeasureFifoStart := false
  measureCount := 0
  configFirst := false
  waitMeasureDone := false
  measureStart := false
  measureFifoDone := false
  preMeasureDone := false
  adc := AdcLtc2308.cleared

/-- The levels of the input ports in a cycle. -/
structure Inputs where
  /-- `measure_fifo_start` from the rising edge on. -/
  measureFifoStart : Bool
  /-- `measure_fifo_num` from the rising edge on. -/
  measureFifoNum : BitVec 12
  /-- `measure_fifo_ch` from the rising edge on. -/
  measureFifoCh : BitVec 3
  /-- `ADC_SDO` at the falling edge. -/
  adcSdo : Bool
  /-- What a bit outside of the command reads as. -/
  unknown : Bool
  deriving DecidableEq

namespace Registers

/-- `adc_reset_n`, low from a rise of `measure_fifo_start` to the next rising edge of the clock. -/
def adcResetN (measureFifoStart : Bool) (registers : Registers) : Bool :=
  !(!registers.preMeasureFifoStart && measureFifoStart)

/-- `fifo_wrreq`. -/
def fifoWrreq (registers : Registers) : Bool :=
  !registers.preMeasureDone && registers.adc.measureDone && !registers.configFirst

/-- The reset branches of the two processes. -/
def reset (registers : Registers) : Registers :=
  { registers with
    measureStart := false
    configFirst := true
    measureCount := 0
    measureFifoDone := false
    waitMeasureDone := false
    preMeasureDone := false }

/-- The clocked branches of the process that controls `measure_start`. -/
def control (measureFifoNum : BitVec 12) (registers : Registers) : Registers :=
  if !registers.measureFifoDone && !registers.measureStart && !registers.waitMeasureDone then
    { registers with measureStart := true, waitMeasureDone := true }
  else if registers.waitMeasureDone then
    if registers.adc.measureDone then
      if registers.configFirst then { registers with measureStart := false, configFirst := false }
      else if registers.measureCount < measureFifoNum then
        { registers with
          measureStart := false
          measureCount := registers.measureCount + 1
          waitMeasureDone := false }
      else { registers with measureStart := false, measureFifoDone := true }
    else { registers with measureStart := false }
  else registers

/-- The processes of the rising edge, with the input ports before it. -/
def posedge (input : Inputs) (registers : Registers) : Registers :=
  let assigned :=
    if registers.adcResetN input.measureFifoStart = false then registers.reset
    else
      { registers.control input.measureFifoNum with preMeasureDone := registers.adc.measureDone }
  { assigned with
    preMeasureFifoStart := input.measureFifoStart
    adc := registers.adc.posedge registers.measureStart }

/-- The resets that follow.  That of the controller comes from `measure_start` as the edge has left
it, that of the sequencer from `measure_fifo_start`, which may change later in the cycle. -/
def settle (input : Inputs) (registers : Registers) : Registers :=
  let settled :=
    { registers with adc := registers.adc.settle registers.measureStart input.measureFifoCh }
  if registers.adcResetN input.measureFifoStart = false then settled.reset else settled

/-- What the controller sees of the input ports. -/
def port (input : Inputs) (registers : Registers) : AdcLtc2308.Inputs where
  measureStart := registers.measureStart
  measureCh := input.measureFifoCh
  adcSdo := input.adcSdo
  unknown := input.unknown

/-- The processes of the falling edge are those of the controller. -/
def negedge (input : Inputs) (registers : Registers) : Registers :=
  { registers with adc := registers.adc.negedge (registers.port input) }

/-- The first half of a cycle, up to the falling edge; `before` holds the input ports of the cycle
before. -/
def firstHalf (before input : Inputs) (registers : Registers) : Registers :=
  (registers.posedge before).settle input

/-- One cycle. -/
def cycle (before input : Inputs) (registers : Registers) : Registers :=
  (registers.firstHalf before input).negedge input

end Registers

/-- The registers at the end of cycle `t`. -/
def run (inputs : ℕ → Inputs) (powerUp : Registers) : ℕ → Registers
  | 0 => powerUp
  | t + 1 => (run inputs powerUp t).cycle (inputs t) (inputs (t + 1))

/-- The registers in the first half of cycle `t`. -/
def firstHalf (inputs : ℕ → Inputs) (powerUp : Registers) : ℕ → Registers
  | 0 => powerUp
  | t + 1 => (run inputs powerUp t).firstHalf (inputs t) (inputs (t + 1))

/-- `ADC_SCK` in the first half of cycle `t`.  In the second half it is low. -/
def adcSck (inputs : ℕ → Inputs) (powerUp : Registers) (t : ℕ) : Bool :=
  (firstHalf inputs powerUp t).adc.clkEnable

/-- `ADC_SDI` in the first half of cycle `t`. -/
def adcSdi (inputs : ℕ → Inputs) (powerUp : Registers) (t : ℕ) : Bool :=
  (firstHalf inputs powerUp t).adc.adcSdi

/-- The words that the write port of the FIFO has been given since `aclr` was high, in cycle `t`. -/
def fifoWords (inputs : ℕ → Inputs) (powerUp : Registers) : ℕ → List (Vector Bool 12)
  | 0 => []
  | t + 1 =>
      let written :=
        if (run inputs powerUp t).fifoWrreq then
          fifoWords inputs powerUp t ++ [(run inputs powerUp t).adc.readData]
        else fifoWords inputs powerUp t
      if (run inputs powerUp (t + 1)).adcResetN (inputs (t + 1)).measureFifoStart = false then []
      else written

/-- The wave at `measure_fifo_start`. -/
def measureFifoStartWave (inputs : ℕ → Inputs) (t : ℕ) : Bool := (inputs t).measureFifoStart

end AdcLtc2308Fifo
end FpgaRadar
