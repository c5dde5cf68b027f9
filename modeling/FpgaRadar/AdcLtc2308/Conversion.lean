import FpgaRadar.AdcLtc2308.Basic
import FpgaRadar.Vhdl.Waveform
import Mathlib.Data.BitVec
import Mathlib.Data.List.GetD

/-!
# One conversion

A rise of `measure_start` begins a conversion, and until the next rise the registers depend on
nothing but the cycles since then, the channel and the levels of `ADC_SDO`.  What they hold `c`
cycles after the rise is stated for the timing, for the received bits and for the command
separately; each part is kept by a cycle that does not begin another conversion.
-/

namespace FpgaRadar
namespace AdcLtc2308

open Vhdl

theorem tConvstHighEnd_eq : tConvstHighEnd = 3 := rfl

theorem tDone_eq : tDone = 396 := rfl

/-- A rise of `measure_start` in a cycle, seen from the cycle before. -/
def Rises (before after : Bool) : Prop := before = false ∧ after = true

/-- The timing `c` cycles after the rise. -/
structure Timed (c : ℕ) (registers : Registers) : Prop where
  tick : registers.tick = min (c - 1) 396
  clkEnable : registers.clkEnable = decide (65 ≤ c ∧ c ≤ 76)
  measureDone : registers.measureDone = decide (398 ≤ c)

/-- Bits received up to cycle `c`. -/
def received (c : ℕ) : ℕ := min (c - 65) 12

/-- The received bits are the levels of `ADC_SDO` so far, the first one on the left. -/
structure Received (adcSdo : ℕ → Bool) (c : ℕ) (registers : Registers) : Prop where
  writePos : registers.writePos = 11#4 - BitVec.ofNat 4 (received c)
  readData : ∀ j, (bound : j < 12) →
    registers.readData[11 - j] = (decide (j < received c) && adcSdo (66 + j))

/-- The command is shifted out from the left, and zeros after it. -/
structure Sent (measureCh : BitVec 3) (c : ℕ) (registers : Registers) : Prop where
  configCmd : registers.configCmd = configCmdOf measureCh
  sdiIndex : 4 ≤ c → c ≤ 70 → registers.sdiIndex = 4#3 - BitVec.ofNat 3 (c - 65)
  adcSdi : 4 ≤ c → registers.adcSdi =
    (decide (c ≤ 70) && (configCmdOf measureCh).getLsbD (70 - max c 65))

variable {before : Bool} {input : Inputs} {registers : Registers} {adcSdo : ℕ → Bool}
  {measureCh : BitVec 3} {c : ℕ}

namespace Registers

theorem resetN_posedge (before after : Bool) (registers : Registers) :
    (registers.posedge before).resetN after = false ↔ Rises before after := by
  simp [resetN, posedge, Rises]

theorem firstHalf_of_rises (rises : Rises before input.measureStart) :
    registers.firstHalf before input = (registers.posedge before).reset input.measureCh :=
  if_pos ((resetN_posedge _ _ _).mpr rises)

theorem firstHalf_of_not_rises (quiet : ¬ Rises before input.measureStart) :
    registers.firstHalf before input = registers.posedge before :=
  if_neg fun low => quiet ((resetN_posedge _ _ _).mp low)

/-- At the end of a cycle `reset_n` is low if `measure_start` has risen. -/
theorem resetN_cycle (before after : Bool) (input : Inputs) (registers : Registers) :
    (registers.cycle before input).resetN after = false ↔ Rises before after := by
  have settled : ((registers.firstHalf before input).negedge input).resetN after =
      (registers.posedge before).resetN after := by
    rw [firstHalf, settle]
    split_ifs <;> rfl
  rw [cycle, settled, resetN_posedge]

/-- The falling edge while `reset_n` is low. -/
theorem negedge_of_low (low : registers.resetN input.measureStart = false) :
    (registers.negedge input).clkEnable = false ∧
      (registers.negedge input).readData = Vector.replicate 12 false ∧
      (registers.negedge input).writePos = 11#4 :=
  ⟨if_pos low, if_pos low, if_pos low⟩

theorem negedge_clkEnable (high : registers.resetN input.measureStart = true) :
    (registers.negedge input).clkEnable = decide (64 ≤ registers.tick ∧ registers.tick < 76) :=
  if_neg (ne_false_of_eq_true high)

theorem negedge_readData (high : registers.resetN input.measureStart = true) :
    (registers.negedge input).readData = if registers.clkEnable then
      registers.readData.setIfInBounds registers.writePos.toNat input.adcSdo
    else registers.readData :=
  if_neg (ne_false_of_eq_true high)

theorem negedge_writePos (high : registers.resetN input.measureStart = true) :
    (registers.negedge input).writePos =
      if registers.clkEnable then registers.writePos - 1 else registers.writePos :=
  if_neg (ne_false_of_eq_true high)

theorem negedge_adcSdi (input : Inputs) (registers : Registers) :
    (registers.negedge input).adcSdi =
      if registers.tick = 3 then registers.configCmd.getLsbD 5
      else if 64 < registers.tick ∧ registers.tick ≤ 69 then
        if registers.sdiIndex.toNat < 6 then registers.configCmd.getLsbD registers.sdiIndex.toNat
        else input.unknown
      else if 69 < registers.tick then false else registers.adcSdi := rfl

theorem negedge_sdiIndex (input : Inputs) (registers : Registers) :
    (registers.negedge input).sdiIndex =
      if registers.tick = 3 then 4#3
      else if 64 < registers.tick ∧ registers.tick ≤ 69 then registers.sdiIndex - 1
      else registers.sdiIndex := rfl

end Registers

/-! ## The beginning -/

theorem Timed.of_rises (low : (registers.reset measureCh).resetN input.measureStart = false) :
    Timed 0 ((registers.reset measureCh).negedge input) where
  tick := rfl
  clkEnable := (Registers.negedge_of_low low).1
  measureDone := rfl

theorem Received.of_rises (low : (registers.reset measureCh).resetN input.measureStart = false) :
    Received adcSdo 0 ((registers.reset measureCh).negedge input) where
  writePos := (Registers.negedge_of_low low).2.2
  readData j bound := by
    have cleared : ((registers.reset measureCh).negedge input).readData = _ :=
      (Registers.negedge_of_low low).2.1
    simp [cleared, received]

theorem Sent.of_rises (input : Inputs) (registers : Registers) :
    Sent measureCh 0 ((registers.reset measureCh).negedge input) where
  configCmd := rfl
  sdiIndex late := absurd late (by norm_num)
  adcSdi late := absurd late (by norm_num)

/-! ## A cycle -/

theorem Timed.tick_posedge (timed : Timed c registers)
    (level : registers.resetN before = decide (0 < c)) :
    (registers.posedge before).tick = min c 396 := by
  simp only [Registers.posedge, level, timed.tick, tDone_eq, decide_eq_false_iff_not]
  split_ifs <;> omega

theorem Timed.measureDone_posedge (timed : Timed c registers)
    (level : registers.resetN before = decide (0 < c)) :
    (registers.posedge before).measureDone = decide (398 ≤ c + 1) := by
  simp only [Registers.posedge, level, timed.tick, timed.measureDone, tDone_eq,
    decide_eq_false_iff_not]
  split_ifs <;> simp <;> omega

theorem Timed.next (timed : Timed c registers)
    (level : registers.resetN before = decide (0 < c))
    (high : (registers.posedge before).resetN input.measureStart = true) :
    Timed (c + 1) ((registers.posedge before).negedge input) where
  tick := timed.tick_posedge level
  clkEnable := by
    rw [Registers.negedge_clkEnable high, timed.tick_posedge level, decide_eq_decide]
    omega
  measureDone := timed.measureDone_posedge level

/-- Where the bit received in cycle `c + 1` goes. -/
theorem toNat_writePos (lower : 65 ≤ c) (upper : c ≤ 76) :
    (11#4 - BitVec.ofNat 4 (received c)).toNat = 11 - (c - 65) := by
  obtain ⟨j, rfl⟩ := Nat.exists_eq_add_of_le lower
  have bound : j < 12 := by omega
  rw [received, Nat.add_sub_cancel_left, min_eq_left bound.le]
  clear lower upper
  revert j
  decide

theorem Received.next (received : Received adcSdo c registers) (timed : Timed c registers)
    (sdo : input.adcSdo = adcSdo (c + 1))
    (high : (registers.posedge before).resetN input.measureStart = true) :
    Received adcSdo (c + 1) ((registers.posedge before).negedge input) := by
  have enable : (registers.posedge before).clkEnable = _ := timed.clkEnable
  have position : (registers.posedge before).writePos = _ := received.writePos
  have data : (registers.posedge before).readData = registers.readData := rfl
  by_cases transfer : 65 ≤ c ∧ c ≤ 76
  · rw [decide_eq_true transfer] at enable
    have one_more : AdcLtc2308.received (c + 1) = AdcLtc2308.received c + 1 := by
      simp only [AdcLtc2308.received]
      omega
    constructor
    · rw [Registers.negedge_writePos high, if_pos enable, position, one_more, BitVec.ofNat_add]
      exact sub_sub _ _ _
    · intro j bound
      simp only [Registers.negedge_readData high, if_pos enable, data, position,
        toNat_writePos transfer.1 transfer.2, sdo, one_more]
      rw [Vector.getElem_setIfInBounds, received.readData j bound]
      have count : AdcLtc2308.received c = c - 65 := min_eq_left (by omega)
      rcases lt_trichotomy j (c - 65) with earlier | rfl | later
      · rw [if_neg (by omega), count, decide_eq_true earlier, decide_eq_true (by omega)]
      · have index : 66 + (c - 65) = c + 1 := by omega
        rw [if_pos rfl, count, decide_eq_true (Nat.lt_succ_self _), index, Bool.true_and]
      · rw [if_neg (by omega), count, decide_eq_false (by omega), decide_eq_false (by omega)]
  · rw [decide_eq_false transfer] at enable
    have same : AdcLtc2308.received (c + 1) = AdcLtc2308.received c := by
      simp only [AdcLtc2308.received]
      omega
    constructor
    · rw [Registers.negedge_writePos high, if_neg (ne_true_of_eq_false enable), position, same]
    · intro j bound
      simp only [Registers.negedge_readData high, if_neg (ne_true_of_eq_false enable), data, same]
      exact received.readData j bound

/-- The bit of the command that is sent in cycle `c + 1`. -/
theorem toNat_sdiIndex (lower : 65 ≤ c) (upper : c ≤ 69) :
    (4#3 - BitVec.ofNat 3 (c - 65)).toNat = 69 - c := by
  interval_cases c <;> rfl

theorem Sent.next (sent : Sent measureCh c registers) (timed : Timed c registers)
    (level : registers.resetN before = decide (0 < c)) :
    Sent measureCh (c + 1) ((registers.posedge before).negedge input) := by
  have tick := timed.tick_posedge level
  have command : (registers.posedge before).configCmd = _ := sent.configCmd
  have index : (registers.posedge before).sdiIndex = registers.sdiIndex := rfl
  have level : (registers.posedge before).adcSdi = registers.adcSdi := rfl
  constructor
  · exact command
  · intro lower upper
    rw [Registers.negedge_sdiIndex, tick, index]
    split_ifs with init enable
    · obtain rfl : c = 3 := by omega
      rfl
    · have shifted : c + 1 - 65 = c - 65 + 1 := by omega
      rw [sent.sdiIndex (by omega) (by omega), shifted, BitVec.ofNat_add]
      exact sub_sub _ _ _
    · have same : c + 1 - 65 = c - 65 := by omega
      rw [sent.sdiIndex (by omega) (by omega), same]
  · intro lower
    rw [Registers.negedge_adcSdi, tick, index, level, command]
    split_ifs with init enable inside done
    · obtain rfl : c = 3 := by omega
      rfl
    · have next_index : 70 - (c + 1) = 69 - c := by omega
      rw [sent.sdiIndex (by omega) (by omega), toNat_sdiIndex (by omega) (by omega),
        max_eq_left (by omega), next_index, decide_eq_true (by omega), Bool.true_and]
    · rw [sent.sdiIndex (by omega) (by omega), toNat_sdiIndex (by omega) (by omega)] at inside
      omega
    · rw [decide_eq_false (by omega), Bool.false_and]
    · rw [sent.adcSdi (by omega), max_eq_right (by omega), max_eq_right (by omega),
        decide_eq_true (by omega), decide_eq_true (by omega)]

/-! ## All of it -/

/-- The registers `c` cycles after the rise. -/
structure Converting (measureCh : BitVec 3) (adcSdo : ℕ → Bool) (c : ℕ) (registers : Registers) :
    Prop where
  timed : Timed c registers
  received : Received adcSdo c registers
  sent : Sent measureCh c registers

/-- A rise begins a conversion, whatever the controller was doing. -/
theorem converting_of_rises (adcSdo : ℕ → Bool) (input : Inputs) (registers : Registers)
    (rises : Rises before input.measureStart) :
    Converting input.measureCh adcSdo 0 (registers.cycle before input) := by
  have low := (Registers.resetN_posedge before input.measureStart registers).mpr rises
  rw [Registers.cycle, Registers.firstHalf_of_rises rises]
  exact ⟨Timed.of_rises low, Received.of_rises low, Sent.of_rises input _⟩

/-- Other cycles continue it. -/
theorem Converting.next (converting : Converting measureCh adcSdo c registers)
    (level : registers.resetN before = decide (0 < c))
    (quiet : ¬ Rises before input.measureStart) (sdo : input.adcSdo = adcSdo (c + 1)) :
    Converting measureCh adcSdo (c + 1) (registers.cycle before input) := by
  obtain ⟨timed, received, sent⟩ := converting
  have high : (registers.posedge before).resetN input.measureStart = true :=
    eq_true_of_ne_false fun low => quiet ((Registers.resetN_posedge _ _ _).mp low)
  rw [Registers.cycle, Registers.firstHalf_of_not_rises quiet]
  exact ⟨timed.next level high, received.next timed sdo high, sent.next timed level⟩

/-- The command from the left: a start bit, the channel in the order of the converter, the unipolar
mode and no sleep. -/
theorem configCmdOf_getLsbD (measureCh : BitVec 3) (j : ℕ) :
    (decide (j < 6) && (configCmdOf measureCh).getLsbD (5 - j)) =
      [true, measureCh.getLsbD 0, measureCh.getLsbD 2, measureCh.getLsbD 1, true,
        false].getD j false := by
  rcases Nat.lt_or_ge j 6 with inside | outside
  · revert measureCh
    interval_cases j <;> decide
  · rw [decide_eq_false (by omega), Bool.false_and, List.getD_eq_default _ _ outside]

/-- Before the `j`-th pulse of the clock its bit is on `ADC_SDI`. -/
theorem Sent.adcSdi_pulse {j : ℕ} (sent : Sent measureCh (65 + j) registers) :
    registers.adcSdi =
      [true, measureCh.getLsbD 0, measureCh.getLsbD 2, measureCh.getLsbD 1, true,
        false].getD j false := by
  have index : 70 - max (65 + j) 65 = 5 - j := by omega
  have inside : 65 + j ≤ 70 ↔ j < 6 := by omega
  rw [sent.adcSdi (by omega), ← configCmdOf_getLsbD, index]
  simp only [inside]

/-! ## In a run -/

section Run

variable {inputs : ℕ → Inputs} {powerUp : Registers} {start last : ℕ}

/-- `reset_n` is low in the cycle where `measure_start` has risen. -/
theorem resetN_run (inputs : ℕ → Inputs) (powerUp : Registers) (t : ℕ) :
    (run inputs powerUp (t + 1)).resetN (inputs (t + 1)).measureStart = false ↔
      RisesAt (measureStartWave inputs) t :=
  Registers.resetN_cycle _ _ _ _

/-- Without a rise nothing but the counting happens in the first half of a cycle. -/
theorem firstHalf_of_quiet {t : ℕ} (quiet : ¬ RisesAt (measureStartWave inputs) t) :
    firstHalf inputs powerUp (t + 1) = (run inputs powerUp t).posedge (inputs t).measureStart :=
  Registers.firstHalf_of_not_rises quiet

/-- With a rise the controller is reset. -/
theorem firstHalf_of_risesAt {t : ℕ} (rises : RisesAt (measureStartWave inputs) t) :
    firstHalf inputs powerUp (t + 1) = ((run inputs powerUp t).posedge
      (inputs t).measureStart).reset (inputs (t + 1)).measureCh :=
  Registers.firstHalf_of_rises rises

/-- The conversion that a rise begins goes on until the next rise. -/
theorem converting_run (powerUp : Registers) (rises : RisesAt (measureStartWave inputs) start)
    (alone : ∀ t, start < t → t < last → ¬ RisesAt (measureStartWave inputs) t)
    (bound : start + 1 + c ≤ last) :
    Converting (inputs (start + 1)).measureCh (fun c => (inputs (start + 1 + c)).adcSdo) c
      (run inputs powerUp (start + 1 + c)) := by
  induction c with
  | zero => exact converting_of_rises _ _ _ rises
  | succ c induction =>
      have level : (run inputs powerUp (start + 1 + c)).resetN
          (inputs (start + 1 + c)).measureStart = decide (0 < c) := by
        rw [Bool.eq_iff_iff, decide_eq_true_iff, ← not_iff_not, Bool.not_eq_true, Nat.not_lt,
          Nat.add_right_comm, resetN_run]
        constructor
        · intro again
          by_contra! later
          exact alone _ (by omega) (by omega) again
        · intro first
          obtain rfl := Nat.le_zero.mp first
          exact rises
      have quiet : ¬ RisesAt (measureStartWave inputs) (start + 1 + c) :=
        alone _ (by omega) (by omega)
      exact (induction (by omega)).next level quiet rfl

/-- One conversion, on all the pins.  From the cycle in which `measure_start` has risen until it
rises again, whatever the controller was doing before: CONVST is high in the first four cycles; SCK
has twelve pulses; the six bits of the command and then zeros are on SDI at these pulses; and once
they are over, the result holds the levels of SDO in these cycles, the first one on the left.
`measure_done` rises 398 cycles after the trigger and not before. -/
theorem conversion_after_trigger (inputs : ℕ → Inputs) (powerUp : Registers) (start last : ℕ)
    (rises : RisesAt (measureStartWave inputs) start)
    (alone : ∀ t, start < t → t < last → ¬ RisesAt (measureStartWave inputs) t) :
    (∀ c, start + 1 + c ≤ last →
      (adcConvst inputs powerUp (start + 1 + c) = true ↔ c < 4) ∧
      (adcSck inputs powerUp (start + 1 + c) = true ↔ 66 ≤ c ∧ c < 78) ∧
      ((run inputs powerUp (start + 1 + c)).measureDone = true ↔ 398 ≤ c)) ∧
    (∀ j, j < 12 → start + 67 + j ≤ last →
      adcSdi inputs powerUp (start + 67 + j) =
        [true, (inputs (start + 1)).measureCh.getLsbD 0, (inputs (start + 1)).measureCh.getLsbD 2,
          (inputs (start + 1)).measureCh.getLsbD 1, true, false].getD j false) ∧
    ∀ c j, (bound : j < 12) → 77 ≤ c → start + 1 + c ≤ last →
      (run inputs powerUp (start + 1 + c)).readData[11 - j] = (inputs (start + 67 + j)).adcSdo := by
  refine ⟨fun c within => ?_, fun j bound within => ?_, fun c j bound complete within => ?_⟩
  · have converting := converting_run powerUp rises alone within
    refine ⟨?_, ?_, ?_⟩
    · rw [adcConvst, Registers.adcConvst, converting.timed.tick, tConvstHighEnd_eq]
      simp only [tConvstHighStart, Nat.zero_le, decide_true, Bool.true_and, decide_eq_true_iff]
      omega
    · rw [adcSck]
      cases c with
      | zero =>
          rw [Nat.add_zero, firstHalf_of_risesAt rises]
          simp [Registers.reset]
      | succ c =>
          have earlier := converting_run powerUp rises alone (c := c) (by omega)
          rw [← Nat.add_assoc, firstHalf_of_quiet (alone _ (by omega) (by omega))]
          refine (Bool.eq_iff_iff.mp earlier.timed.clkEnable).trans ?_
          rw [decide_eq_true_iff]
          omega
    · rw [converting.timed.measureDone, decide_eq_true_iff]
  · have sent := (converting_run powerUp rises alone (c := 65 + j) (by omega)).sent
    have pulse : start + 67 + j = start + 1 + (65 + j) + 1 := by omega
    rw [adcSdi, pulse, firstHalf_of_quiet (alone _ (by omega) (by omega))]
    exact sent.adcSdi_pulse
  · have converting := converting_run powerUp rises alone within
    have all : received c = 12 := min_eq_right (by omega)
    rw [converting.received.readData j bound, all, decide_eq_true bound, Bool.true_and]
    congr 2
    omega

end Run

/-- Channel 5 is asked for once, and `ADC_SDO` is high in every third cycle. -/
def channelFive (t : ℕ) : Inputs where
  measureStart := decide (1 ≤ t)
  measureCh := 5#3
  adcSdo := decide (t % 3 = 0)
  unknown := false

theorem risesAt_channelFive (t : ℕ) : RisesAt (measureStartWave channelFive) t ↔ t = 0 := by
  simp only [RisesAt, measureStartWave, channelFive, decide_eq_false_iff_not, decide_eq_true_iff]
  omega

/-- The first bits of the result. -/
theorem conversion_after_trigger_channel_five :
    (run channelFive cleared 500).measureDone = true ∧
      (run channelFive cleared 500).readData[11] = false ∧
      (run channelFive cleared 500).readData[9] = true := by
  obtain ⟨timing, _, bits⟩ := conversion_after_trigger channelFive cleared 0 500
    ((risesAt_channelFive 0).mpr rfl)
    fun t later _ rises => later.ne' ((risesAt_channelFive t).mp rises)
  exact ⟨(timing 499 le_rfl).2.2.mpr (by norm_num),
    bits 499 0 (by norm_num) (by norm_num) le_rfl, bits 499 2 (by norm_num) (by norm_num) le_rfl⟩

end AdcLtc2308
end FpgaRadar
