import FpgaRadar.AdcLtc2308.Conversion
import FpgaRadar.AdcLtc2308.Fifo

/-!
# A sequence of measurements

A rise of `measure_fifo_start` begins a sequence: one conversion whose result is thrown away, since
it belongs to the command before, and then as many as `measure_fifo_num` says.  A cycle takes each
phase of the sequence to the next one, and the words written to the FIFO are those of the
conversions that count.
-/

namespace FpgaRadar
namespace AdcLtc2308Fifo

open Vhdl
open AdcLtc2308 (Converting Rises)

/-- The cycle in which the `k`-th conversion begins, counted from the rise. -/
def begins : ℕ → ℕ
  | 0 => 2
  | k + 1 => 403 + 400 * k

/-- The last cycle of the `k`-th conversion, in which the sequencer sees that it has ended. -/
def lasts : ℕ → ℕ
  | 0 => 399
  | _ + 1 => 398

/-- The word that the `k`-th conversion receives, when `adcSdo` counts from the rise. -/
def word (adcSdo : ℕ → Bool) (k : ℕ) : Vector Bool 12 :=
  Vector.ofFn fun i => adcSdo (begins k + 66 + (11 - i))

/-- The words of the first `n` conversions that count. -/
def wordsOf (adcSdo : ℕ → Bool) (n : ℕ) : List (Vector Bool 12) :=
  (List.range n).map fun k => word adcSdo (k + 1)

/-! ## The phases -/

/-- The registers after a reset. -/
structure Resetting (registers : Registers) : Prop where
  measureStart : registers.measureStart = false
  waitMeasureDone : registers.waitMeasureDone = false
  measureFifoDone : registers.measureFifoDone = false
  measureCount : registers.measureCount = 0
  configFirst : registers.configFirst = true

/-- The `k`-th conversion goes on since `c` cycles. -/
structure Measuring (measureCh : BitVec 3) (adcSdo : ℕ → Bool) (k c : ℕ) (registers : Registers) :
    Prop where
  measureStart : registers.measureStart = decide (c = 0)
  waitMeasureDone : registers.waitMeasureDone = true
  measureFifoDone : registers.measureFifoDone = false
  measureCount : registers.measureCount = BitVec.ofNat 12 k
  configFirst : registers.configFirst = decide (k = 0 ∧ c < 399)
  preMeasureDone : 0 < c → registers.preMeasureDone = decide (399 ≤ c)
  level : registers.adc.resetN registers.measureStart = decide (0 < c)
  converting : Converting measureCh (fun c => adcSdo (begins k + c)) c registers.adc

/-- The sequencer waits a cycle before the next conversion. -/
structure Pausing (k : ℕ) (registers : Registers) : Prop where
  measureStart : registers.measureStart = false
  waitMeasureDone : registers.waitMeasureDone = false
  measureFifoDone : registers.measureFifoDone = false
  measureCount : registers.measureCount = BitVec.ofNat 12 k
  configFirst : registers.configFirst = false
  preMeasureDone : registers.preMeasureDone = true

/-- The last conversion has ended. -/
structure Finished (measureCh : BitVec 3) (adcSdo : ℕ → Bool) (k c : ℕ) (registers : Registers) :
    Prop where
  measureStart : registers.measureStart = false
  waitMeasureDone : registers.waitMeasureDone = true
  measureFifoDone : registers.measureFifoDone = true
  measureCount : registers.measureCount = BitVec.ofNat 12 k
  configFirst : registers.configFirst = false
  preMeasureDone : registers.preMeasureDone = true
  ended : lasts k < c
  converting : Converting measureCh (fun c => adcSdo (begins k + c)) c registers.adc

variable {before input : Inputs} {registers : Registers} {measureCh : BitVec 3}
  {adcSdo : ℕ → Bool} {num k c : ℕ}

/-! ## A cycle without a reset -/

namespace Registers

/-- After an edge the reset is that of a rise. -/
theorem adcResetN_posedge (before : Inputs) (after : Bool) (registers : Registers) :
    (registers.posedge before).adcResetN after = false ↔ Rises before.measureFifoStart after := by
  simp [adcResetN, posedge, Rises]

/-- And so it is at the end of the cycle. -/
theorem adcResetN_cycle (before input : Inputs) (after : Bool) (registers : Registers) :
    (registers.cycle before input).adcResetN after = false ↔
      Rises before.measureFifoStart after := by
  have settled : (registers.cycle before input).adcResetN after =
      (registers.posedge before).adcResetN after := by
    rw [cycle, firstHalf, settle]
    split_ifs <;> rfl
  rw [settled, adcResetN_posedge]

/-- The first half of a cycle in which the sequencer is not reset. -/
theorem firstHalf_of_quiet (high : registers.adcResetN before.measureFifoStart = true)
    (quiet : ¬ Rises before.measureFifoStart input.measureFifoStart) :
    registers.firstHalf before input =
      { registers.control before.measureFifoNum with
        preMeasureDone := registers.adc.measureDone
        preMeasureFifoStart := before.measureFifoStart
        adc := registers.adc.firstHalf registers.measureStart
          ((registers.control before.measureFifoNum).port input) } := by
  have kept : ¬ (registers.posedge before).adcResetN input.measureFifoStart = false :=
    fun low => quiet ((adcResetN_posedge _ _ _).mp low)
  rw [firstHalf, settle, if_neg kept, posedge, if_neg (ne_false_of_eq_true high)]
  rfl

/-- The whole cycle. -/
theorem cycle_of_quiet (high : registers.adcResetN before.measureFifoStart = true)
    (quiet : ¬ Rises before.measureFifoStart input.measureFifoStart) :
    registers.cycle before input =
      { registers.control before.measureFifoNum with
        preMeasureDone := registers.adc.measureDone
        preMeasureFifoStart := before.measureFifoStart
        adc := registers.adc.cycle registers.measureStart
          ((registers.control before.measureFifoNum).port input) } := by
  rw [cycle, firstHalf_of_quiet high quiet]
  rfl

variable {measureFifoNum : BitVec 12}

theorem control_of_idle (start : registers.measureStart = false)
    (waits : registers.waitMeasureDone = false) (done : registers.measureFifoDone = false) :
    registers.control measureFifoNum =
      { registers with measureStart := true, waitMeasureDone := true } := by
  simp [control, start, waits, done]

/-- A sequencer that waits for the controller does not trigger it. -/
theorem measureStart_control (measureFifoNum : BitVec 12)
    (waits : registers.waitMeasureDone = true) :
    (registers.control measureFifoNum).measureStart = false := by
  simp only [control, waits, Bool.not_true, Bool.and_false, Bool.false_eq_true, if_false, if_true]
  split_ifs <;> rfl

theorem control_of_converting (waits : registers.waitMeasureDone = true)
    (converts : registers.adc.measureDone = false) :
    registers.control measureFifoNum = { registers with measureStart := false } := by
  simp [control, waits, converts]

theorem control_of_first (waits : registers.waitMeasureDone = true)
    (converted : registers.adc.measureDone = true) (first : registers.configFirst = true) :
    registers.control measureFifoNum =
      { registers with measureStart := false, configFirst := false } := by
  simp [control, waits, converted, first]

theorem control_of_more (waits : registers.waitMeasureDone = true)
    (converted : registers.adc.measureDone = true) (later : registers.configFirst = false)
    (more : registers.measureCount < measureFifoNum) :
    registers.control measureFifoNum =
      { registers with
        measureStart := false
        measureCount := registers.measureCount + 1
        waitMeasureDone := false } := by
  simp [control, waits, converted, later, more]

theorem control_of_last (waits : registers.waitMeasureDone = true)
    (converted : registers.adc.measureDone = true) (later : registers.configFirst = false)
    (last : ¬ registers.measureCount < measureFifoNum) :
    registers.control measureFifoNum =
      { registers with measureStart := false, measureFifoDone := true } := by
  simp [control, waits, converted, later, last]

end Registers

/-! ## One cycle of each phase -/

theorem lasts_le (k : ℕ) : 398 ≤ lasts k ∧ lasts k ≤ 399 := by
  cases k <;> simp [lasts]

/-- Before the last cycle of a conversion. -/
theorem Measuring.control_of_lt (measuring : Measuring measureCh adcSdo k c registers)
    (measureFifoNum : BitVec 12) (continues : c < lasts k) :
    registers.control measureFifoNum =
      { registers with measureStart := false, configFirst := decide (k = 0 ∧ c + 1 < 399) } := by
  have waits := measuring.waitMeasureDone
  have done := measuring.converting.timed.measureDone
  have bound := lasts_le k
  rcases Nat.lt_or_ge c 398 with converts | converted
  · have first : registers.configFirst = decide (k = 0 ∧ c + 1 < 399) := by
      rw [measuring.configFirst, decide_eq_decide]
      omega
    rw [Registers.control_of_converting waits (done.trans (decide_eq_false (by omega))), ← first]
  · -- only the conversion that is thrown away has a cycle 399
    obtain rfl : k = 0 := by
      cases k with
      | zero => rfl
      | succ k => exact absurd continues (not_lt.mpr converted)
    have first : registers.configFirst = true := by
      rw [measuring.configFirst]
      exact decide_eq_true ⟨rfl, continues⟩
    rw [Registers.control_of_first waits (done.trans (decide_eq_true converted)) first,
      decide_eq_false (by omega)]

theorem Measuring.ended (measuring : Measuring measureCh adcSdo k (lasts k) registers) :
    registers.adc.measureDone = true ∧ registers.configFirst = false := by
  refine ⟨measuring.converting.timed.measureDone.trans (decide_eq_true (lasts_le k).1), ?_⟩
  rw [measuring.configFirst, decide_eq_false_iff_not]
  rintro ⟨rfl, before⟩
  exact lt_irrefl 399 before

/-- In the last cycle of a conversion that is followed by another one. -/
theorem Measuring.control_of_more (measuring : Measuring measureCh adcSdo k (lasts k) registers)
    {measureFifoNum : BitVec 12} (more : k < measureFifoNum.toNat) :
    registers.control measureFifoNum =
      { registers with
        measureStart := false
        measureCount := BitVec.ofNat 12 (k + 1)
        waitMeasureDone := false } := by
  obtain ⟨done, first⟩ := measuring.ended
  have fits : k < 2 ^ 12 := more.trans measureFifoNum.isLt
  have less : registers.measureCount < measureFifoNum := by
    rw [measuring.measureCount, BitVec.lt_def, BitVec.toNat_ofNat, Nat.mod_eq_of_lt fits]
    exact more
  rw [Registers.control_of_more measuring.waitMeasureDone done first less, measuring.measureCount,
    BitVec.ofNat_add]
  rfl

theorem not_lt_of_count (count : registers.measureCount = BitVec.ofNat 12 k)
    {measureFifoNum : BitVec 12} (last : measureFifoNum.toNat = k) :
    ¬ registers.measureCount < measureFifoNum := by
  rw [count, ← last, BitVec.ofNat_toNat, BitVec.setWidth_eq]
  exact BitVec.lt_irrefl _

section Cycle

variable (high : registers.adcResetN before.measureFifoStart = true)
  (quiet : ¬ Rises before.measureFifoStart input.measureFifoStart)

include high quiet

/-- An idle sequencer begins a conversion. -/
theorem measuring_of_idle (start : registers.measureStart = false)
    (waits : registers.waitMeasureDone = false) (done : registers.measureFifoDone = false)
    (count : registers.measureCount = BitVec.ofNat 12 k)
    (first : registers.configFirst = decide (k = 0)) (channel : input.measureFifoCh = measureCh) :
    Measuring measureCh adcSdo k 0 (registers.cycle before input) := by
  rw [Registers.cycle_of_quiet high quiet, Registers.control_of_idle start waits done]
  constructor
  · rfl
  · rfl
  · exact done
  · exact count
  · simp [first]
  · exact fun positive => absurd positive (lt_irrefl 0)
  · exact (AdcLtc2308.Registers.resetN_cycle _ _ _ _).mpr ⟨start, rfl⟩
  · rw [← channel]
    exact AdcLtc2308.converting_of_rises _ (Registers.port input _) _ ⟨start, rfl⟩

/-- While the sequencer waits the conversion goes on. -/
theorem converting_of_waits (waits : registers.waitMeasureDone = true)
    (converting : Converting measureCh adcSdo c registers.adc)
    (level : registers.adc.resetN registers.measureStart = decide (0 < c))
    (sdo : input.adcSdo = adcSdo (c + 1)) :
    Converting measureCh adcSdo (c + 1) (registers.cycle before input).adc := by
  have low := Registers.measureStart_control before.measureFifoNum waits
  rw [Registers.cycle_of_quiet high quiet]
  exact converting.next level (fun rises => absurd rises.2 (ne_true_of_eq_false low)) sdo

theorem level_of_waits (waits : registers.waitMeasureDone = true) :
    (registers.cycle before input).adc.resetN (registers.cycle before input).measureStart =
      true := by
  have low := Registers.measureStart_control before.measureFifoNum waits
  rw [Registers.cycle_of_quiet high quiet]
  refine eq_true_of_ne_false fun again => ?_
  have rises := (AdcLtc2308.Registers.resetN_cycle _ _ _ _).mp again
  exact absurd rises.2 (ne_true_of_eq_false low)

/-- A conversion goes on to its last cycle. -/
theorem Measuring.next (measuring : Measuring measureCh adcSdo k c registers)
    (continues : c < lasts k) (sdo : input.adcSdo = adcSdo (begins k + (c + 1))) :
    Measuring measureCh adcSdo k (c + 1) (registers.cycle before input) := by
  have control := measuring.control_of_lt before.measureFifoNum continues
  have waits := measuring.waitMeasureDone
  have converting := converting_of_waits high quiet waits measuring.converting measuring.level sdo
  have level := level_of_waits high quiet waits
  have done := measuring.converting.timed.measureDone
  rw [Registers.cycle_of_quiet high quiet, control] at converting level ⊢
  constructor
  · exact (decide_eq_false (Nat.succ_ne_zero c)).symm
  · exact measuring.waitMeasureDone
  · exact measuring.measureFifoDone
  · exact measuring.measureCount
  · rfl
  · intro _
    refine done.trans (decide_eq_decide.mpr ?_)
    omega
  · exact level.trans (decide_eq_true (Nat.succ_pos c)).symm
  · exact converting

/-- After it the sequencer pauses if more are asked for. -/
theorem Measuring.pausing (measuring : Measuring measureCh adcSdo k (lasts k) registers)
    (more : k < before.measureFifoNum.toNat) :
    Pausing (k + 1) (registers.cycle before input) := by
  obtain ⟨done, first⟩ := measuring.ended
  rw [Registers.cycle_of_quiet high quiet, measuring.control_of_more more]
  exact ⟨rfl, rfl, measuring.measureFifoDone, rfl, first, done⟩

/-- If no more are asked for the sequencer has finished. -/
theorem finished_of_converted (waits : registers.waitMeasureDone = true)
    (first : registers.configFirst = false) (count : registers.measureCount = BitVec.ofNat 12 k)
    (level : registers.adc.resetN registers.measureStart = decide (0 < c))
    (converting : Converting measureCh (fun c => adcSdo (begins k + c)) c registers.adc)
    (ended : lasts k ≤ c) (last : before.measureFifoNum.toNat = k)
    (sdo : input.adcSdo = adcSdo (begins k + (c + 1))) :
    Finished measureCh adcSdo k (c + 1) (registers.cycle before input) := by
  have done := converting.timed.measureDone.trans
    (decide_eq_true ((lasts_le k).1.trans ended))
  have control := Registers.control_of_last waits done first (not_lt_of_count count last)
  have continued := converting_of_waits high quiet waits converting level sdo
  rw [Registers.cycle_of_quiet high quiet, control] at continued ⊢
  exact ⟨rfl, waits, rfl, count, first, done, Nat.lt_succ_of_le ended, continued⟩

/-- And it stays so. -/
theorem Finished.next (finished : Finished measureCh adcSdo k c registers)
    (last : before.measureFifoNum.toNat = k) (sdo : input.adcSdo = adcSdo (begins k + (c + 1))) :
    Finished measureCh adcSdo k (c + 1) (registers.cycle before input) := by
  have level : registers.adc.resetN registers.measureStart = decide (0 < c) := by
    rw [finished.measureStart, decide_eq_true (Nat.zero_lt_of_lt finished.ended)]
    simp [AdcLtc2308.Registers.resetN]
  exact finished_of_converted high quiet finished.waitMeasureDone finished.configFirst
    finished.measureCount level finished.converting finished.ended.le last sdo

/-- While it waits for the controller the pins go on with the conversion. -/
theorem firstHalf_adc_of_waits (waits : registers.waitMeasureDone = true) :
    (registers.firstHalf before input).adc = registers.adc.posedge registers.measureStart := by
  rw [Registers.firstHalf_of_quiet high quiet]
  exact AdcLtc2308.Registers.firstHalf_of_not_rises fun rises =>
    absurd rises.2 (ne_true_of_eq_false (Registers.measureStart_control _ waits))

/-- Where a conversion begins there is no pulse of the clock. -/
theorem firstHalf_clkEnable_of_idle (start : registers.measureStart = false)
    (waits : registers.waitMeasureDone = false) (done : registers.measureFifoDone = false) :
    (registers.firstHalf before input).adc.clkEnable = false := by
  rw [Registers.firstHalf_of_quiet high quiet, Registers.control_of_idle start waits done]
  exact congrArg AdcLtc2308.Registers.clkEnable
    (AdcLtc2308.Registers.firstHalf_of_rises ⟨start, rfl⟩)

end Cycle

/-! ## The reset -/

/-- A rise resets the sequencer. -/
theorem resetting_of_rises (rises : Rises before.measureFifoStart input.measureFifoStart) :
    Resetting (registers.cycle before input) := by
  have low := (Registers.adcResetN_posedge before _ registers).mpr rises
  rw [Registers.cycle, Registers.firstHalf, Registers.settle, if_pos low]
  exact ⟨rfl, rfl, rfl, rfl, rfl⟩

/-- The next edge does so again. -/
theorem resetting_of_low (low : registers.adcResetN before.measureFifoStart = false)
    (quiet : ¬ Rises before.measureFifoStart input.measureFifoStart) :
    Resetting (registers.cycle before input) := by
  have kept : ¬ (registers.posedge before).adcResetN input.measureFifoStart = false :=
    fun low => quiet ((Registers.adcResetN_posedge _ _ _).mp low)
  rw [Registers.cycle, Registers.firstHalf, Registers.settle, if_neg kept, Registers.posedge,
    if_pos low]
  exact ⟨rfl, rfl, rfl, rfl, rfl⟩

/-! ## The words -/

/-- `fifo_wrreq` is high in the last cycle of the conversions that count. -/
theorem Measuring.fifoWrreq_iff (measuring : Measuring measureCh adcSdo k c registers)
    (bound : c ≤ lasts k) : registers.fifoWrreq = true ↔ 0 < k ∧ c = lasts k := by
  have complete := (lasts_le k).1
  rcases Nat.lt_or_ge c 398 with converts | converted
  · have done := measuring.converting.timed.measureDone.trans
      (decide_eq_false (not_le.mpr converts))
    simp only [Registers.fifoWrreq, done, Bool.and_false, Bool.false_and, Bool.false_eq_true,
      false_iff]
    omega
  · have done := measuring.converting.timed.measureDone.trans (decide_eq_true converted)
    rw [Registers.fifoWrreq, done, measuring.preMeasureDone (by omega), measuring.configFirst]
    cases k with
    | zero => simp
    | succ k =>
        have first : decide (k + 1 = 0 ∧ c < 399) = false := decide_eq_false (by omega)
        simp only [first, lasts, Bool.and_true, Bool.not_false, Bool.not_eq_true',
          decide_eq_false_iff_not] at bound ⊢
        omega

/-- Then the FIFO is given the word of the conversion. -/
theorem Measuring.readData_eq (measuring : Measuring measureCh adcSdo k c registers)
    (complete : 77 ≤ c) : registers.adc.readData = word adcSdo k := by
  have all : AdcLtc2308.received c = 12 := min_eq_right (by omega)
  apply Vector.ext
  intro i bound
  have bit := measuring.converting.received.readData (11 - i) (by omega)
  rw [all, decide_eq_true (by omega), Bool.true_and] at bit
  have index : 11 - (11 - i) = i := by omega
  simp only [index] at bit
  rw [bit, word, Vector.getElem_ofFn]
  exact congrArg adcSdo (Nat.add_assoc _ _ _).symm

theorem wordsOf_succ (adcSdo : ℕ → Bool) (n : ℕ) :
    wordsOf adcSdo (n + 1) = wordsOf adcSdo n ++ [word adcSdo (n + 1)] := by
  rw [wordsOf, List.range_succ, List.map_append]
  rfl

end AdcLtc2308Fifo
end FpgaRadar
