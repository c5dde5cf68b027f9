import FpgaRadar.AdcLtc2308.Sequence

/-!
# What a sequence of measurements gives

The phases of a sequence follow one another at fixed cycles, so that the words which the FIFO is
given, the moment when the sequencer has finished and the pins of the converter can be read off the
cycles since the rise of `measure_fifo_start`.
-/

namespace FpgaRadar
namespace AdcLtc2308Fifo

open Vhdl
open AdcLtc2308 (Converting Rises)

/-- A request for `num` measurements of a channel: `measure_fifo_start` rises at edge `start`, does
not rise again before edge `last`, and the two other registers of the bus keep their values. -/
structure Request (inputs : ℕ → Inputs) (start last : ℕ) (num : ℕ) (measureCh : BitVec 3) :
    Prop where
  rises : RisesAt (measureFifoStartWave inputs) start
  alone : ∀ t, start < t → t < last → ¬ RisesAt (measureFifoStartWave inputs) t
  measureFifoNum : ∀ t, start < t → t < last → (inputs t).measureFifoNum.toNat = num
  measureFifoCh : ∀ t, start < t → t ≤ last → (inputs t).measureFifoCh = measureCh

/-- The phase `d` cycles after the rise, and the words that the FIFO has been given. -/
inductive Sequenced (measureCh : BitVec 3) (adcSdo : ℕ → Bool) (num : ℕ) :
    ℕ → Registers → List (Vector Bool 12) → Prop
  | resetting {d registers} (early : d ≤ 1) (phase : Resetting registers) :
      Sequenced measureCh adcSdo num d registers []
  | measuring {k c registers} (more : k ≤ num) (bound : c ≤ lasts k)
      (phase : Measuring measureCh adcSdo k c registers) :
      Sequenced measureCh adcSdo num (begins k + c) registers (wordsOf adcSdo (k - 1))
  | pausing {k registers} (more : k < num) (phase : Pausing (k + 1) registers) :
      Sequenced measureCh adcSdo num (begins k + (lasts k + 1)) registers (wordsOf adcSdo k)
  | finished {c registers} (phase : Finished measureCh adcSdo num c registers) :
      Sequenced measureCh adcSdo num (begins num + c) registers (wordsOf adcSdo num)

variable {inputs : ℕ → Inputs} {powerUp : Registers} {start last num d k c : ℕ}
  {measureCh : BitVec 3} {adcSdo : ℕ → Bool} {before input : Inputs} {registers : Registers}
  {words : List (Vector Bool 12)}

/-- The next conversion begins two cycles after the last one of the one before. -/
theorem begins_succ (k : ℕ) : begins (k + 1) = begins k + (lasts k + 2) := by
  cases k with
  | zero => rfl
  | succ k =>
      simp only [begins, lasts]
      omega

/-- What the write port adds to the words at the edge that ends a cycle. -/
def wordsAfter (registers : Registers) (words : List (Vector Bool 12)) : List (Vector Bool 12) :=
  if registers.fifoWrreq then words ++ [registers.adc.readData] else words

theorem wordsAfter_of_first (first : registers.configFirst = true)
    (words : List (Vector Bool 12)) : wordsAfter registers words = words := by
  simp [wordsAfter, Registers.fifoWrreq, first]

theorem wordsAfter_of_again (again : registers.preMeasureDone = true)
    (words : List (Vector Bool 12)) : wordsAfter registers words = words := by
  simp [wordsAfter, Registers.fifoWrreq, again]

theorem Measuring.wordsAfter_of_lt (measuring : Measuring measureCh adcSdo k c registers)
    (continues : c < lasts k) (words : List (Vector Bool 12)) :
    wordsAfter registers words = words := by
  rw [wordsAfter, if_neg]
  intro writes
  exact continues.ne ((measuring.fifoWrreq_iff continues.le).mp writes).2

/-- The last cycle of a conversion adds its word, if it counts. -/
theorem Measuring.wordsAfter_last (measuring : Measuring measureCh adcSdo k (lasts k) registers) :
    wordsAfter registers (wordsOf adcSdo (k - 1)) = wordsOf adcSdo k := by
  have writes := measuring.fifoWrreq_iff le_rfl
  cases k with
  | zero =>
      rw [wordsAfter, if_neg fun written => absurd (writes.mp written).1 (lt_irrefl 0)]
  | succ k =>
      have complete := (lasts_le (k + 1)).1
      rw [wordsAfter, if_pos (writes.mpr ⟨k.succ_pos, rfl⟩), measuring.readData_eq (by omega),
        wordsOf_succ]
      rfl

/-- A cycle takes each phase to the next one. -/
theorem Sequenced.next (sequenced : Sequenced measureCh adcSdo num d registers words)
    (high : registers.adcResetN before.measureFifoStart = true)
    (quiet : ¬ Rises before.measureFifoStart input.measureFifoStart) (later : 0 < d)
    (asked : before.measureFifoNum.toNat = num) (channel : input.measureFifoCh = measureCh)
    (sdo : input.adcSdo = adcSdo (d + 1)) :
    Sequenced measureCh adcSdo num (d + 1) (registers.cycle before input)
      (wordsAfter registers words) := by
  cases sequenced with
  | resetting early phase =>
      obtain rfl : d = 1 := by omega
      rw [wordsAfter_of_first phase.configFirst]
      have measuring : Measuring measureCh adcSdo 0 0 (registers.cycle before input) :=
        measuring_of_idle high quiet phase.measureStart phase.waitMeasureDone phase.measureFifoDone
          phase.measureCount phase.configFirst channel
      exact .measuring num.zero_le (Nat.zero_le _) measuring
  | @measuring k c _ more bound phase =>
      rcases bound.lt_or_eq with continues | rfl
      · rw [phase.wordsAfter_of_lt continues]
        exact .measuring more continues (phase.next high quiet continues sdo)
      rw [phase.wordsAfter_last]
      rcases more.lt_or_eq with more | rfl
      · exact .pausing more (phase.pausing high quiet (asked ▸ more))
      · obtain ⟨_, first⟩ := phase.ended
        exact .finished (finished_of_converted high quiet phase.waitMeasureDone first
          phase.measureCount phase.level phase.converting le_rfl asked sdo)
  | @pausing k _ more phase =>
      have index : begins k + (lasts k + 1) + 1 = begins (k + 1) + 0 := (begins_succ k).symm
      rw [wordsAfter_of_again phase.preMeasureDone, index]
      exact .measuring more (Nat.zero_le _) (measuring_of_idle high quiet phase.measureStart
        phase.waitMeasureDone phase.measureFifoDone phase.measureCount phase.configFirst channel)
  | finished phase =>
      rw [wordsAfter_of_again phase.preMeasureDone]
      exact .finished (phase.next high quiet asked sdo)

/-! ## The run -/

theorem adcResetN_run (inputs : ℕ → Inputs) (powerUp : Registers) (t : ℕ) :
    (run inputs powerUp (t + 1)).adcResetN (inputs (t + 1)).measureFifoStart = false ↔
      RisesAt (measureFifoStartWave inputs) t :=
  Registers.adcResetN_cycle _ _ _ _

theorem fifoWords_of_quiet {t : ℕ} (quiet : ¬ RisesAt (measureFifoStartWave inputs) t) :
    fifoWords inputs powerUp (t + 1) =
      wordsAfter (run inputs powerUp t) (fifoWords inputs powerUp t) :=
  if_neg fun low => quiet ((adcResetN_run _ _ _).mp low)

/-- The sequencer is reset in the first cycle of a request only. -/
theorem Request.adcResetN_eq (request : Request inputs start last num measureCh)
    (powerUp : Registers) (later : 0 < d) (within : start + 1 + d ≤ last) :
    (run inputs powerUp (start + 1 + d)).adcResetN (inputs (start + 1 + d)).measureFifoStart =
      true := by
  obtain ⟨d, rfl⟩ := Nat.exists_eq_add_of_lt later
  rw [Nat.zero_add] at within ⊢
  exact eq_true_of_ne_false fun low =>
    request.alone (start + 1 + d) (by omega) (by omega) ((adcResetN_run _ _ _).mp low)

/-- A request is worked off phase by phase. -/
theorem Request.sequenced (request : Request inputs start last num measureCh)
    (powerUp : Registers) (within : start + 1 + d ≤ last) :
    Sequenced measureCh (fun c => (inputs (start + 1 + c)).adcSdo) num d
      (run inputs powerUp (start + 1 + d)) (fifoWords inputs powerUp (start + 1 + d)) := by
  induction d with
  | zero =>
      have cleared : fifoWords inputs powerUp (start + 1) = [] :=
        if_pos ((adcResetN_run _ _ _).mpr request.rises)
      rw [Nat.add_zero, cleared]
      exact .resetting (Nat.zero_le 1) (resetting_of_rises request.rises)
  | succ d induction =>
      have sequenced := induction (by omega)
      have quiet : ¬ RisesAt (measureFifoStartWave inputs) (start + 1 + d) :=
        request.alone _ (by omega) (by omega)
      rw [← Nat.add_assoc, fifoWords_of_quiet quiet]
      cases d with
      | zero =>
          have resetting : Resetting (run inputs powerUp (start + 1)) :=
            resetting_of_rises request.rises
          have low := (adcResetN_run inputs powerUp start).mpr request.rises
          have cleared : fifoWords inputs powerUp (start + 1) = [] := if_pos low
          rw [Nat.add_zero, wordsAfter_of_first resetting.configFirst, cleared]
          exact .resetting le_rfl (resetting_of_low low quiet)
      | succ d =>
          have high := request.adcResetN_eq powerUp d.succ_pos (by omega)
          exact sequenced.next high quiet d.succ_pos
            (request.measureFifoNum _ (by omega) (by omega))
            (request.measureFifoCh _ (by omega) (by omega)) rfl

/-! ## What can be read off the phases -/

/-- The conversions of a sequence by the cycle after their last one. -/
theorem begins_add_lasts (k : ℕ) : begins k + (lasts k + 1) = 402 + 400 * k := by
  cases k with
  | zero => rfl
  | succ k =>
      simp only [begins, lasts]
      omega

theorem begins_of_pos (positive : 0 < k) : begins k = 3 + 400 * k := by
  obtain ⟨k, rfl⟩ := Nat.exists_eq_add_of_lt positive
  simp only [begins]
  omega

theorem begins_ge (k : ℕ) : 2 + 400 * k ≤ begins k := by
  cases k <;> simp only [begins] <;> omega

theorem Sequenced.words_eq (sequenced : Sequenced measureCh adcSdo num d registers words) :
    words = wordsOf adcSdo (min num ((d - 402) / 400)) := by
  cases sequenced with
  | resetting early _ =>
      have none : min num ((d - 402) / 400) = 0 := by omega
      rw [none]
      rfl
  | @measuring k c _ more bound _ =>
      congr 1
      have := begins_add_lasts k
      have := begins_ge k
      omega
  | @pausing k _ more _ =>
      rw [begins_add_lasts]
      congr 1
      omega
  | @finished c _ phase =>
      have := begins_add_lasts num
      have := phase.ended
      congr 1
      omega

theorem Sequenced.measureFifoDone_iff
    (sequenced : Sequenced measureCh adcSdo num d registers words) :
    registers.measureFifoDone = true ↔ 402 + 400 * num ≤ d := by
  cases sequenced with
  | resetting early phase =>
      simp only [phase.measureFifoDone, Bool.false_eq_true, false_iff]
      omega
  | @measuring k c _ more bound phase =>
      have := begins_add_lasts k
      simp only [phase.measureFifoDone, Bool.false_eq_true, false_iff]
      omega
  | @pausing k _ more phase =>
      simp only [phase.measureFifoDone, Bool.false_eq_true, false_iff, begins_add_lasts]
      omega
  | @finished c _ phase =>
      have := begins_add_lasts num
      have := phase.ended
      simp only [phase.measureFifoDone, true_iff]
      omega

/-- In the cycles of a conversion it is going on. -/
theorem Sequenced.measuring_of_eq
    (sequenced : Sequenced measureCh adcSdo num d registers words) (more : k ≤ num)
    (bound : c ≤ lasts k) (d_eq : d = begins k + c) :
    Measuring measureCh adcSdo k c registers := by
  have upper := begins_add_lasts k
  have lower := begins_ge k
  cases sequenced with
  | resetting early _ => omega
  | @measuring k' c' _ more' bound' phase =>
      have upper' := begins_add_lasts k'
      have lower' := begins_ge k'
      obtain rfl : k' = k := by omega
      obtain rfl : c' = c := by omega
      exact phase
  | @pausing k' _ more' _ =>
      rw [begins_add_lasts] at d_eq
      have later := begins_of_pos (k := k)
      omega
  | @finished c' _ phase =>
      have := begins_add_lasts num
      have := phase.ended
      omega

/-- The clock of the converter has twelve pulses in each conversion. -/
theorem Sequenced.adcSck_cases (sequenced : Sequenced measureCh adcSdo num d registers words)
    (high : registers.adcResetN before.measureFifoStart = true)
    (quiet : ¬ Rises before.measureFifoStart input.measureFifoStart) (later : 0 < d)
    (pulse : (registers.firstHalf before input).adc.clkEnable = true) :
    ∃ k j, k ≤ num ∧ j < 12 ∧ d + 1 = begins k + 66 + j := by
  cases sequenced with
  | resetting early phase =>
      rw [firstHalf_clkEnable_of_idle high quiet phase.measureStart phase.waitMeasureDone
        phase.measureFifoDone] at pulse
      contradiction
  | @measuring k c _ more bound phase =>
      rw [firstHalf_adc_of_waits high quiet phase.waitMeasureDone] at pulse
      have enabled := phase.converting.timed.clkEnable.symm.trans pulse
      rw [decide_eq_true_iff] at enabled
      exact ⟨k, c - 65, more, by omega, by omega⟩
  | pausing more phase =>
      rw [firstHalf_clkEnable_of_idle high quiet phase.measureStart phase.waitMeasureDone
        phase.measureFifoDone] at pulse
      contradiction
  | @finished c _ phase =>
      rw [firstHalf_adc_of_waits high quiet phase.waitMeasureDone] at pulse
      have enabled := phase.converting.timed.clkEnable.symm.trans pulse
      rw [decide_eq_true_iff] at enabled
      have := (lasts_le num).1.trans_lt phase.ended
      omega

/-! ## The results -/

/-- The FIFO is given the words of the conversions `1`, ..., `num`, each of them in the cycle after
its conversion, and no other word. -/
theorem Request.fifoWords_eq (request : Request inputs start last num measureCh)
    (powerUp : Registers) (within : start + 1 + d ≤ last) :
    fifoWords inputs powerUp (start + 1 + d) =
      ((List.range (min num ((d - 402) / 400))).map fun k => Vector.ofFn fun i =>
        (inputs (start + 1 + (begins (k + 1) + 66 + (11 - i)))).adcSdo) ∧
    ((run inputs powerUp (start + 1 + d)).measureFifoDone = true ↔ 402 + 400 * num ≤ d) :=
  ⟨(request.sequenced powerUp within).words_eq,
    (request.sequenced powerUp within).measureFifoDone_iff⟩

/-- The pins of a request.  The clock of the converter has twelve pulses in each of the conversions
`0`, ..., `num` and no others, once the conversion that the request has interrupted is over, and at
these pulses the command of the channel, and zeros after it, are on `ADC_SDI`. -/
theorem measure_fifo_pins (inputs : ℕ → Inputs) (powerUp : Registers) (start last num : ℕ)
    (measureCh : BitVec 3) (request : Request inputs start last num measureCh) :
    (∀ k j, k ≤ num → j < 12 → start + 1 + (begins k + 66 + j) ≤ last →
      adcSck inputs powerUp (start + 1 + (begins k + 66 + j)) = true ∧
      adcSdi inputs powerUp (start + 1 + (begins k + 66 + j)) =
        [true, measureCh.getLsbD 0, measureCh.getLsbD 2, measureCh.getLsbD 1, true,
          false].getD j false) ∧
    ∀ d, 2 ≤ d → start + 1 + d ≤ last → adcSck inputs powerUp (start + 1 + d) = true →
      ∃ k j, k ≤ num ∧ j < 12 ∧ d = begins k + 66 + j := by
  constructor
  · intro k j more bound within
    have later := begins_ge k
    have complete := (lasts_le k).1
    have phase := (request.sequenced powerUp (d := begins k + (65 + j)) (by omega)).measuring_of_eq
      more (by omega) rfl
    have high := request.adcResetN_eq powerUp (d := begins k + (65 + j)) (by omega) (by omega)
    have quiet : ¬ RisesAt (measureFifoStartWave inputs) (start + 1 + (begins k + (65 + j))) :=
      request.alone _ (by omega) (by omega)
    have pins := firstHalf_adc_of_waits high quiet phase.waitMeasureDone
    have cycle : start + 1 + (begins k + 66 + j) = start + 1 + (begins k + (65 + j)) + 1 := by
      omega
    rw [adcSck, adcSdi, cycle, firstHalf, pins]
    refine ⟨phase.converting.timed.clkEnable.trans (decide_eq_true (by omega)), ?_⟩
    exact phase.converting.sent.adcSdi_pulse
  · intro d later within pulse
    obtain ⟨d, rfl⟩ := Nat.exists_eq_add_of_le' (Nat.one_le_of_lt later)
    have quiet : ¬ RisesAt (measureFifoStartWave inputs) (start + 1 + d) :=
      request.alone _ (by omega) (by omega)
    exact (request.sequenced powerUp (by omega)).adcSck_cases
      (request.adcResetN_eq powerUp (by omega) (by omega)) quiet (by omega) pulse

/-- Three measurements of channel 5, with `ADC_SDO` high in every third cycle. -/
def threeMeasurements (t : ℕ) : Inputs where
  measureFifoStart := decide (1 ≤ t)
  measureFifoNum := 3#12
  measureFifoCh := 5#3
  adcSdo := decide (t % 3 = 0)
  unknown := false

theorem request_threeMeasurements (last : ℕ) : Request threeMeasurements 0 last 3 5#3 where
  rises := ⟨rfl, rfl⟩
  alone t later _ rises := by
    have low := rises.1
    simp only [measureFifoStartWave, threeMeasurements, decide_eq_false_iff_not] at low
    exact low later
  measureFifoNum _ _ _ := rfl
  measureFifoCh _ _ _ := rfl

/-- The first pulse of the second conversion. -/
theorem measure_fifo_pins_three :
    adcSck threeMeasurements cleared 470 = true ∧ adcSdi threeMeasurements cleared 470 = true :=
  (measure_fifo_pins threeMeasurements cleared 0 1603 3 5#3 (request_threeMeasurements 1603)).1
    1 0 (by norm_num) (by norm_num) (by norm_num [begins])

end AdcLtc2308Fifo
end FpgaRadar
