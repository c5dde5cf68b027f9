import FpgaRadar.AdcLtc2308.Reading

/-!
# Measurements from the request to the last word

The registers that the bus writes, the sequencer, the FIFO and the read port of `adc_ltc2308_fifo.v`
make up one component.  A program that asks for measurements, polls until they are done and reads
the words gets those of its own conversions, in their order.
-/

namespace FpgaRadar
namespace AdcLtc2308Fifo

open Vhdl

/-- The sequencer beside the port is controlled by the bus of the port.  Its cycle `t` ends between
edges `sample t - 1` and `sample t` of the bus. -/
structure Controlled (port : ReadPort) (control : ControlRegisters) (sample : ℕ → ℕ)
    (adcSdo unknown : ℕ → Bool) : Prop where
  inputs : port.inputs = sampled (controlProcess.run port.wave control) sample adcSdo unknown
  falls : ∀ t e, t < port.cycles e ↔ sample t ≤ e

/-- A program that has started the sequencer at edge `go` polls it and reads at edge `done` that the
measurements are over.  It reads no words until then, nor before edge `first`, by which an edge of
`adc_clk` and two more of the bus have passed. -/
structure Polls (port : ReadPort) (go done first : ℕ) : Prop where
  later : go ≤ done
  polls : (port.wave done).input.Reads readRegMeasureDone
  ended : (port.trace (done + 1)).slaveReaddata = 1#16
  waits : ∃ e, port.cycles done < port.cycles e ∧ e + 2 ≤ first
  unread : ∀ e, go ≤ e → e < first → port.readWave e = false

variable {port : ReadPort} {control : ControlRegisters} {sample : ℕ → ℕ} {adcSdo unknown : ℕ → Bool}
  {idle number go done first start horizon num : ℕ} {measureCh : BitVec 3}

namespace Controlled

variable (controlled : Controlled port control sample adcSdo unknown)

include controlled

theorem monotone : Monotone sample := by
  intro t u le
  have passed := (controlled.falls u (sample u)).mpr le_rfl
  exact (controlled.falls t (sample u)).mp (le.trans_lt passed)

theorem exists_later (e : ℕ) : ∃ t, e < sample t :=
  ⟨port.cycles e, lt_of_not_ge (mt (controlled.falls _ e).mpr (lt_irrefl _))⟩

/-- The cycle in which an edge of the bus falls. -/
theorem cycles_eq (before : sample start ≤ go) (after : go < sample (start + 1)) :
    port.cycles go = start + 1 := by
  have lower := (controlled.falls start go).mpr before
  have upper := mt (controlled.falls (start + 1) go).mp (not_le.mpr after)
  omega

end Controlled

namespace Polls

variable (polled : Polls port go done first)

include polled

theorem done_lt : done + 2 < first := by
  obtain ⟨e, passed, first_ge⟩ := polled.waits
  have later : done < e := lt_of_not_ge fun le => absurd (port.monotone le) (not_le.mpr passed)
  omega

/-- The measurements are over in the cycle of the last poll. -/
theorem measureFifoDone :
    (run port.inputs port.powerUp (port.cycles done)).measureFifoDone = true := by
  have shown := polled.ended
  rw [ReadPort.slaveReaddata_of_poll polled.polls] at shown
  cases ended : (run port.inputs port.powerUp (port.cycles done)).measureFifoDone with
  | true => rfl
  | false =>
      rw [ended] at shown
      contradiction

variable (request : Request port.inputs start horizon num measureCh)
  (begun : port.cycles go = start + 1)

include request begun

/-- All conversions of the request are over then. -/
theorem conversions_le (within : port.cycles done ≤ horizon) :
    start + 1 + (402 + 400 * num) ≤ port.cycles done := by
  have after := port.monotone polled.later
  obtain ⟨d, d_eq⟩ := Nat.exists_eq_add_of_le (begun ▸ after)
  have ended := polled.measureFifoDone
  rw [d_eq, (request.fifoWords_eq port.powerUp (by omega)).2] at ended
  omega

/-- The words that wait to be read. -/
theorem words_eq (within : port.cycles first ≤ horizon) :
    port.words first = (List.range num).map fun k => Vector.ofFn fun i =>
      (port.inputs (start + 1 + (begins (k + 1) + 66 + (11 - i)))).adcSdo := by
  have ordered := port.monotone (Nat.le_of_add_right_le polled.done_lt.le)
  have finished := polled.conversions_le request begun (ordered.trans within)
  obtain ⟨d, d_eq⟩ := Nat.exists_eq_add_of_le (Nat.le_of_add_right_le (finished.trans ordered))
  rw [ReadPort.words, d_eq, (request.fifoWords_eq port.powerUp (by omega)).1,
    min_eq_left (by omega)]

/-- None of them has been taken. -/
theorem taken_eq (small : num ≤ 2048) (within : port.cycles first ≤ horizon) :
    port.taken first = 0 := by
  have ordered : go ≤ first := polled.later.trans (Nat.le_of_add_right_le polled.done_lt.le)
  have after := port.monotone ordered
  have uncleared : port.Uncleared go first :=
    ReadPort.uncleared_of_request request (by omega) within
  have fits := ReadPort.fits_of_request request (e := first) (by omega) within small
  rw [ReadPort.taken_of_idle fits uncleared ordered polled.unread]
  exact ReadPort.taken_of_request request begun (by omega)

end Polls

/-- From the request to the last word.  Whatever the component was doing and however the edges of
its two clocks follow each other, provided that the sequencer sees the stop: a program that stops
it, writes a number of at most 2048 and a channel, starts it, polls until the measurements are done
and then reads gets the words of that many conversions of its own request in their order, and no
word more than there are. -/
theorem measure_and_read (port : ReadPort) (control : ControlRegisters) (sample : ℕ → ℕ)
    (adcSdo unknown : ℕ → Bool) (controlled : Controlled port control sample adcSdo unknown)
    (idle number go done : ℕ) (num : BitVec 12) (measureCh : BitVec 3)
    (asks : Asks port.wave idle number go num measureCh) (small : num.toNat ≤ 2048)
    (seen : ∃ t, idle < sample t ∧ sample t ≤ go) (first length : ℕ → ℕ) (n : ℕ)
    (polled : Polls port go done (first 0)) (accesses : port.Accesses first length n) :
    ∃ start, sample start ≤ go ∧ go < sample (start + 1) ∧
      (∀ k, k ≤ n → port.taken (first k) =
        min (∑ i ∈ Finset.range k, (length i - 1)) num.toNat) ∧
      ∀ k j, k < n → j = ∑ i ∈ Finset.range k, (length i - 1) → j < num.toNat →
        (port.trace (first k + 1)).slaveReaddata = busWord (Vector.ofFn fun i =>
          adcSdo (start + 1 + (begins (j + 1) + 66 + (11 - i)))) := by
  obtain ⟨start, before, after, requests⟩ := asks.request control controlled.monotone adcSdo unknown
    seen (controlled.exists_later go)
  have request := requests (port.cycles (first n))
  rw [← controlled.inputs] at request
  have begun := controlled.cycles_eq before after
  have ordered := accesses.first_le (Nat.zero_le n) le_rfl
  have within := port.monotone ordered
  have done_lt := polled.done_lt
  have started := port.monotone (polled.later.trans (show done ≤ first 0 by omega))
  have uncleared : port.Uncleared (first 0) (first n) :=
    ReadPort.uncleared_of_request request (by omega) le_rfl
  have fits := ReadPort.fits_of_request request (e := first n) (by omega) le_rfl small
  have settled : port.Settled (first 0) (first n) := by
    obtain ⟨e, passed, first_ge⟩ := polled.waits
    have finished := polled.conversions_le request begun
      ((port.monotone (show done ≤ first 0 by omega)).trans within)
    exact ReadPort.settled_of_request request finished passed first_ge le_rfl
  have words := polled.words_eq request begun within
  have untaken := polled.taken_eq request begun small within
  refine ⟨start, before, after, fun k k_le => ?_, fun k j less j_eq bound => ?_⟩
  · rw [accesses.taken_of_settled fits uncleared settled k_le, untaken, words, Nat.zero_add,
      List.length_map, List.length_range]
  · apply accesses.slaveReaddata_of_settled fits uncleared settled less
    rw [untaken, words, Nat.zero_add, ← j_eq, List.getElem?_map, List.getElem?_range bound,
      controlled.inputs]
    rfl

/-- Stop, ask for three measurements of channel 5, start, poll once and read three words. -/
def acquiringBus (e : ℕ) : Slave where
  chipselectN := decide (e ∉ [0, 1, 5, 1700] ∧ e < 1703)
  addr := if e = 1 ∨ 1703 ≤ e then 1 else 0
  readN := decide (e < 1700 ∨ e % 3 = 1)
  wrtieN := decide (6 ≤ e)
  wriredata := if e = 0 then 0#16 else if e = 1 then 3#16 else 11#16

/-- With one clock for both sides, and `ADC_SDO` high in every third cycle. -/
def acquiring : ReadPort :=
  oneClock (sampled (controlProcess.run (released acquiringBus) ⟨true, 0, 0⟩) id
    (fun t => decide (t % 3 = 0)) fun _ => false) (released acquiringBus)

theorem controlled_acquiring :
    Controlled acquiring ⟨true, 0, 0⟩ id (fun t => decide (t % 3 = 0)) fun _ => false where
  inputs := rfl
  falls _ _ := Nat.lt_succ_iff

theorem asks_acquiring : Asks acquiring.wave 0 1 5 3#12 5#3 where
  idle_lt := by norm_num
  number_lt := by norm_num
  quiet _ _ := ⟨rfl, rfl⟩
  stops := by decide
  asks := by decide
  starts := by decide
  start_kept t later other writes := by
    have before : ¬ 6 ≤ t := of_decide_eq_false writes.2.1
    have unselected := of_decide_eq_false writes.1
    have number : t ≠ 1 := by
      rintro rfl
      exact absurd writes (by decide)
    simp only [List.mem_cons, List.not_mem_nil, or_false] at unselected
    omega
  number_kept t later writes := by
    have before : ¬ 6 ≤ t := of_decide_eq_false writes.2.1
    have register : (if t = 1 ∨ 1703 ≤ t then (1 : BitVec 1) else 0) = _ := writes.2.2
    rw [if_neg (by omega)] at register
    contradiction

theorem readWave_acquiring (e : ℕ) : acquiring.readWave e = true ↔ 1703 ≤ e ∧ e % 3 ≠ 1 := by
  have register : (if e = 1 ∨ 1703 ≤ e then (1 : BitVec 1) else 0) = 1 ↔ e = 1 ∨ 1703 ≤ e := by
    split_ifs <;> simp_all
  simp only [ReadPort.readWave, acquiring, oneClock, released, Slave.slaveReadData, Slave.Reads,
    readRegAdcValue, decide_eq_true_iff, acquiringBus, register, decide_eq_false_iff_not]
  omega

theorem polls_acquiring : Polls acquiring 5 1700 1703 where
  later := by norm_num
  polls := by decide
  ended := by
    obtain ⟨start, before, after, requests⟩ := asks_acquiring.request ⟨true, 0, 0⟩ monotone_id
      (fun t => decide (t % 3 = 0)) (fun _ => false) ⟨3, by norm_num⟩ ⟨6, by norm_num⟩
    obtain rfl : start = 5 := le_antisymm before (Nat.lt_succ_iff.mp after)
    have finished : (run acquiring.inputs acquiring.powerUp 1701).measureFifoDone = true :=
      ((requests 1701).fifoWords_eq cleared (d := 1695) (by norm_num)).2.mpr (by decide)
    rw [ReadPort.slaveReaddata_of_poll (by decide)]
    exact congrArg (fun ended => (BitVec.ofBool ended).setWidth 16) finished
  waits := ⟨1701, by decide, by norm_num⟩
  unread e _ upper := eq_false_of_ne_true fun reads => by
    have := (readWave_acquiring e).mp reads
    omega

theorem accesses_acquiring : acquiring.Accesses (fun k => 1703 + 3 * k) (fun _ => 2) 3 where
  quiet _ _ _ := ⟨rfl, rfl⟩
  pulse k _ :=
    { nonempty := Nat.lt_add_of_pos_right two_pos
      high := fun e lower upper => (readWave_acquiring e).mpr (by omega)
      before := fun e edge => eq_false_of_ne_true fun reads => by
        have := (readWave_acquiring e).mp reads
        omega
      after := eq_false_of_ne_true fun reads => by
        have := (readWave_acquiring _).mp reads
        omega }
  ordered k _ := by omega
  between k e _ lower upper := eq_false_of_ne_true fun reads => by
    have := (readWave_acquiring e).mp reads
    omega

/-- The third read shows the third word. -/
theorem measure_and_read_three : (acquiring.trace 1710).slaveReaddata = 0x924#16 := by
  obtain ⟨start, before, after, _, shown⟩ := measure_and_read acquiring ⟨true, 0, 0⟩ id
    (fun t => decide (t % 3 = 0)) (fun _ => false) controlled_acquiring 0 1 5 1700 3#12 5#3
    asks_acquiring (by decide) ⟨3, by norm_num⟩ (fun k => 1703 + 3 * k) (fun _ => 2) 3
    polls_acquiring accesses_acquiring
  obtain rfl : start = 5 := le_antisymm before (Nat.lt_succ_iff.mp after)
  exact shown 2 2 (by norm_num) rfl (by decide)

end AdcLtc2308Fifo
end FpgaRadar
