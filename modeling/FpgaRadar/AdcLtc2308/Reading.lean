import FpgaRadar.AdcLtc2308.DataFifo
import FpgaRadar.AdcLtc2308.Slave
import Mathlib.Algebra.BigOperators.Group.Finset.Basic

/-!
# Reading the words over the bus

This file embeds the processes of `adc_ltc2308_fifo.v` on `slave_clk` that answer the reads of the
bus, with the FIFO between them and the sequencer.  The edges of the two clocks may follow each
other in any order.
-/

namespace FpgaRadar
namespace AdcLtc2308Fifo

open Vhdl
open AdcDataFifo (Dcfifo Queue Represents)

/-- What the processes on `slave_clk` assign when the bus reads, and the instance
`adc_data_fifo_inst`. -/
structure ReadRegisters where
  /-- `slave_read_data` at the last edge. -/
  preSlaveReadData : Bool
  /-- `slave_readdata`. -/
  slaveReaddata : BitVec 16
  /-- The FIFO. -/
  fifo : Dcfifo (Vector Bool 12)

/-- `fifo_rdreq` at an edge of `slave_clk`. -/
def fifoRdreq (period : Period Slave) (registers : ReadRegisters) : Bool :=
  registers.preSlaveReadData && !period.resetPulse && period.rstN && period.input.slaveReadData

/-- A word of the FIFO on the sixteen lines of the bus. -/
def busWord (word : Vector Bool 12) : BitVec 16 := (BitVec.ofBoolListLE word.toList).setWidth 16

/-- One edge of `slave_clk`, which is also `rdclk`. -/
def readEdge (measureFifoDone : Bool) (period : Period Slave) (registers : ReadRegisters) :
    ReadRegisters where
  preSlaveReadData := period.rstN && period.input.slaveReadData
  slaveReaddata :=
    if period.input.slaveReadStatus then (BitVec.ofBool measureFifoDone).setWidth 16
    else if period.input.slaveReadData then busWord registers.fifo.q
    else registers.slaveReaddata
  fifo := registers.fifo.rdclk (fifoRdreq period registers)

/-- The edge of `adc_clk` that ends cycle `t`, which is also `wrclk`, and `aclr` after it. -/
def writeCycle (inputs : ℕ → Inputs) (powerUp : Registers) (t : ℕ)
    (fifo : Dcfifo (Vector Bool 12)) : Dcfifo (Vector Bool 12) :=
  let written := fifo.wrclk (run inputs powerUp t).fifoWrreq (run inputs powerUp t).adc.readData
  if (run inputs powerUp (t + 1)).adcResetN (inputs (t + 1)).measureFifoStart = false then
    written.aclr
  else written

/-- The state after `n` steps, the first of which happens at time `c`. -/
def steps {σ : Type*} (step : ℕ → σ → σ) (c : ℕ) (state : σ) : ℕ → σ
  | 0 => state
  | n + 1 => step (c + n) (steps step c state n)

/-- A run of the read port beside a run of the sequencer. -/
structure ReadPort where
  /-- The input ports of the sequencer. -/
  inputs : ℕ → Inputs
  /-- The sequencer's registers at the end of cycle `0`. -/
  powerUp : Registers
  /-- The cycle of the sequencer in which an edge of the bus falls. -/
  cycles : ℕ → ℕ
  /-- The bus. -/
  wave : ℕ → Period Slave
  /-- The registers of the port and the FIFO in cycle `0`. -/
  registers : ReadRegisters
  /-- Time goes on. -/
  monotone : Monotone cycles
  /-- No read is under way at first. -/
  fresh : registers.preSlaveReadData = false
  /-- And the pointers of the FIFO are zero. -/
  cleared : registers.fifo.aclr = registers.fifo

namespace ReadPort

variable (port : ReadPort)

/-- The registers right before an edge of the bus. -/
def trace : ℕ → ReadRegisters
  | 0 =>
      { port.registers with
        fifo := steps (writeCycle port.inputs port.powerUp) 0 port.registers.fifo (port.cycles 0) }
  | e + 1 =>
      let assigned := readEdge (run port.inputs port.powerUp (port.cycles e)).measureFifoDone
        (port.wave e) (trace e)
      { assigned with
        fifo := steps (writeCycle port.inputs port.powerUp) (port.cycles e) assigned.fifo
          (port.cycles (e + 1) - port.cycles e) }

/-- `slave_read_data`, period by period. -/
def readWave (e : ℕ) : Bool := (port.wave e).input.slaveReadData

/-- `rdempty`, period by period. -/
def rdempty (e : ℕ) : Bool := (port.trace e).fifo.intRdempty

/-- The words that the write port has been given since the FIFO was cleared. -/
def words (e : ℕ) : List (Vector Bool 12) := fifoWords port.inputs port.powerUp (port.cycles e)

/-- The FIFO has had room for all of them, even if none has been taken. -/
def Fits (e : ℕ) : Prop := (port.words e).length ≤ 2048

/-- The number of words that have been taken since then. -/
def taken (e : ℕ) : ℕ := (port.trace e).fifo.rdptr.toNat

/-- The FIFO is not cleared between two edges. -/
def Uncleared (first last : ℕ) : Prop :=
  ∀ t, port.cycles first ≤ t → t < port.cycles last →
    (run port.inputs port.powerUp (t + 1)).adcResetN (port.inputs (t + 1)).measureFifoStart = true

/-- No word is written up to edge `last`, since a cycle of `adc_clk` that was over two edges of the
bus before edge `first`. -/
def Settled (first last : ℕ) : Prop :=
  ∃ c e, c < port.cycles e ∧ e + 2 ≤ first ∧ ∀ t, c ≤ t → t < port.cycles last →
    (run port.inputs port.powerUp t).fifoWrreq = false

/-- Reads of the bus: the `k`-th of them lasts `length k` periods from period `first k` on, and they
are over before edge `first n`. -/
structure Accesses (first length : ℕ → ℕ) (n : ℕ) : Prop where
  quiet : Quiet port.wave (first 0) (first n)
  pulse : ∀ k, k < n → Pulse port.readWave (first k) (first k + length k)
  ordered : ∀ k, k < n → first k + length k ≤ first (k + 1)
  between : ∀ k e, k < n → first k + length k ≤ e → e < first (k + 1) → port.readWave e = false

/-! ## The queue -/

/-- What the edge of `adc_clk` that ends cycle `t` does to the queue. -/
def queueCycle (t : ℕ) (queue : Queue (Vector Bool 12)) : Queue (Vector Bool 12) :=
  if (run port.inputs port.powerUp (t + 1)).adcResetN (port.inputs (t + 1)).measureFifoStart = false
  then Queue.empty
  else queue.wrclk (run port.inputs port.powerUp t).fifoWrreq
    (run port.inputs port.powerUp t).adc.readData

/-- The queue that the FIFO represents. -/
def queue : ℕ → Queue (Vector Bool 12)
  | 0 => steps port.queueCycle 0 Queue.empty (port.cycles 0)
  | e + 1 => steps port.queueCycle (port.cycles e)
      ((queue e).rdclk (fifoRdreq (port.wave e) (port.trace e)))
      (port.cycles (e + 1) - port.cycles e)

end ReadPort

/-- Steps keep what each of them keeps. -/
theorem steps_induction {σ : Type*} {step : ℕ → σ → σ} {c : ℕ} {state : σ} {n : ℕ}
    (holds : ℕ → σ → Prop) (initial : holds c state)
    (kept : ∀ i, i < n → ∀ state, holds (c + i) state → holds (c + i + 1) (step (c + i) state)) :
    holds (c + n) (steps step c state n) := by
  induction n with
  | zero => exact initial
  | succ n induction =>
      exact kept n n.lt_succ_self _ (induction fun i less => kept i (less.trans n.lt_succ_self))

namespace ReadPort

variable {port : ReadPort} {first last e k n t : ℕ} {queue : Queue (Vector Bool 12)}
  {fifo : Dcfifo (Vector Bool 12)}

theorem represents_writeCycle (represents : Represents fifo queue) (t : ℕ) :
    Represents (writeCycle port.inputs port.powerUp t fifo) (port.queueCycle t queue) := by
  rw [writeCycle, queueCycle]
  split_ifs
  · exact Represents.aclr _
  · exact represents.wrclk _ _

theorem represents_steps (represents : Represents fifo queue) (c n : ℕ) :
    Represents (steps (writeCycle port.inputs port.powerUp) c fifo n)
      (steps port.queueCycle c queue n) := by
  induction n with
  | zero => exact represents
  | succ n induction => exact represents_writeCycle induction (c + n)

/-- The FIFO runs as the queue does. -/
theorem represents_trace (port : ReadPort) (e : ℕ) :
    Represents (port.trace e).fifo (port.queue e) := by
  induction e with
  | zero =>
      refine represents_steps ?_ 0 (port.cycles 0)
      rw [← port.cleared]
      exact Represents.aclr _
  | succ e induction => exact represents_steps (induction.rdclk _) _ _

theorem cycles_succ (port : ReadPort) (e : ℕ) :
    port.cycles e + (port.cycles (e + 1) - port.cycles e) = port.cycles (e + 1) :=
  Nat.add_sub_cancel' (port.monotone e.le_succ)

/-! ## What is in the queue -/

/-- Without a reset words are only added. -/
theorem length_fifoWords_le (high : (run port.inputs port.powerUp (t + 1)).adcResetN
      (port.inputs (t + 1)).measureFifoStart = true) :
    (fifoWords port.inputs port.powerUp t).length ≤
      (fifoWords port.inputs port.powerUp (t + 1)).length := by
  rw [fifoWords, if_neg (ne_false_of_eq_true high)]
  split_ifs
  · rw [List.length_append]
    exact Nat.le_add_right _ _
  · exact le_rfl

/-- The queue holds what the write port has been given in cycle `t`, if there has been room. -/
def Filled (port : ReadPort) (t : ℕ) (queue : Queue (Vector Bool 12)) : Prop :=
  (fifoWords port.inputs port.powerUp t).length ≤ 2048 →
    queue.written = fifoWords port.inputs port.powerUp t

theorem Filled.queueCycle (filled : port.Filled t queue) :
    port.Filled (t + 1) (port.queueCycle t queue) := by
  intro fits
  by_cases high : (run port.inputs port.powerUp (t + 1)).adcResetN
      (port.inputs (t + 1)).measureFifoStart = true
  · have same := filled ((length_fifoWords_le high).trans fits)
    rw [fifoWords, if_neg (ne_false_of_eq_true high)] at fits ⊢
    rw [ReadPort.queueCycle, if_neg (ne_false_of_eq_true high), Queue.wrclk]
    by_cases writes : (run port.inputs port.powerUp t).fifoWrreq = true
    · rw [if_pos writes] at fits ⊢
      rw [List.length_append, List.length_singleton, ← same] at fits
      rw [dif_pos ⟨writes, by omega⟩, ← same]
      rfl
    · rw [if_neg writes, dif_neg fun asked => writes asked.1]
      exact same
  · have low := eq_false_of_ne_true high
    rw [ReadPort.queueCycle, if_pos low, fifoWords, if_pos low]
    rfl

theorem filled_queue (port : ReadPort) (e : ℕ) : port.Filled (port.cycles e) (port.queue e) := by
  induction e with
  | zero =>
      have filled : port.Filled (0 + port.cycles 0) (port.queue 0) :=
        steps_induction port.Filled (fun _ => rfl) fun _ _ _ => Filled.queueCycle
      rwa [Nat.zero_add] at filled
  | succ e induction =>
      have filled : port.Filled (port.cycles e + (port.cycles (e + 1) - port.cycles e))
          (port.queue (e + 1)) :=
        steps_induction port.Filled induction fun _ _ _ => Filled.queueCycle
      rwa [cycles_succ] at filled

theorem queue_written (fits : port.Fits e) : (port.queue e).written = port.words e :=
  port.filled_queue e fits

/-- The read side is not changed by the write side. -/
theorem queueCycle_kept (high : (run port.inputs port.powerUp (t + 1)).adcResetN
      (port.inputs (t + 1)).measureFifoStart = true) (queue : Queue (Vector Bool 12)) :
    (port.queueCycle t queue).taken = queue.taken ∧
      (port.queueCycle t queue).known = queue.known := by
  rw [queueCycle, if_neg (ne_false_of_eq_true high), Queue.wrclk]
  split_ifs <;> exact ⟨rfl, rfl⟩

theorem Uncleared.mono {first' last' : ℕ} (uncleared : port.Uncleared first last)
    (lower : first ≤ first') (upper : last' ≤ last) : port.Uncleared first' last' :=
  fun t after before => uncleared t ((port.monotone lower).trans after)
    (before.trans_le (port.monotone upper))

theorem queue_succ (uncleared : port.Uncleared e (e + 1)) :
    (port.queue (e + 1)).taken =
        ((port.queue e).rdclk (fifoRdreq (port.wave e) (port.trace e))).taken ∧
      (port.queue (e + 1)).known =
        ((port.queue e).rdclk (fifoRdreq (port.wave e) (port.trace e))).known := by
  refine steps_induction (fun _ (queue : Queue (Vector Bool 12)) =>
    queue.taken = ((port.queue e).rdclk (fifoRdreq (port.wave e) (port.trace e))).taken ∧
      queue.known = ((port.queue e).rdclk (fifoRdreq (port.wave e) (port.trace e))).known)
    ⟨rfl, rfl⟩ fun i less queue same => ?_
  have high := uncleared (port.cycles e + i) (Nat.le_add_right _ _)
    (by have := port.cycles_succ e; omega)
  exact ⟨(queueCycle_kept high queue).1.trans same.1, (queueCycle_kept high queue).2.trans same.2⟩

/-! ## One edge -/

theorem Fits.mono (fits : port.Fits last) (uncleared : port.Uncleared first last)
    (lower : first ≤ e) (upper : e ≤ last) : port.Fits e := by
  have grown : ∀ t, port.cycles e ≤ t → t ≤ port.cycles last →
      (port.words e).length ≤ (fifoWords port.inputs port.powerUp t).length := by
    intro t after
    induction t, after using Nat.le_induction with
    | base => exact fun _ => le_rfl
    | succ t after induction =>
        intro before
        exact (induction (Nat.le_of_succ_le before)).trans
          (length_fifoWords_le (uncleared t ((port.monotone lower).trans after) before))
  exact (grown _ (port.monotone upper) le_rfl).trans fits

theorem queue_taken_le (fits : port.Fits e) :
    (port.queue e).known ≤ (port.words e).length ∧ (port.words e).length ≤ 2048 := by
  have := (port.queue e).known_le
  have := (port.queue e).arriving_le
  have announced_le := (port.queue e).announced_le
  rw [queue_written fits] at announced_le
  exact ⟨by omega, fits⟩

theorem taken_eq (fits : port.Fits e) : port.taken e = (port.queue e).taken := by
  have := (port.queue e).taken_le
  have := queue_taken_le fits
  rw [taken, (port.represents_trace e).rdptr, BitVec.toNat_ofNat]
  omega

theorem rdempty_eq_false_iff (port : ReadPort) (e : ℕ) :
    port.rdempty e = false ↔ (port.queue e).taken < (port.queue e).known := by
  have := (port.queue e).taken_le
  rw [rdempty, ← Bool.not_eq_true, (port.represents_trace e).intRdempty_iff]
  omega

/-- A word is taken at an edge with a request if the read side knows of one. -/
theorem taken_succ (fits : port.Fits (e + 1)) (uncleared : port.Uncleared e (e + 1)) :
    port.taken (e + 1) =
      if fifoRdreq (port.wave e) (port.trace e) = true ∧ port.rdempty e = false then
        port.taken e + 1
      else port.taken e := by
  rw [taken_eq fits, taken_eq (fits.mono uncleared le_rfl e.le_succ), (queue_succ uncleared).1]
  exact if_congr (and_congr_right fun _ => (rdempty_eq_false_iff port e).symm) rfl rfl

/-- A poll shows whether the measurements are over. -/
theorem slaveReaddata_of_poll (polls : (port.wave e).input.Reads readRegMeasureDone) :
    (port.trace (e + 1)).slaveReaddata =
      (BitVec.ofBool (run port.inputs port.powerUp (port.cycles e)).measureFifoDone).setWidth 16 :=
  if_pos (decide_eq_true polls)

/-- A read shows the first word that has not been taken. -/
theorem slaveReaddata_eq (fits : port.Fits e) (reads : port.readWave e = true)
    (holds : port.rdempty e = false) :
    ∃ word, (port.words e)[port.taken e]? = some word ∧
      (port.trace (e + 1)).slaveReaddata = busWord word := by
  have data := of_decide_eq_true reads
  have other : (port.wave e).input.slaveReadStatus = false := by
    refine decide_eq_false fun status => ?_
    have same : readRegAdcValue = readRegMeasureDone := data.2.2.symm.trans status.2.2
    contradiction
  have known := (rdempty_eq_false_iff port e).mp holds
  have written := queue_written fits
  have bound : (port.queue e).taken < (port.queue e).written.length := by
    rw [written]
    exact known.trans_le (queue_taken_le fits).1
  refine ⟨(port.queue e).written[(port.queue e).taken], ?_, ?_⟩
  · rw [taken_eq fits, ← written]
    exact List.getElem?_eq_getElem bound
  · have shown : (port.trace (e + 1)).slaveReaddata = (readEdge _ _ (port.trace e)).slaveReaddata :=
      rfl
    rw [shown, readEdge, other, ← (port.represents_trace e).q_eq bound]
    exact if_pos reads

theorem fifoRdreq_of_idle (idle : port.readWave e = false) :
    fifoRdreq (port.wave e) (port.trace e) = false := by
  have released : (port.wave e).input.slaveReadData = false := idle
  rw [fifoRdreq, released, Bool.and_false]

/-- No word is requested in the first period of a read. -/
theorem fifoRdreq_of_before (before : ∀ u, u + 1 = e → port.readWave u = false) :
    fifoRdreq (port.wave e) (port.trace e) = false := by
  have waited : (port.trace e).preSlaveReadData = false := by
    cases e with
    | zero => exact port.fresh
    | succ u =>
        have released : (port.wave u).input.slaveReadData = false := before u rfl
        change ((port.wave u).rstN && _) = false
        rw [released, Bool.and_false]
  rw [fifoRdreq, waited]
  rfl

/-- One is requested in each other period. -/
theorem fifoRdreq_of_again (quiet : Quiet port.wave e (e + 2)) (reads : port.readWave e = true)
    (again : port.readWave (e + 1) = true) :
    fifoRdreq (port.wave (e + 1)) (port.trace (e + 1)) = true := by
  have earlier := quiet e le_rfl (by omega)
  have now := quiet (e + 1) e.le_succ (by omega)
  have asked : (port.wave e).input.slaveReadData = true := reads
  have asks : (port.wave (e + 1)).input.slaveReadData = true := again
  have waited : (port.trace (e + 1)).preSlaveReadData = true := by
    change ((port.wave e).rstN && _) = true
    rw [earlier.2, asked]
    rfl
  rw [fifoRdreq, waited, now.1, now.2, asks]
  rfl

/-! ## One read -/

/-- Nothing is taken while the bus does not read. -/
theorem taken_of_idle (fits : port.Fits last) (uncleared : port.Uncleared first last)
    (le : first ≤ last) (idle : ∀ e, first ≤ e → e < last → port.readWave e = false) :
    port.taken last = port.taken first := by
  induction last, le using Nat.le_induction with
  | base => rfl
  | succ e le induction =>
      rw [taken_succ fits (uncleared.mono le le_rfl), fifoRdreq_of_idle (idle e le e.lt_succ_self),
        if_neg fun request => Bool.false_ne_true request.1]
      exact induction (fits.mono uncleared le e.le_succ) (uncleared.mono le_rfl e.le_succ)
        fun u lower upper => idle u lower (upper.trans e.lt_succ_self)

/-- In a read each period after the first one takes a word if there is one. -/
theorem taken_of_read {length i : ℕ} (fits : port.Fits (first + 1 + i))
    (uncleared : port.Uncleared first (first + 1 + i))
    (quiet : Quiet port.wave first (first + length))
    (pulse : Pulse port.readWave first (first + length)) (bound : i < length) :
    port.taken (first + 1 + i) = port.taken first +
      ∑ j ∈ Finset.range i, (!port.rdempty (first + 1 + j)).toNat := by
  induction i with
  | zero =>
      rw [Finset.sum_range_zero, Nat.add_zero, taken_succ fits uncleared,
        fifoRdreq_of_before pulse.before, if_neg fun request => Bool.false_ne_true request.1]
      rfl
  | succ i induction =>
      have before := induction (fits.mono uncleared (by omega) (Nat.le_succ _))
        (uncleared.mono le_rfl (Nat.le_succ _)) (Nat.lt_of_succ_lt bound)
      have request : fifoRdreq (port.wave (first + 1 + i)) (port.trace (first + 1 + i)) = true := by
        rw [Nat.add_right_comm]
        exact fifoRdreq_of_again (quiet.mono ⟨Nat.le_add_right _ _, by omega⟩)
          (pulse.high _ (Nat.le_add_right _ _) (by omega)) (pulse.high _ (by omega) (by omega))
      rw [Finset.sum_range_succ, ← Nat.add_assoc (port.taken first), ← before,
        ← Nat.add_assoc (first + 1), taken_succ (e := first + 1 + i) fits
          (uncleared.mono (by omega) le_rfl), request]
      cases port.rdempty (first + 1 + i) <;> rfl

/-! ## After the last write -/

theorem queueCycle_of_idle (idle : (run port.inputs port.powerUp t).fifoWrreq = false)
    (queue : Queue (Vector Bool 12)) :
    port.queueCycle t queue = Queue.empty ∨ port.queueCycle t queue = queue.pass := by
  rw [queueCycle, Queue.wrclk, idle]
  split_ifs with reset refused
  · exact Or.inl rfl
  · exact refused.1.elim
  · exact Or.inr rfl

/-- An edge without a write announces all words. -/
theorem queueCycle_announced (idle : (run port.inputs port.powerUp t).fifoWrreq = false)
    (queue : Queue (Vector Bool 12)) :
    (port.queueCycle t queue).announced = (port.queueCycle t queue).written.length := by
  rcases queueCycle_of_idle idle queue with cleared | passed
  · rw [cleared]
    rfl
  · rw [passed]
    rfl

/-- And it keeps what is known of them. -/
theorem queueCycle_informed (idle : (run port.inputs port.powerUp t).fifoWrreq = false)
    (queue : Queue (Vector Bool 12)) :
    (queue.arriving = queue.written.length →
      (port.queueCycle t queue).arriving = (port.queueCycle t queue).written.length) ∧
    (queue.known = queue.written.length →
      (port.queueCycle t queue).known = (port.queueCycle t queue).written.length) := by
  rcases queueCycle_of_idle idle queue with cleared | passed
  · rw [cleared]
    exact ⟨fun _ => rfl, fun _ => rfl⟩
  · rw [passed]
    exact ⟨id, id⟩

section Idle

variable {c : ℕ}

theorem queue_announced (idle : ∀ t, c ≤ t → t < port.cycles e →
      (run port.inputs port.powerUp t).fifoWrreq = false) (later : c < port.cycles e) :
    (port.queue e).announced = (port.queue e).written.length := by
  induction e with
  | zero =>
      obtain ⟨n, n_eq⟩ := Nat.exists_eq_succ_of_ne_zero (Nat.ne_zero_of_lt later)
      rw [queue, n_eq]
      exact queueCycle_announced (idle _ (by omega) (by omega)) _
  | succ e induction =>
      have passed := port.cycles_succ e
      cases span : port.cycles (e + 1) - port.cycles e with
      | zero =>
          rw [queue, span]
          exact induction (fun t lower upper => idle t lower (by omega)) (by omega)
      | succ n =>
          rw [queue, span]
          exact queueCycle_announced (idle _ (by omega) (by omega)) _

/-- An edge of the bus later they are on their way through the first stage. -/
theorem queue_arriving (idle : ∀ t, c ≤ t → t < port.cycles (e + 1) →
      (run port.inputs port.powerUp t).fifoWrreq = false) (later : c < port.cycles e) :
    (port.queue (e + 1)).arriving = (port.queue (e + 1)).written.length := by
  have passed := port.cycles_succ e
  refine steps_induction (fun _ (queue : Queue (Vector Bool 12)) =>
    queue.arriving = queue.written.length) ?_ fun i less queue =>
      (queueCycle_informed (idle _ (by omega) (by omega)) queue).1
  exact queue_announced (fun t lower upper => idle t lower (by omega)) later

/-- And after one more the read side knows of all words. -/
theorem queue_known (idle : ∀ t, c ≤ t → t < port.cycles (e + 1 + 1) →
      (run port.inputs port.powerUp t).fifoWrreq = false) (later : c < port.cycles e) :
    (port.queue (e + 1 + 1)).known = (port.queue (e + 1 + 1)).written.length := by
  have passed := port.cycles_succ (e + 1)
  have begun := port.cycles_succ e
  refine steps_induction (fun _ (queue : Queue (Vector Bool 12)) =>
    queue.known = queue.written.length) ?_ fun i less queue =>
      (queueCycle_informed (idle _ (by omega) (by omega)) queue).2
  exact queue_arriving (fun t lower upper => idle t lower (by omega)) later

end Idle

theorem Settled.known_eq (settled : port.Settled first last) (lower : first ≤ e)
    (upper : e ≤ last) : (port.queue e).known = (port.queue e).written.length := by
  obtain ⟨c, e', later, first_ge, idle⟩ := settled
  obtain ⟨f, rfl⟩ : ∃ f, e = f + 1 + 1 := ⟨e - 2, by omega⟩
  exact queue_known (fun t after before => idle t after (before.trans_le (port.monotone upper)))
    (later.trans_le (port.monotone (by omega)))

/-- The words stay the same. -/
theorem Settled.words_eq (settled : port.Settled first last) (uncleared : port.Uncleared first last)
    (lower : first ≤ e) (upper : e ≤ last) : port.words e = port.words first := by
  obtain ⟨c, e', later, first_ge, idle⟩ := settled
  have begun : c ≤ port.cycles first := later.le.trans (port.monotone (by omega))
  have kept : ∀ t, port.cycles first ≤ t → t ≤ port.cycles last →
      fifoWords port.inputs port.powerUp t = port.words first := by
    intro t after
    induction t, after using Nat.le_induction with
    | base => exact fun _ => rfl
    | succ t after induction =>
        intro before
        rw [fifoWords, uncleared t after before, idle t (begun.trans after) before]
        exact induction (Nat.le_of_succ_le before)
  exact kept _ (port.monotone lower) (port.monotone upper)

/-- The FIFO is empty when all words have been taken. -/
theorem Settled.rdempty_eq (settled : port.Settled first last)
    (uncleared : port.Uncleared first last) (fits : port.Fits last) (lower : first ≤ e)
    (upper : e ≤ last) :
    port.taken e ≤ (port.words first).length ∧
      (port.rdempty e = false ↔ port.taken e < (port.words first).length) := by
  have fits_now := fits.mono uncleared lower upper
  have taken_le := (port.queue e).taken_le
  rw [rdempty_eq_false_iff, taken_eq fits_now, ← settled.words_eq uncleared lower upper,
    ← queue_written fits_now, ← settled.known_eq lower upper]
  exact ⟨taken_le, Iff.rfl⟩

/-- A read takes a word in each of its periods but the first one, as long as there are words. -/
theorem Settled.taken_of_read {b length i : ℕ} (settled : port.Settled first last)
    (uncleared : port.Uncleared first last) (fits : port.Fits last) (lower : first ≤ b)
    (upper : b + 1 + i ≤ last) (quiet : Quiet port.wave b (b + length))
    (pulse : Pulse port.readWave b (b + length)) (bound : i < length) :
    port.taken (b + 1 + i) = min (port.taken b + i) (port.words first).length := by
  induction i with
  | zero =>
      have within := (settled.rdempty_eq uncleared fits lower (by omega : b ≤ last)).1
      have first_period := ReadPort.taken_of_read (fits.mono uncleared (by omega) upper)
        (uncleared.mono lower upper) quiet pulse bound
      rw [first_period, Finset.sum_range_zero, Nat.add_zero, min_eq_left within]
  | succ i induction =>
      have before := induction (by omega) (Nat.lt_of_succ_lt bound)
      have earlier := ReadPort.taken_of_read
        (fits.mono uncleared (e := b + 1 + i) (by omega) (by omega))
        (uncleared.mono lower (by omega)) quiet pulse (Nat.lt_of_succ_lt bound)
      have now := ReadPort.taken_of_read (fits.mono uncleared (by omega) upper)
        (uncleared.mono lower upper) quiet pulse bound
      have holds := (settled.rdempty_eq uncleared fits (e := b + 1 + i) (by omega) (by omega)).2
      rw [now, Finset.sum_range_succ, ← Nat.add_assoc, ← earlier]
      cases empty : port.rdempty (b + 1 + i) with
      | false =>
          have := holds.mp empty
          simp only [Bool.not_false, Bool.toNat_true]
          omega
      | true =>
          have := mt holds.mpr (ne_false_of_eq_true empty)
          simp only [Bool.not_true, Bool.toNat_false]
          omega

/-! ## After a request -/

section Request

variable {start horizon num : ℕ} {measureCh : BitVec 3}
  (request : Request port.inputs start horizon num measureCh)

include request

/-- The FIFO is cleared in the first cycle of a request only. -/
theorem uncleared_of_request (begun : start < port.cycles first)
    (within : port.cycles last ≤ horizon) : port.Uncleared first last := by
  intro t after before
  obtain ⟨d, rfl⟩ := Nat.exists_eq_add_of_lt (begun.trans_le after)
  rw [Nat.add_right_comm start, Nat.add_assoc (start + 1)]
  exact request.adcResetN_eq port.powerUp d.succ_pos (by omega)

theorem fits_of_request (begun : start < port.cycles e) (within : port.cycles e ≤ horizon)
    (small : num ≤ 2048) : port.Fits e := by
  obtain ⟨d, d_eq⟩ := Nat.exists_eq_add_of_lt begun
  have words := (request.fifoWords_eq port.powerUp (d := d) (by omega)).1
  rw [Fits, ReadPort.words, d_eq, Nat.add_right_comm, words, List.length_map, List.length_range]
  omega

/-- Nothing has been taken in the first cycle. -/
theorem taken_of_request (begun : port.cycles e = start + 1) (within : start + 1 ≤ horizon) :
    port.taken e = 0 := by
  have none : port.words e = [] := by
    have words := (request.fifoWords_eq port.powerUp (d := 0) within).1
    rw [Nat.zero_sub, Nat.zero_div, Nat.min_zero] at words
    rw [ReadPort.words, begun]
    exact words
  have fits : port.Fits e := by
    rw [Fits, none]
    exact Nat.zero_le _
  have known_le := (queue_taken_le fits).1
  have taken_le := (port.queue e).taken_le
  rw [none, List.length_nil] at known_le
  rw [taken_eq fits]
  omega

/-- No word is written after the last measurement. -/
theorem settled_of_request {c : ℕ} (finished : start + 1 + (402 + 400 * num) ≤ c)
    (passed : c < port.cycles e) (before : e + 2 ≤ first) (within : port.cycles last ≤ horizon) :
    port.Settled first last := by
  refine ⟨c, e, passed, before, fun t after upper => eq_false_of_ne_true fun writes => ?_⟩
  obtain ⟨d, rfl⟩ := Nat.exists_eq_add_of_le (Nat.le_of_add_right_le (finished.trans after))
  have now := (request.fifoWords_eq port.powerUp (d := d) (by omega)).1
  have next := (request.fifoWords_eq port.powerUp (d := d + 1) (by omega)).1
  rw [← Nat.add_assoc, fifoWords_of_quiet (request.alone _ (by omega) (by omega)), now, wordsAfter,
    if_pos writes] at next
  have lengths := congrArg List.length next
  simp only [List.length_append, List.length_map, List.length_range, List.length_singleton]
    at lengths
  omega

end Request

/-! ## All reads -/

namespace Accesses

variable {first length : ℕ → ℕ} (accesses : port.Accesses first length n)

include accesses

theorem first_le {j : ℕ} (j_le : j ≤ k) (k_le : k ≤ n) : first j ≤ first k := by
  induction k, j_le using Nat.le_induction with
  | base => exact le_rfl
  | succ k _ induction =>
      exact (induction (Nat.le_of_succ_le k_le)).trans
        ((Nat.le_add_right _ _).trans (accesses.ordered k k_le))

theorem quiet_read (less : k < n) : Quiet port.wave (first k) (first k + length k) :=
  accesses.quiet.mono ⟨accesses.first_le (Nat.zero_le k) less.le,
    (accesses.ordered k less).trans (accesses.first_le less le_rfl)⟩

theorem reads (less : k < n) : port.readWave (first k) = true :=
  (accesses.pulse k less).high _ le_rfl (accesses.pulse k less).nonempty

/-- What is taken by a read is taken in its periods. -/
theorem taken_next (fits : port.Fits (first n)) (uncleared : port.Uncleared (first 0) (first n))
    (less : k < n) :
    port.taken (first (k + 1)) = port.taken (first k + 1 + (length k - 1)) := by
  have nonempty := (accesses.pulse k less).nonempty
  have begun := accesses.first_le (Nat.zero_le k) less.le
  have ends := accesses.ordered k less
  have next_le := accesses.first_le (j := k + 1) less le_rfl
  rw [show first k + 1 + (length k - 1) = first k + length k by omega]
  exact taken_of_idle (fits.mono uncleared (by omega) next_le) (uncleared.mono (by omega) next_le)
    ends fun e => accesses.between k e less

/-- A read shows the first word that has not been taken and takes one in each of its periods but the
first one, unless the FIFO is empty. -/
theorem read (fits : port.Fits (first n)) (uncleared : port.Uncleared (first 0) (first n))
    (less : k < n) :
    (port.rdempty (first k) = false →
      ∃ word, (port.words (first k))[port.taken (first k)]? = some word ∧
        (port.trace (first k + 1)).slaveReaddata = busWord word) ∧
    port.taken (first (k + 1)) = port.taken (first k) +
      ∑ j ∈ Finset.range (length k - 1), (!port.rdempty (first k + 1 + j)).toNat := by
  have begun := accesses.first_le (Nat.zero_le k) less.le
  have ends := accesses.ordered k less
  have next_le := accesses.first_le (j := k + 1) less le_rfl
  have nonempty := (accesses.pulse k less).nonempty
  refine ⟨slaveReaddata_eq (fits.mono uncleared begun (by omega)) (accesses.reads less), ?_⟩
  rw [accesses.taken_next fits uncleared less]
  exact taken_of_read (fits.mono uncleared (by omega) (by omega))
    (uncleared.mono begun (by omega)) (accesses.quiet_read less) (accesses.pulse k less) (by omega)

/-- Once the last write has come through, the reads take word after word. -/
theorem taken_of_settled (fits : port.Fits (first n))
    (uncleared : port.Uncleared (first 0) (first n)) (settled : port.Settled (first 0) (first n))
    (k_le : k ≤ n) :
    port.taken (first k) =
      min (port.taken (first 0) + ∑ i ∈ Finset.range k, (length i - 1))
        (port.words (first 0)).length := by
  induction k with
  | zero =>
      have within := (settled.rdempty_eq uncleared fits le_rfl
        (accesses.first_le (Nat.zero_le n) le_rfl)).1
      rw [Finset.sum_range_zero, Nat.add_zero, min_eq_left within]
  | succ k induction =>
      have begun := accesses.first_le (Nat.zero_le k) (Nat.le_of_succ_le k_le)
      have ends := accesses.ordered k k_le
      have next_le := accesses.first_le (j := k + 1) k_le le_rfl
      have nonempty := (accesses.pulse k k_le).nonempty
      rw [accesses.taken_next fits uncleared k_le,
        settled.taken_of_read uncleared fits begun (by omega) (accesses.quiet_read k_le)
          (accesses.pulse k k_le) (by omega),
        induction (Nat.le_of_succ_le k_le), Finset.sum_range_succ]
      omega

/-- And they show them. -/
theorem slaveReaddata_of_settled (fits : port.Fits (first n))
    (uncleared : port.Uncleared (first 0) (first n)) (settled : port.Settled (first 0) (first n))
    (less : k < n) {word : Vector Bool 12}
    (shown : (port.words (first 0))[port.taken (first 0) +
      ∑ i ∈ Finset.range k, (length i - 1)]? = some word) :
    (port.trace (first k + 1)).slaveReaddata = busWord word := by
  have begun := accesses.first_le (Nat.zero_le k) less.le
  have ends := accesses.first_le less.le le_rfl
  obtain ⟨bound, _⟩ := List.getElem?_eq_some_iff.mp shown
  have position : port.taken (first k) =
      port.taken (first 0) + ∑ i ∈ Finset.range k, (length i - 1) :=
    (accesses.taken_of_settled fits uncleared settled less.le).trans (min_eq_left bound.le)
  have holds := (settled.rdempty_eq uncleared fits begun ends).2.mpr (position ▸ bound)
  obtain ⟨word', at_front, read⟩ :=
    slaveReaddata_eq (fits.mono uncleared begun ends) (accesses.reads less) holds
  rw [settled.words_eq uncleared begun ends, position, shown] at at_front
  rw [read, Option.some.inj at_front]

end Accesses

end ReadPort

/-- What the bus reads, however the edges of the two clocks follow each other.  As long as the FIFO
has room for the words and is not cleared, each read shows in its second period the first word that
has not been taken, if the read side knows of one, and each of its periods but the first one takes a
word if the read side knows of one; a request to an empty FIFO is ignored.  Once the last write has
come through, the reads show the words in order until there are no more.  So reads of two periods
each, as the port is configured, with a pause between them, show them all; reads that follow each
other without a pause are one longer read, which takes more words than there are reads. -/
theorem slave_reads (port : ReadPort) (first length : ℕ → ℕ) (n : ℕ)
    (accesses : port.Accesses first length n) (fits : port.Fits (first n))
    (uncleared : port.Uncleared (first 0) (first n)) :
    (∀ k, k < n →
      (port.rdempty (first k) = false →
        ∃ word, (port.words (first k))[port.taken (first k)]? = some word ∧
          (port.trace (first k + 1)).slaveReaddata = busWord word) ∧
      port.taken (first (k + 1)) = port.taken (first k) +
        ∑ j ∈ Finset.range (length k - 1), (!port.rdempty (first k + 1 + j)).toNat) ∧
    (port.Settled (first 0) (first n) →
      (∀ k, k ≤ n → port.taken (first k) =
        min (port.taken (first 0) + ∑ i ∈ Finset.range k, (length i - 1))
          (port.words (first 0)).length) ∧
      ∀ k word, k < n → (port.words (first 0))[port.taken (first 0) +
          ∑ i ∈ Finset.range k, (length i - 1)]? = some word →
        (port.trace (first k + 1)).slaveReaddata = busWord word) :=
  ⟨fun _ => accesses.read fits uncleared, fun settled =>
    ⟨fun _ => accesses.taken_of_settled fits uncleared settled,
      fun _ _ less => accesses.slaveReaddata_of_settled fits uncleared settled less⟩⟩

/-- Reads of two periods with a pause of one period, once three measurements are over. -/
def reading (e : ℕ) : Slave where
  chipselectN := decide (e < 1701)
  addr := readRegAdcValue
  readN := decide (e % 3 = 2)
  wrtieN := true
  wriredata := 0

/-- The registers of the port after power-up. -/
def quietPort : ReadRegisters where
  preSlaveReadData := false
  slaveReaddata := 0
  fifo :=
    { fifoRam := fun _ => Vector.replicate 12 false
      wrptr := 0
      delayedWrptr := 0
      rsDgwp := (0, 0)
      rdptr := 0
      wsDgrp := (0, 0) }

/-- A port with one clock for both sides. -/
def oneClock (inputs : ℕ → Inputs) (wave : ℕ → Period Slave) : ReadPort where
  inputs := inputs
  powerUp := cleared
  cycles e := e + 1
  wave := wave
  registers := quietPort
  monotone _ _ le := Nat.succ_le_succ le
  fresh := rfl
  cleared := rfl

/-- Three reads of three words. -/
def threeReads : ReadPort := oneClock threeMeasurements (released reading)

theorem readWave_threeReads (e : ℕ) : threeReads.readWave e = true ↔ 1701 ≤ e ∧ e % 3 ≠ 2 := by
  simp [ReadPort.readWave, threeReads, oneClock, released, reading, Slave.slaveReadData,
    Slave.Reads]

theorem accesses_threeReads : threeReads.Accesses (fun k => 1701 + 3 * k) (fun _ => 2) 3 where
  quiet _ _ _ := ⟨rfl, rfl⟩
  pulse k _ :=
    { nonempty := Nat.lt_add_of_pos_right two_pos
      high := fun e lower upper => (readWave_threeReads e).mpr (by omega)
      before := fun e edge => eq_false_of_ne_true fun reads => by
        have := (readWave_threeReads e).mp reads
        omega
      after := eq_false_of_ne_true fun reads => by
        have := (readWave_threeReads _).mp reads
        omega }
  ordered k _ := by omega
  between k e _ lower upper := eq_false_of_ne_true fun reads => by
    have := (readWave_threeReads e).mp reads
    omega

/-- The third read shows the third word. -/
theorem slave_reads_third : (threeReads.trace 1708).slaveReaddata = 0x249#16 := by
  have request := request_threeMeasurements 2000
  have uncleared : threeReads.Uncleared 0 1710 :=
    ReadPort.uncleared_of_request request Nat.one_pos (by decide)
  have fits : threeReads.Fits 1710 :=
    ReadPort.fits_of_request request (by decide) (by decide) (by decide)
  have settled : threeReads.Settled 1701 1710 :=
    ReadPort.settled_of_request request (c := 1603) le_rfl (e := 1699) (by decide) le_rfl
      (by decide)
  have untaken : threeReads.taken 1701 = 0 := by
    rw [ReadPort.taken_of_idle (fits.mono uncleared (Nat.zero_le _) (by decide))
      (uncleared.mono le_rfl (by decide)) (Nat.zero_le _) fun e _ upper =>
        eq_false_of_ne_true fun reads => by
          have := (readWave_threeReads e).mp reads
          omega]
    exact ReadPort.taken_of_request request rfl (by decide)
  have words : threeReads.words 1701 = _ :=
    (request.fifoWords_eq cleared (d := 1701) (by decide)).1
  have third := ((slave_reads threeReads (fun k => 1701 + 3 * k) (fun _ => 2) 3 accesses_threeReads
    fits (uncleared.mono (by decide) le_rfl)).2 settled).2 2
  simp only [untaken, words] at third
  exact third _ (by decide) rfl

end AdcLtc2308Fifo
end FpgaRadar
