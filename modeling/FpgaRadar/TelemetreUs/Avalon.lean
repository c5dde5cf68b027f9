import FpgaRadar.TelemetreUs.Echo
import FpgaRadar.Vhdl.Latch

/-!
# The range finder on the bus

This file embeds `Telemetre_us_Avalon.vhd` at the level of simulation cycles.  The process that
drives `readdata` is sensitive to `chipselect` and `read_n` but not to `i_dist_cm`, which it reads,
so it shows the current distance except when an update of E4 falls inside an open read.
-/

namespace FpgaRadar
namespace TelemetreUsAvalon

open Vhdl TelemetreUs

/-- The signals of the architecture, those of the instance of `telemetre_us` included. -/
structure Signals where
  /-- Chip select. -/
  chipselect : Bool
  /-- Read strobe, active low. -/
  readN : Bool
  /-- Word on the read port. -/
  readdata : BitVec 32
  /-- The instance. -/
  telemeter : TelemetreUs.Registers
  deriving DecidableEq

/-- What a simulation cycle brings: the bus levels from then on, and the levels with which the
process of the instance has been activated for the assignments that take effect in it. -/
structure Cycle where
  /-- Chip select. -/
  chipselect : Bool
  /-- Read strobe, active low. -/
  readN : Bool
  /-- The level of `rst_n`. -/
  rstN : Bool
  /-- Whether `clk` has risen. -/
  risingEdge : Bool
  /-- The echo pin. -/
  echo : Bool
  deriving DecidableEq

/-- The internal distance signal, driven by the instance. -/
def Signals.iDistCm (signals : Signals) : BitVec 10 := signals.telemeter.distCm

/-- A read is open. -/
def Signals.reading (signals : Signals) : Bool := signals.chipselect && !signals.readN

/-- The word `(31 DOWNTO i_dist_cm'length => '0') & i_dist_cm`. -/
def Signals.word (signals : Signals) : BitVec 32 := 0#22 ++ signals.iDistCm

/-- The process that drives `readdata`. -/
def readProcess (signals : Signals) : Signals :=
  if signals.chipselect = true ∧ signals.readN = false then
    { signals with readdata := signals.word }
  else signals

/-- The signals that change in a cycle before the process is considered. -/
def update (cycle : Cycle) (signals : Signals) : Signals :=
  { signals with
    chipselect := cycle.chipselect
    readN := cycle.readN
    telemeter :=
      TelemetreUs.process.activate cycle.rstN cycle.risingEdge cycle.echo signals.telemeter }

/-- An event on the sensitivity list `(chipselect, read_n)`. -/
def hasEvent (cycle : Cycle) (signals : Signals) : Bool :=
  cycle.chipselect != signals.chipselect || cycle.readN != signals.readN

/-- One simulation cycle. -/
def step (cycle : Cycle) (signals : Signals) : Signals :=
  if hasEvent cycle signals then readProcess (update cycle signals) else update cycle signals

/-- The signals after the first `n` cycles.  Every process is executed once at the outset. -/
def simulate (cycles : ℕ → Cycle) (powerUp : Signals) : ℕ → Signals
  | 0 => readProcess powerUp
  | n + 1 => step (cycles n) (simulate cycles powerUp n)

/-- The read port of the synthesised circuit, in which the process has become a latch. -/
def latchedReaddata (cycles : ℕ → Cycle) (powerUp : Signals) : ℕ → BitVec 32 :=
  latch (fun n => (simulate cycles powerUp n).reading)
    (fun n => (simulate cycles powerUp n).word) powerUp.readdata

/-- E4 changes the distance in this cycle, a read is open, and no bus event comes with it. -/
def UpdatesDuringRead (cycle : Cycle) (signals : Signals) : Prop :=
  hasEvent cycle signals = false ∧ signals.reading = true ∧
    cycle.rstN = true ∧ cycle.risingEdge = true ∧ signals.telemeter.state = .e4 ∧
    distanceOf signals.telemeter.counter2 ≠ signals.iDistCm

instance (cycle : Cycle) (signals : Signals) : Decidable (UpdatesDuringRead cycle signals) :=
  inferInstanceAs (Decidable (_ ∧ _))

variable {cycles : ℕ → Cycle} {powerUp : Signals} {n last : ℕ}

/-! ## The process is resumed by bus events only -/

theorem guarded_readProcess (signals : Signals) :
    (readProcess signals).readdata =
      guarded signals.reading signals.word signals.readdata := by
  rcases signals with ⟨_ | _, _ | _, readdata, telemeter⟩ <;> rfl

@[simp]
theorem readProcess_reading (signals : Signals) :
    (readProcess signals).reading = signals.reading := by
  rcases signals with ⟨_ | _, _ | _, readdata, telemeter⟩ <;> rfl

@[simp]
theorem readProcess_telemeter (signals : Signals) :
    (readProcess signals).telemeter = signals.telemeter := by
  rcases signals with ⟨_ | _, _ | _, readdata, telemeter⟩ <;> rfl

@[simp]
theorem readProcess_word (signals : Signals) : (readProcess signals).word = signals.word := by
  rw [Signals.word, Signals.iDistCm, readProcess_telemeter]
  rfl

@[simp]
theorem step_bus (cycle : Cycle) (signals : Signals) :
    (step cycle signals).chipselect = cycle.chipselect ∧
      (step cycle signals).readN = cycle.readN := by
  rw [step, readProcess]
  split_ifs <;> exact ⟨rfl, rfl⟩

@[simp]
theorem step_telemeter (cycle : Cycle) (signals : Signals) :
    (step cycle signals).telemeter =
      TelemetreUs.process.activate cycle.rstN cycle.risingEdge cycle.echo signals.telemeter := by
  rw [step]
  split_ifs
  · exact readProcess_telemeter _
  · rfl

/-- The read port in terms of the library's resumed process. -/
theorem readdata_eq_resumed (cycles : ℕ → Cycle) (powerUp : Signals) (n : ℕ) :
    (simulate cycles powerUp n).readdata =
      resumed (fun n => hasEvent (cycles n) (simulate cycles powerUp n))
        (fun n => (simulate cycles powerUp n).reading)
        (fun n => (simulate cycles powerUp n).word) powerUp.readdata n := by
  induction n with
  | zero =>
      rw [resumed, simulate, guarded_readProcess, readProcess_reading, readProcess_word]
  | succ n induction =>
      rw [resumed, ← induction]
      simp only [simulate, step]
      split_ifs with event
      · rw [guarded_readProcess, readProcess_reading, readProcess_word]
        rfl
      · rfl

/-- Opening or closing a read is a bus event. -/
theorem sensitiveTo_reading (cycles : ℕ → Cycle) (powerUp : Signals) :
    SensitiveTo (fun n => hasEvent (cycles n) (simulate cycles powerUp n))
      (fun n => (simulate cycles powerUp n).reading) := by
  intro n no_event
  simp only [hasEvent, Bool.or_eq_false_iff, bne_eq_false_iff_eq] at no_event
  obtain ⟨chipselect, readN⟩ := step_bus (cycles n) (simulate cycles powerUp n)
  show (step (cycles n) (simulate cycles powerUp n)).reading = _
  rw [Signals.reading, chipselect, readN, no_event.1, no_event.2]
  rfl

/-! ## When the distance changes -/

theorem iDistCm_succ (cycles : ℕ → Cycle) (powerUp : Signals) (n : ℕ) :
    (simulate cycles powerUp (n + 1)).iDistCm =
      if (cycles n).rstN = true ∧ (cycles n).risingEdge = true ∧
          (simulate cycles powerUp n).telemeter.state = .e4 then
        distanceOf (simulate cycles powerUp n).telemeter.counter2
      else (simulate cycles powerUp n).iDistCm := by
  rw [simulate, Signals.iDistCm, step_telemeter, ClockedProcess.activate, process_clocked,
    process_reset]
  cases (cycles n).rstN <;> cases (cycles n).risingEdge <;>
    simp [reset, clocked_distCm, Signals.iDistCm]

theorem word_eq_iff {signals signals' : Signals} :
    signals.word = signals'.word ↔ signals.iDistCm = signals'.iDistCm :=
  BitVec.append_right_inj 0#22

/-- The updates that the process misses are those of E4 during a read. -/
theorem missesUpdate_iff (cycles : ℕ → Cycle) (powerUp : Signals) (n : ℕ) :
    MissesUpdate (fun n => hasEvent (cycles n) (simulate cycles powerUp n))
        (fun n => (simulate cycles powerUp n).reading)
        (fun n => (simulate cycles powerUp n).word) n ↔
      UpdatesDuringRead (cycles n) (simulate cycles powerUp n) := by
  have open_iff := sensitiveTo_reading cycles powerUp n
  have changed_iff : (simulate cycles powerUp (n + 1)).word ≠ (simulate cycles powerUp n).word ↔
      (cycles n).rstN = true ∧ (cycles n).risingEdge = true ∧
        (simulate cycles powerUp n).telemeter.state = .e4 ∧
        distanceOf (simulate cycles powerUp n).telemeter.counter2 ≠
          (simulate cycles powerUp n).iDistCm := by
    rw [Ne, word_eq_iff, iDistCm_succ]
    split_ifs with converts
    · simp [converts]
    · simp only [not_true_eq_false, false_iff]
      exact fun changes => converts ⟨changes.1, changes.2.1, changes.2.2.1⟩
  rw [MissesUpdate, UpdatesDuringRead, changed_iff]
  constructor
  · rintro ⟨no_event, opened, changes⟩
    exact ⟨no_event, (open_iff no_event).symm.trans opened, changes⟩
  · rintro ⟨no_event, opened, changes⟩
    exact ⟨no_event, (open_iff no_event).trans opened, changes⟩

theorem latchedReaddata_of_open (opened : (simulate cycles powerUp n).reading = true) :
    latchedReaddata cycles powerUp n = (simulate cycles powerUp n).word :=
  latch_of_open opened

/-- Until E4 first changes the distance inside a read, an open read is current. -/
theorem readdata_of_open
    (none : ∀ m, m < n → ¬ UpdatesDuringRead (cycles m) (simulate cycles powerUp m))
    (opened : (simulate cycles powerUp n).reading = true) :
    (simulate cycles powerUp n).readdata = (simulate cycles powerUp n).word := by
  rw [readdata_eq_resumed, resumed_eq_latch (sensitiveTo_reading cycles powerUp) fun m earlier =>
    (missesUpdate_iff cycles powerUp m).not.mpr (none m earlier)]
  exact latch_of_open opened

/-- A read that opens is current. -/
theorem readdata_of_event (event : hasEvent (cycles n) (simulate cycles powerUp n) = true)
    (opened : (simulate cycles powerUp (n + 1)).reading = true) :
    (simulate cycles powerUp (n + 1)).readdata = (simulate cycles powerUp (n + 1)).word := by
  rw [readdata_eq_resumed, resumed_succ_of_event event]
  exact if_pos opened

theorem readdata_succ
    (no_event : hasEvent (cycles n) (simulate cycles powerUp n) = false) :
    (simulate cycles powerUp (n + 1)).readdata = (simulate cycles powerUp n).readdata := by
  rw [simulate, step, no_event]
  rfl

/-- When reads return the current measurement.  Over any number of cycles the read port shows 22
zero bits and the current distance in every open read, if and only if E4 never changes the distance
inside one; and this is also when the simulated process agrees with the latch.  A closed read port
keeps its value in any case. -/
theorem reads_current_iff (cycles : ℕ → Cycle) (powerUp : Signals) (last : ℕ) :
    ((∀ n, n ≤ last → (simulate cycles powerUp n).reading = true →
          (simulate cycles powerUp n).readdata = 0#22 ++ (simulate cycles powerUp n).iDistCm) ↔
        ∀ n, n < last → ¬ UpdatesDuringRead (cycles n) (simulate cycles powerUp n)) ∧
      ((∀ n, n ≤ last →
          (simulate cycles powerUp n).readdata = latchedReaddata cycles powerUp n) ↔
        ∀ n, n < last → ¬ UpdatesDuringRead (cycles n) (simulate cycles powerUp n)) ∧
      ∀ n, (simulate cycles powerUp (n + 1)).reading = false →
        (simulate cycles powerUp (n + 1)).readdata = (simulate cycles powerUp n).readdata := by
  have sensitive := sensitiveTo_reading cycles powerUp
  simp only [readdata_eq_resumed, ← missesUpdate_iff]
  refine ⟨resumed_current_iff _ sensitive, resumed_eq_latch_iff _ sensitive, fun n closed => ?_⟩
  exact resumed_succ_of_closed closed

/-! ## A read that is held open -/

/-- A read from cycle 3419 on while the range finder measures one centimetre. -/
def heldRead (n : ℕ) : Cycle where
  chipselect := decide (3419 ≤ n)
  readN := false
  rstN := true
  risingEdge := true
  echo := echoPulse 501 2916 n

/-- The signals after the initial reset. -/
def afterReset : Signals where
  chipselect := false
  readN := false
  readdata := 0
  telemeter := TelemetreUs.reset TelemetreUs.uninitialised

theorem heldRead_telemeter (n : ℕ) :
    (simulate heldRead afterReset n).telemeter =
      TelemetreUs.process.trace (released (echoPulse 501 2916)) TelemetreUs.uninitialised n := by
  induction n with
  | zero => rfl
  | succ n induction =>
      rw [simulate, step_telemeter, induction, ClockedProcess.trace_succ,
        ClockedProcess.edge_of_quiet _ ⟨rfl, rfl⟩]
      rfl

/-- The first measurement of that run is completed in cycle 3420. -/
theorem heldRead_measurement :
    Measurement (released (echoPulse 501 2916)) TelemetreUs.uninitialised 503 1 2916 :=
  measurement_of_echoPulse le_rfl rfl (by norm_num)

theorem heldRead_no_e4 {n : ℕ} (earlier : n < 3420) :
    (simulate heldRead afterReset n).telemeter.state ≠ .e4 := by
  rw [heldRead_telemeter]
  exact heldRead_measurement.first_e4 (by omega)

theorem heldRead_reading {n : ℕ} (late : 3419 ≤ n) :
    (simulate heldRead afterReset (n + 1)).reading = true := by
  obtain ⟨chipselect, readN⟩ := step_bus (heldRead n) (simulate heldRead afterReset n)
  rw [simulate, Signals.reading, chipselect, readN]
  simp [heldRead, late]

theorem heldRead_no_event {n : ℕ} (late : 3419 ≤ n) :
    hasEvent (heldRead (n + 1)) (simulate heldRead afterReset (n + 1)) = false := by
  obtain ⟨chipselect, readN⟩ := step_bus (heldRead n) (simulate heldRead afterReset n)
  rw [hasEvent, simulate, chipselect, readN]
  simp [heldRead, late, late.trans n.le_succ]

theorem heldRead_iDistCm {n : ℕ} (early : n ≤ 3420) :
    (simulate heldRead afterReset n).iDistCm = 0 := by
  induction n with
  | zero => rfl
  | succ n induction =>
      rw [iDistCm_succ, if_neg fun converts => heldRead_no_e4 early converts.2.2]
      exact induction (Nat.le_of_lt early)

theorem heldRead_published : (simulate heldRead afterReset 3421).iDistCm = 1 := by
  have converts : (simulate heldRead afterReset 3420).telemeter.state = .e4 := by
    rw [heldRead_telemeter]
    exact heldRead_measurement.converts
  have counted : (simulate heldRead afterReset 3420).telemeter.counter2 = integer 2916 := by
    rw [heldRead_telemeter]
    exact heldRead_measurement.counter2
  have published := iDistCm_succ heldRead afterReset 3420
  rw [if_pos ⟨rfl, rfl, converts⟩, counted] at published
  exact published.trans (by decide)

/-- The first distance is published in cycle 3420, while that read is open.  The read port goes on
showing the value from before the measurement, which a latch would not. -/
theorem held_read_is_stale :
    (simulate heldRead afterReset 3421).reading = true ∧
      (simulate heldRead afterReset 3421).iDistCm = 1 ∧
      (simulate heldRead afterReset 3421).readdata = 0 ∧
      latchedReaddata heldRead afterReset 3421 = 1 := by
  have opened : (simulate heldRead afterReset 3421).reading = true :=
    heldRead_reading (by norm_num)
  have kept : (simulate heldRead afterReset 3421).readdata =
      (simulate heldRead afterReset 3420).readdata :=
    readdata_succ (heldRead_no_event (le_refl 3419))
  have current : (simulate heldRead afterReset 3420).readdata =
      (simulate heldRead afterReset 3420).word :=
    readdata_of_open (fun m earlier updates => heldRead_no_e4 earlier updates.2.2.2.2.1)
      (heldRead_reading (le_refl 3419))
  refine ⟨opened, heldRead_published, ?_, ?_⟩
  · rw [kept, current, Signals.word, heldRead_iDistCm (le_refl 3420)]
    rfl
  · rw [latchedReaddata_of_open opened, Signals.word, heldRead_published]
    rfl

end TelemetreUsAvalon
end FpgaRadar
