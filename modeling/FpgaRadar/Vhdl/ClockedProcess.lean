import Mathlib.Data.List.Basic
import Mathlib.Tactic

/-!
# Clocked processes with an asynchronous reset

This file gives the semantics of the process shape

`IF rst_n = '0' THEN reset ELSIF Rising_edge(clk) THEN clocked END IF`

sensitive to `clk` and `rst_n`.  A run is indexed by the rising edges of `clk`: `run w s t` holds
the registers just after the first `t` edges.  What happens to `rst_n` between two edges is
summarised by one Boolean, and `foldl_activate` shows that nothing is lost by it.
-/

namespace Vhdl

/-- The two branches of a clocked process on registers `σ` with input ports `ι`. -/
structure ClockedProcess (σ ι : Type*) where
  /-- The branch taken while `rst_n` is low. -/
  reset : σ → σ
  /-- The branch taken at a rising edge of `clk`. -/
  clocked : ι → σ → σ
  /-- The reset branch assigns constants, so taking it twice is taking it once. -/
  reset_reset : ∀ registers, reset (reset registers) = reset registers

/-- The pins during one clock period, which ends with a rising edge. -/
structure Period (ι : Type*) where
  /-- `rst_n` has been low at some instant after the previous edge and before this one. -/
  resetPulse : Bool
  /-- The level of `rst_n` at the edge. -/
  rstN : Bool
  /-- The input ports at the edge. -/
  input : ι

/-- `rst_n` stays high throughout the period. -/
def Period.Quiet {ι : Type*} (period : Period ι) : Prop :=
  period.resetPulse = false ∧ period.rstN = true

instance {ι : Type*} (period : Period ι) : Decidable period.Quiet :=
  inferInstanceAs (Decidable (period.resetPulse = false ∧ period.rstN = true))

/-- `rst_n` stays high throughout the periods `first`, ..., `last - 1`. -/
def Quiet {ι : Type*} (wave : ℕ → Period ι) (first last : ℕ) : Prop :=
  ∀ t, first ≤ t → t < last → (wave t).Quiet

/-- Part of a quiet stretch. -/
theorem Quiet.mono {ι : Type*} {wave : ℕ → Period ι} {first last first' last' : ℕ}
    (quiet : Quiet wave first last) (within : first ≤ first' ∧ last' ≤ last) :
    Quiet wave first' last' :=
  fun t lower upper => quiet t (within.1.trans lower) (upper.trans_le within.2)

/-- One period of a quiet stretch. -/
theorem Quiet.period {ι : Type*} {wave : ℕ → Period ι} {first last : ℕ}
    (quiet : Quiet wave first last) (t : ℕ) (within : first ≤ t ∧ t < last) : (wave t).Quiet :=
  quiet t within.1 within.2

theorem Quiet.init {ι : Type*} {wave : ℕ → Period ι} {first last : ℕ}
    (quiet : Quiet wave first (last + 1)) : Quiet wave first last :=
  quiet.mono ⟨le_rfl, last.le_succ⟩

theorem Quiet.final {ι : Type*} {wave : ℕ → Period ι} {first i : ℕ}
    (quiet : Quiet wave first (first + i + 1)) : (wave (first + i)).Quiet :=
  quiet (first + i) (Nat.le_add_right first i) (first + i).lt_succ_self

theorem Quiet.append {ι : Type*} {wave : ℕ → Period ι} {first middle last : ℕ}
    (before : Quiet wave first middle) (after : Quiet wave middle last) :
    Quiet wave first last := by
  intro t lower upper
  rcases lt_or_ge t middle with early | late
  · exact before t lower early
  · exact after t late upper

theorem Quiet.single {ι : Type*} {wave : ℕ → Period ι} {t : ℕ} (quiet : (wave t).Quiet) :
    Quiet wave t (t + 1) := by
  intro u lower upper
  obtain rfl : u = t := le_antisymm (Nat.lt_succ_iff.mp upper) lower
  exact quiet

theorem Quiet.cons {ι : Type*} {wave : ℕ → Period ι} {first last : ℕ}
    (head : (wave first).Quiet) (tail : Quiet wave (first + 1) last) : Quiet wave first last :=
  (Quiet.single head).append tail

theorem Quiet.snoc {ι : Type*} {wave : ℕ → Period ι} {first last : ℕ}
    (init : Quiet wave first last) (final : (wave last).Quiet) : Quiet wave first (last + 1) :=
  init.append (Quiet.single final)

/-- `rst_n` is low at the first `start` edges and never low afterwards. -/
structure ReleasedFrom {ι : Type*} (wave : ℕ → Period ι) (start : ℕ) : Prop where
  /-- The reset with which the run begins. -/
  held : ∀ t, t < start → (wave t).rstN = false
  /-- The rest of the run. -/
  quiet : ∀ t, start ≤ t → (wave t).Quiet

/-- A waveform of the input ports during which `rst_n` is never low. -/
def released {ι : Type*} (input : ℕ → ι) (t : ℕ) : Period ι where
  resetPulse := false
  rstN := true
  input := input t

theorem quiet_released {ι : Type*} (input : ℕ → ι) (first last : ℕ) :
    Quiet (released input) first last :=
  fun _ _ _ => ⟨rfl, rfl⟩

theorem releasedFrom_released {ι : Type*} (input : ℕ → ι) : ReleasedFrom (released input) 0 :=
  ⟨fun _ negative => absurd negative (Nat.not_lt_zero _), fun _ _ => ⟨rfl, rfl⟩⟩

theorem ReleasedFrom.quiet_between {ι : Type*} {wave : ℕ → Period ι} {start first last : ℕ}
    (release : ReleasedFrom wave start) (bound : start ≤ first) :
    Quiet wave first last :=
  fun t lower _ => release.quiet t (bound.trans lower)

namespace ClockedProcess

variable {σ ι : Type*} (process : ClockedProcess σ ι)

/-- One activation of the process, by an event on `rst_n` or on `clk`. -/
def activate (rstN risingEdge : Bool) (input : ι) (registers : σ) : σ :=
  if rstN = false then process.reset registers
  else if risingEdge then process.clocked input registers
  else registers

/-- The registers that the process finds at the edge which ends a period. -/
def settle (period : Period ι) (registers : σ) : σ :=
  if period.resetPulse then process.activate false false period.input registers else registers

/-- The effect of a whole period on the registers. -/
def edge (period : Period ι) (registers : σ) : σ :=
  process.activate period.rstN true period.input (process.settle period registers)

/-- The registers after the first `t` edges of a waveform. -/
def run (wave : ℕ → Period ι) (registers : σ) : ℕ → σ
  | 0 => registers
  | t + 1 => process.edge (wave t) (run wave registers t)

/-- A run that begins with `rst_n` low: whatever the registers held, they are reset first. -/
def trace (wave : ℕ → Period ι) (powerUp : σ) : ℕ → σ :=
  process.run wave (process.reset powerUp)

/-- The registers can be reached in a run that begins with `rst_n` low. -/
def Reachable (registers : σ) : Prop :=
  ∃ wave powerUp t, process.trace wave powerUp t = registers

/-- The clocked branch is executed at edge `t`, on registers that satisfy `condition`. -/
def Executes (wave : ℕ → Period ι) (registers : ℕ → σ) (condition : σ → Prop) (t : ℕ) : Prop :=
  (wave t).rstN = true ∧ condition (process.settle (wave t) (registers t))

/-- Any activations by `rst_n` between two edges amount to at most one reset. -/
theorem foldl_activate (levels : List Bool) (input : ι) (registers : σ) :
    levels.foldl (fun current level => process.activate level false input current) registers =
      if false ∈ levels then process.reset registers else registers := by
  induction levels generalizing registers with
  | nil => simp
  | cons level levels induction =>
      rw [List.foldl_cons, induction]
      cases level with
      | false => simp [activate, process.reset_reset]
      | true => simp [activate]

theorem run_succ (wave : ℕ → Period ι) (registers : σ) (t : ℕ) :
    process.run wave registers (t + 1) = process.edge (wave t) (process.run wave registers t) :=
  rfl

@[simp]
theorem trace_zero (wave : ℕ → Period ι) (powerUp : σ) :
    process.trace wave powerUp 0 = process.reset powerUp := rfl

theorem trace_succ (wave : ℕ → Period ι) (powerUp : σ) (t : ℕ) :
    process.trace wave powerUp (t + 1) = process.edge (wave t) (process.trace wave powerUp t) :=
  rfl

theorem settle_of_quiet {period : Period ι} (quiet : period.Quiet) (registers : σ) :
    process.settle period registers = registers := by
  simp [settle, quiet.1]

theorem edge_of_quiet {period : Period ι} (quiet : period.Quiet) (registers : σ) :
    process.edge period registers = process.clocked period.input registers := by
  simp [edge, settle, activate, quiet.1, quiet.2]

theorem settle_of_pulse {period : Period ι} (pulse : period.resetPulse = true) (registers : σ) :
    process.settle period registers = process.reset registers := by
  simp [settle, activate, pulse]

theorem edge_of_no_pulse {period : Period ι} (no_pulse : period.resetPulse = false)
    (registers : σ) :
    process.edge period registers =
      if period.rstN = false then process.reset registers
      else process.clocked period.input registers := by
  simp [edge, settle, activate, no_pulse]

/-- A period either ends in a reset or executes the clocked branch. -/
theorem edge_cases (period : Period ι) (registers : σ) :
    (period.rstN = false ∧ process.edge period registers = process.reset registers) ∨
      (period.rstN = true ∧ process.edge period registers =
        process.clocked period.input (process.settle period registers)) := by
  cases level : period.rstN with
  | false =>
      refine Or.inl ⟨rfl, ?_⟩
      cases pulse : period.resetPulse <;>
        simp [edge, settle, activate, level, pulse, process.reset_reset]
  | true => exact Or.inr ⟨rfl, by simp [edge, activate, level]⟩

/-- The registers at an edge are those of the last edge unless a reset came in between. -/
theorem settle_cases (period : Period ι) (registers : σ) :
    (period.resetPulse = true ∧ process.settle period registers = process.reset registers) ∨
      (period.resetPulse = false ∧ process.settle period registers = registers) := by
  cases pulse : period.resetPulse <;> simp [settle, activate, pulse]

/-- An edge of a run is reset, or it is executed right after a reset, or no reset is near it. -/
theorem trace_cases (wave : ℕ → Period ι) (powerUp : σ) (t : ℕ) :
    process.trace wave powerUp (t + 1) = process.reset (process.trace wave powerUp t) ∨
      process.trace wave powerUp (t + 1) =
        process.clocked (wave t).input (process.reset (process.trace wave powerUp t)) ∨
      ((wave t).Quiet ∧ process.trace wave powerUp (t + 1) =
        process.clocked (wave t).input (process.trace wave powerUp t)) := by
  rw [trace_succ]
  rcases process.edge_cases (wave t) (process.trace wave powerUp t) with
    ⟨_, step⟩ | ⟨level, step⟩
  · exact Or.inl step
  · rcases process.settle_cases (wave t) (process.trace wave powerUp t) with
      ⟨_, settled⟩ | ⟨pulse, settled⟩
    · exact Or.inr (Or.inl (by rw [step, settled]))
    · exact Or.inr (Or.inr ⟨⟨pulse, level⟩, by rw [step, settled]⟩)

/-- While the initial reset is held the registers are those of a reset. -/
theorem trace_held {wave : ℕ → Period ι} {start : ℕ} (release : ReleasedFrom wave start)
    (powerUp : σ) {t : ℕ} (bound : t ≤ start) :
    process.trace wave powerUp t = process.reset powerUp := by
  induction t with
  | zero => rfl
  | succ t induction =>
      rcases process.edge_cases (wave t) (process.trace wave powerUp t) with
        ⟨_, step⟩ | ⟨high, _⟩
      · rw [trace_succ, step, induction (by omega), process.reset_reset]
      · rw [release.held t (by omega)] at high
        contradiction

theorem run_add (wave : ℕ → Period ι) (registers : σ) (m n : ℕ) :
    process.run wave registers (m + n) =
      process.run (fun t => wave (m + t)) (process.run wave registers m) n := by
  induction n with
  | zero => rfl
  | succ n induction => rw [← Nat.add_assoc, run_succ, induction, run_succ]

/-- Two waveforms that agree up to an edge drive the registers alike up to that edge. -/
theorem run_congr {wave wave' : ℕ → Period ι} (registers : σ) (n : ℕ)
    (agree : ∀ t, t < n → wave t = wave' t) :
    process.run wave registers n = process.run wave' registers n := by
  induction n with
  | zero => rfl
  | succ n induction =>
      rw [run_succ, run_succ, agree n n.lt_succ_self,
        induction fun t bound => agree t (bound.trans n.lt_succ_self)]

/-- A waveform followed up to edge `t` by another one from there on. -/
def splice (wave wave' : ℕ → Period ι) (t u : ℕ) : Period ι :=
  if u < t then wave u else wave' (u - t)

/-- Every continuation of a reachable state is part of a run. -/
theorem trace_splice (wave wave' : ℕ → Period ι) (powerUp : σ) (t u : ℕ) :
    process.trace (splice wave wave' t) powerUp (t + u) =
      process.run wave' (process.trace wave powerUp t) u := by
  have before : process.run (splice wave wave' t) (process.reset powerUp) t =
      process.run wave (process.reset powerUp) t :=
    process.run_congr _ t fun v bound => if_pos bound
  rw [trace, run_add, before]
  apply process.run_congr
  intro v _
  simp [splice]

/-- A condition established by the reset and kept by the clocked branch. -/
structure Invariant (process : ClockedProcess σ ι) where
  /-- The condition. -/
  Holds : σ → Prop
  /-- The reset establishes it on any registers. -/
  reset : ∀ registers, Holds (process.reset registers)
  /-- The clocked branch keeps it. -/
  clocked : ∀ input registers, Holds registers → Holds (process.clocked input registers)

namespace Invariant

variable {process} (invariant : process.Invariant)

theorem settle {registers : σ} (holds : invariant.Holds registers) (period : Period ι) :
    invariant.Holds (process.settle period registers) := by
  rcases process.settle_cases period registers with ⟨_, settled⟩ | ⟨_, settled⟩
  · rw [settled]
    exact invariant.reset registers
  · rw [settled]
    exact holds

theorem edge {registers : σ} (holds : invariant.Holds registers) (period : Period ι) :
    invariant.Holds (process.edge period registers) := by
  rcases process.edge_cases period registers with ⟨_, step⟩ | ⟨_, step⟩
  · rw [step]
    exact invariant.reset registers
  · rw [step]
    exact invariant.clocked _ _ (invariant.settle holds period)

/-- An invariant holds after every edge of every run that begins with a reset. -/
theorem trace (wave : ℕ → Period ι) (powerUp : σ) (t : ℕ) :
    invariant.Holds (process.trace wave powerUp t) := by
  induction t with
  | zero => exact invariant.reset powerUp
  | succ t induction => exact invariant.edge induction (wave t)

theorem reachable {registers : σ} (reachable : process.Reachable registers) :
    invariant.Holds registers := by
  obtain ⟨wave, powerUp, t, rfl⟩ := reachable
  exact invariant.trace wave powerUp t

end Invariant
end ClockedProcess
end Vhdl
