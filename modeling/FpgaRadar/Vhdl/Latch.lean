import Mathlib.Order.Basic
import Mathlib.Tactic

/-!
# Sensitivity lists and transparent latches

Synthesis turns a process with the body `IF enable THEN q <= data END IF` into a transparent latch.
Simulation resumes the process only in cycles with an event on its sensitivity list.  This file
compares the two on waveforms indexed by simulation cycles: index `n` is the moment after cycle
`n - 1`, and every process has been executed once before cycle `0`.
-/

namespace Vhdl

variable {α : Type*}

/-- The body `IF enable THEN q <= data END IF`. -/
def guarded (enable : Bool) (data q : α) : α := if enable then data else q

/-- The process as it is simulated: it is resumed in the cycles with an event. -/
def resumed (event enable : ℕ → Bool) (data : ℕ → α) (powerUp : α) : ℕ → α
  | 0 => guarded (enable 0) (data 0) powerUp
  | n + 1 =>
      if event n then
        guarded (enable (n + 1)) (data (n + 1)) (resumed event enable data powerUp n)
      else resumed event enable data powerUp n

/-- The latch: it follows its inputs in every cycle. -/
def latch (enable : ℕ → Bool) (data : ℕ → α) (powerUp : α) : ℕ → α :=
  resumed (fun _ => true) enable data powerUp

variable {event enable : ℕ → Bool} {data : ℕ → α} {powerUp : α} {n last : ℕ}

theorem resumed_succ_of_event (resumes : event n = true) :
    resumed event enable data powerUp (n + 1) =
      guarded (enable (n + 1)) (data (n + 1)) (resumed event enable data powerUp n) :=
  if_pos resumes

theorem resumed_succ_of_no_event (suspended : event n = false) :
    resumed event enable data powerUp (n + 1) = resumed event enable data powerUp n :=
  if_neg (by simp [suspended])

/-- A closed latch keeps its value, and so does the process. -/
theorem resumed_succ_of_closed (closed : enable (n + 1) = false) :
    resumed event enable data powerUp (n + 1) = resumed event enable data powerUp n := by
  cases event_n : event n with
  | false => exact resumed_succ_of_no_event event_n
  | true => rw [resumed_succ_of_event event_n, guarded, closed, if_neg Bool.false_ne_true]

/-- An open latch shows its data. -/
theorem latch_of_open (opened : enable n = true) : latch enable data powerUp n = data n := by
  cases n with
  | zero => exact if_pos opened
  | succ n =>
      rw [latch, resumed_succ_of_event rfl]
      exact if_pos opened

/-- The data changes while the latch is open in a cycle without an event. -/
def MissesUpdate (event enable : ℕ → Bool) (data : ℕ → α) (n : ℕ) : Prop :=
  event n = false ∧ enable (n + 1) = true ∧ data (n + 1) ≠ data n

/-- Every event on the enable condition resumes the process. -/
def SensitiveTo (event enable : ℕ → Bool) : Prop :=
  ∀ n, event n = false → enable (n + 1) = enable n

/-- Without a missed update the process does what the latch does. -/
theorem resumed_eq_latch (sensitive : SensitiveTo event enable)
    (none_missed : ∀ m, m < n → ¬ MissesUpdate event enable data m) :
    resumed event enable data powerUp n = latch enable data powerUp n := by
  induction n with
  | zero => rfl
  | succ n induction =>
      have equal := induction fun m earlier => none_missed m (earlier.trans n.lt_succ_self)
      cases opened : enable (n + 1) with
      | false =>
          rw [resumed_succ_of_closed opened, equal]
          exact (resumed_succ_of_closed opened).symm
      | true =>
          rw [latch_of_open opened]
          cases event_n : event n with
          | true =>
              rw [resumed_succ_of_event event_n]
              exact if_pos opened
          | false =>
              have unchanged : data (n + 1) = data n := by
                by_contra changed
                exact none_missed n n.lt_succ_self ⟨event_n, opened, changed⟩
              have opened_n : enable n = true := (sensitive n event_n).symm.trans opened
              rw [resumed_succ_of_no_event event_n, equal, latch_of_open opened_n, unchanged]

/-- A missed update leaves the process with another value than the data. -/
theorem exists_stale (sensitive : SensitiveTo event enable)
    (missed : MissesUpdate event enable data n)
    (current : enable n = true → resumed event enable data powerUp n = data n) :
    enable (n + 1) = true ∧ resumed event enable data powerUp (n + 1) ≠ data (n + 1) := by
  obtain ⟨event_n, opened, changed⟩ := missed
  refine ⟨opened, ?_⟩
  rw [resumed_succ_of_no_event event_n, current ((sensitive n event_n).symm.trans opened)]
  exact changed.symm

/-- The process shows the data whenever it is enabled if and only if no update is missed. -/
theorem resumed_current_iff (powerUp : α) (sensitive : SensitiveTo event enable) :
    (∀ n, n ≤ last → enable n = true → resumed event enable data powerUp n = data n) ↔
      ∀ n, n < last → ¬ MissesUpdate event enable data n := by
  constructor
  · intro current n within missed
    obtain ⟨opened, stale⟩ := exists_stale sensitive missed (current n within.le)
    exact stale (current (n + 1) within opened)
  · intro none_missed n within opened
    rw [resumed_eq_latch sensitive fun m earlier => none_missed m (earlier.trans_le within)]
    exact latch_of_open opened

/-- The process agrees with the latch if and only if no update is missed. -/
theorem resumed_eq_latch_iff (powerUp : α) (sensitive : SensitiveTo event enable) :
    (∀ n, n ≤ last → resumed event enable data powerUp n = latch enable data powerUp n) ↔
      ∀ n, n < last → ¬ MissesUpdate event enable data n := by
  constructor
  · intro agree
    apply (resumed_current_iff powerUp sensitive).mp
    intro n within opened
    rw [agree n within, latch_of_open opened]
  · intro none_missed n within
    exact resumed_eq_latch sensitive fun m earlier => none_missed m (earlier.trans_le within)

end Vhdl
