import Mathlib.Order.Basic
import Mathlib.Tactic

/-!
# Two-valued signals over clock cycles

A signal is a function on cycles; cycle `t` lies between edges `t - 1` and `t`.  The pulses of a
signal are its maximal high intervals, given by their first cycle and the cycle after their last.
-/

namespace Vhdl

/-- The cycles `first`, ..., `last - 1` form a complete pulse of the signal. -/
structure Pulse (signal : ℕ → Bool) (first last : ℕ) : Prop where
  /-- A pulse has at least one cycle. -/
  nonempty : first < last
  /-- The signal is high throughout. -/
  high : ∀ t, first ≤ t → t < last → signal t = true
  /-- The signal is low just before, unless the pulse opens the run. -/
  before : ∀ t, t + 1 = first → signal t = false
  /-- The signal is low just after. -/
  after : signal last = false

/-- The signal rises at edge `t`. -/
def RisesAt (signal : ℕ → Bool) (t : ℕ) : Prop :=
  signal t = false ∧ signal (t + 1) = true

/-- The signal is low from cycle `first` up to `last`, where its next pulse begins. -/
structure Gap (signal : ℕ → Bool) (first last : ℕ) : Prop where
  /-- A gap follows a pulse. -/
  before : ∃ t, t + 1 = first ∧ signal t = true
  /-- A gap has at least one cycle. -/
  nonempty : first < last
  /-- The signal is low throughout. -/
  low : ∀ t, first ≤ t → t < last → signal t = false
  /-- The next pulse begins. -/
  after : signal last = true

namespace Pulse

variable {signal : ℕ → Bool} {first last : ℕ}

/-- A pulse reaches back at least as far as any high stretch that ends with it. -/
theorem first_le (pulse : Pulse signal first last) {start : ℕ}
    (high : ∀ t, start ≤ t → t < last → signal t = true) : first ≤ start := by
  by_contra! later
  obtain ⟨t, first_eq⟩ : ∃ t, t + 1 = first := ⟨first - 1, by omega⟩
  have low := pulse.before t first_eq
  rw [high t (by omega) (by have := pulse.nonempty; omega)] at low
  contradiction

/-- A pulse ends no later than any low cycle after its start. -/
theorem last_le (pulse : Pulse signal first last) {t : ℕ} (first_le : first ≤ t)
    (low : signal t = false) : last ≤ t := by
  by_contra! within
  rw [pulse.high t first_le within] at low
  contradiction

/-- A pulse is determined by its first cycle. -/
theorem last_unique (pulse : Pulse signal first last) {last' : ℕ}
    (pulse' : Pulse signal first last') : last = last' :=
  le_antisymm (pulse.last_le pulse'.nonempty.le pulse'.after)
    (pulse'.last_le pulse.nonempty.le pulse.after)

end Pulse

/-- A condition that holds at `first` and fails at `last` has a first failure in between. -/
theorem exists_exit (condition : ℕ → Prop) {first last : ℕ} (first_le : first ≤ last)
    (holds : condition first) (fails : ¬ condition last) :
    ∃ exit, first < exit ∧ exit ≤ last ∧
      (∀ t, first ≤ t → t < exit → condition t) ∧ ¬ condition exit := by
  classical
  have failure : ∃ t, first ≤ t ∧ ¬ condition t := ⟨last, first_le, fails⟩
  obtain ⟨lower, exit_fails⟩ := Nat.find_spec failure
  refine ⟨Nat.find failure, ?_, Nat.find_min' failure ⟨first_le, fails⟩, ?_, exit_fails⟩
  · apply lt_of_le_of_ne lower
    intro equality
    exact exit_fails (equality ▸ holds)
  · intro t t_ge t_lt
    by_contra t_fails
    exact Nat.find_min failure t_lt ⟨t_ge, t_fails⟩

/-- A condition that fails at the outset and holds at `last` has a last start before `last`. -/
theorem exists_entry (condition : ℕ → Prop) {last : ℕ} (fails : ¬ condition 0)
    (holds : condition last) :
    ∃ start, start < last ∧ ¬ condition start ∧ ∀ t, start < t → t ≤ last → condition t := by
  induction last with
  | zero => exact absurd holds fails
  | succ last induction =>
      by_cases earlier : condition last
      · obtain ⟨start, start_lt, start_fails, since⟩ := induction earlier
        refine ⟨start, by omega, start_fails, fun t lower upper => ?_⟩
        rcases upper.eq_or_lt with rfl | within
        · exact holds
        · exact since t lower (by omega)
      · refine ⟨last, by omega, earlier, fun t lower upper => ?_⟩
        obtain rfl : t = last + 1 := by omega
        exact holds

/-- The values of a strictly increasing sequence divide the indices into intervals. -/
theorem exists_interval {edges : ℕ → ℕ} (increasing : StrictMono edges) {t : ℕ}
    (reached : edges 0 ≤ t) : ∃ k, edges k ≤ t ∧ t < edges (k + 1) := by
  by_contra! unbounded
  have below : ∀ k, edges k ≤ t := by
    intro k
    induction k with
    | zero => exact reached
    | succ k induction => exact unbounded k induction
  exact absurd (increasing.le_apply.trans (below (t + 1))) (Nat.not_succ_le_self t)

/-- Events that are a period apart cannot fall into all of more intervals than there are periods. -/
theorem exists_interval_without {edges : ℕ → ℕ} {event : ℕ → Prop} {period : ℕ}
    (spaced : ∀ s t, event s → event t → s < t → s + period ≤ t) (k n : ℕ)
    (short : edges (k + n + 1) ≤ edges k + n * period) :
    ∃ j, j ≤ n ∧ ∀ t, edges (k + j) ≤ t → t < edges (k + j + 1) → ¬ event t := by
  by_contra! everywhere
  choose time after before happens using everywhere
  have apart : ∀ j, (bound : j ≤ n) → edges k + j * period ≤ time j bound := by
    intro j
    induction j with
    | zero =>
        intro bound
        rw [Nat.zero_mul]
        exact after 0 bound
    | succ j induction =>
        intro bound
        have earlier := induction (Nat.le_of_succ_le bound)
        have ordered : time j (Nat.le_of_succ_le bound) < time (j + 1) bound :=
          (before j _).trans_le (after (j + 1) bound)
        have next := spaced _ _ (happens j _) (happens (j + 1) bound) ordered
        rw [Nat.succ_mul]
        omega
  exact absurd ((apart n le_rfl).trans_lt (before n le_rfl)) (not_lt.mpr short)

/-- A relation that leads on from everywhere has a sequence from each beginning. -/
theorem exists_sequence {α : Type*} (follows : α → α → Prop) (first : α)
    (next : ∀ current, ∃ later, follows current later) :
    ∃ sequence : ℕ → α, sequence 0 = first ∧
      ∀ k, follows (sequence k) (sequence (k + 1)) := by
  choose later leads using next
  refine ⟨fun k => later^[k] first, rfl, fun k => ?_⟩
  simp only [Function.iterate_succ_apply']
  exact leads _

/-- A condition that holds at some index before `last` has a last such index. -/
theorem exists_last (condition : ℕ → Prop) {first last : ℕ} (earlier : first < last)
    (holds : condition first) :
    ∃ index, first ≤ index ∧ index < last ∧ condition index ∧
      ∀ t, index < t → t < last → ¬ condition t := by
  induction last, earlier using Nat.le_induction with
  | base =>
      exact ⟨first, le_rfl, first.lt_succ_self, holds,
        fun t lower upper => absurd (lower.trans_le (Nat.lt_succ_iff.mp upper)) (lt_irrefl _)⟩
  | succ last _ induction =>
      by_cases again : condition last
      · exact ⟨last, by omega, last.lt_succ_self, again,
          fun t lower upper => absurd (lower.trans_le (Nat.lt_succ_iff.mp upper)) (lt_irrefl _)⟩
      · obtain ⟨index, index_ge, index_lt, index_holds, since⟩ := induction
        refine ⟨index, index_ge, index_lt.trans last.lt_succ_self, index_holds, ?_⟩
        intro t lower upper
        rcases (Nat.lt_succ_iff.mp upper).eq_or_lt with rfl | within
        · exact again
        · exact since t lower within

end Vhdl
