import Mathlib.Order.Monotone.Basic
import Mathlib.Tactic

/-!
# Programs seen from the bus

A program that drives devices is seen by them as a sequence of accesses with edges of the clock in
between.  A site is a place in the program together with its variables.  The machine that executes
the program counts the edges before each access and makes it at one edge; which edges these are is
computed by `visit`, and `exists_visit` shows that nothing else ever happens.
-/

namespace Bus

/-- A program with sites `κ` that makes accesses `α` and reads words `δ`. -/
structure Program (κ α δ : Type*) where
  /-- The access made at a site, if there is one. -/
  access : κ → Option α
  /-- The site that follows, given the word on the read port at the edge of the access. -/
  next : κ → δ → κ
  /-- The edges that pass between the access of a site and the following one. -/
  wait : κ → ℕ

/-- The machine that executes a program, between two edges. -/
structure Master (κ : Type*) where
  /-- The site of the next access. -/
  site : κ
  /-- The edges that pass before it. -/
  left : ℕ
  deriving DecidableEq

namespace Program

variable {κ α δ : Type*} (program : Program κ α δ)

/-- The access made at the next edge. -/
def accessOf (master : Master κ) : Option α :=
  if master.left = 0 then program.access master.site else none

/-- One edge of the clock. -/
def advance (word : δ) (master : Master κ) : Master κ :=
  match master.left with
  | left + 1 => { master with left := left }
  | 0 => { site := program.next master.site word, left := program.wait master.site }

/-- The machine after `t` edges. -/
def run (words : ℕ → δ) (start : Master κ) : ℕ → Master κ
  | 0 => start
  | t + 1 => program.advance (words t) (run words start t)

/-- The `n`-th site that the machine comes to and the edge at which it makes its access. -/
def visit (words : ℕ → δ) (start : Master κ) : ℕ → κ × ℕ
  | 0 => (start.site, start.left)
  | n + 1 =>
      let (site, edge) := visit words start n
      (program.next site (words edge), edge + 1 + program.wait site)

variable {program} {words : ℕ → δ} {start master : Master κ} {word : δ} {n t : ℕ}

theorem advance_of_waiting (waiting : 0 < master.left) :
    program.advance word master = { master with left := master.left - 1 } := by
  obtain ⟨site, left⟩ := master
  cases left with
  | zero => exact absurd waiting (Nat.lt_irrefl 0)
  | succ left => rfl

theorem advance_of_ready (ready : master.left = 0) :
    program.advance word master =
      { site := program.next master.site word, left := program.wait master.site } := by
  rw [advance, ready]

theorem accessOf_of_waiting (waiting : 0 < master.left) : program.accessOf master = none :=
  if_neg waiting.ne'

theorem accessOf_of_ready (ready : master.left = 0) :
    program.accessOf master = program.access master.site :=
  if_pos ready

theorem ready_of_accessOf {access : α} (accesses : program.accessOf master = some access) :
    master.left = 0 ∧ program.access master.site = some access := by
  rw [accessOf] at accesses
  split_ifs at accesses with ready
  exact ⟨ready, accesses⟩

theorem run_succ (program : Program κ α δ) (words : ℕ → δ) (start : Master κ) (t : ℕ) :
    program.run words start (t + 1) = program.advance (words t) (program.run words start t) :=
  rfl

/-- The machine counts the edges before its next access. -/
theorem run_add {j : ℕ} (bound : j ≤ (program.run words start t).left) :
    program.run words start (t + j) =
      { program.run words start t with left := (program.run words start t).left - j } := by
  induction j with
  | zero => rfl
  | succ j induction =>
      have waiting := induction (by omega)
      rw [← Nat.add_assoc, run_succ, waiting, advance_of_waiting (by simp only; omega)]
      simp only [Master.mk.injEq, true_and]
      omega

/-- The machine makes the access of each visit at its edge. -/
theorem run_visit (program : Program κ α δ) (words : ℕ → δ) (start : Master κ) (n : ℕ) :
    program.run words start (program.visit words start n).2 =
      { site := (program.visit words start n).1, left := 0 } := by
  induction n with
  | zero =>
      have waited : program.run words start (0 + start.left) = _ := run_add le_rfl
      rw [Nat.zero_add] at waited
      rw [visit, waited, run, Nat.sub_self]
  | succ n induction =>
      have departed : program.run words start ((program.visit words start n).2 + 1) =
          { site := (program.visit words start (n + 1)).1
            left := program.wait (program.visit words start n).1 } := by
        rw [run_succ, induction, advance_of_ready rfl]
        rfl
      have waited := run_add (j := program.wait (program.visit words start n).1)
        (by rw [departed])
      rw [departed, Nat.sub_self] at waited
      exact waited

/-- Between two visits the machine waits for the second one. -/
theorem run_between (program : Program κ α δ) (words : ℕ → δ) (start : Master κ) (n : ℕ) {j : ℕ}
    (bound : j ≤ program.wait (program.visit words start n).1) :
    program.run words start ((program.visit words start n).2 + 1 + j) =
      { site := (program.visit words start (n + 1)).1
        left := program.wait (program.visit words start n).1 - j } := by
  have departed : program.run words start ((program.visit words start n).2 + 1) =
      { site := (program.visit words start (n + 1)).1
        left := program.wait (program.visit words start n).1 } := by
    rw [run_succ, run_visit, advance_of_ready rfl]
    rfl
  rw [run_add (by rw [departed]; exact bound), departed]

/-- After one visit the machine is at the site of the next. -/
theorem site_eq_visit (program : Program κ α δ) (words : ℕ → δ) (start : Master κ)
    (after : ∀ m, n = m + 1 → (program.visit words start m).2 < t)
    (before : t ≤ (program.visit words start n).2) :
    (program.run words start t).site = (program.visit words start n).1 := by
  cases n with
  | zero =>
      have waited : program.run words start (0 + t) = _ := run_add before
      rw [Nat.zero_add] at waited
      rw [waited]
      rfl
  | succ n =>
      obtain ⟨j, rfl⟩ := Nat.exists_eq_add_of_le (Nat.succ_le_of_lt (after n rfl))
      rw [visit] at before
      have between := program.run_between words start n (j := j) (by simp only at before; omega)
      exact congrArg Master.site between

theorem visit_lt_succ (program : Program κ α δ) (words : ℕ → δ) (start : Master κ) (n : ℕ) :
    (program.visit words start n).2 < (program.visit words start (n + 1)).2 := by
  change _ < (program.visit words start n).2 + 1 + program.wait (program.visit words start n).1
  omega

/-- At every moment the machine is on its way to some visit. -/
theorem exists_visit (program : Program κ α δ) (words : ℕ → δ) (start : Master κ) (t : ℕ) :
    ∃ n, t ≤ (program.visit words start n).2 ∧ program.run words start t =
      { site := (program.visit words start n).1
        left := (program.visit words start n).2 - t } := by
  induction t with
  | zero => exact ⟨0, Nat.zero_le _, rfl⟩
  | succ t induction =>
      obtain ⟨n, bound, state⟩ := induction
      rcases bound.eq_or_lt with rfl | waiting
      · refine ⟨n + 1, program.visit_lt_succ words start n, ?_⟩
        have departed := program.run_between words start n (Nat.zero_le _)
        rw [Nat.add_zero, Nat.sub_zero] at departed
        rw [departed]
        congr 1
        exact (Nat.add_sub_cancel_left _ _).symm
      · refine ⟨n, waiting, ?_⟩
        rw [run_succ, state, advance_of_waiting (Nat.sub_pos_of_lt waiting)]
        congr 1

/-- The machine is ready at the edges of its visits and at no others. -/
theorem ready_iff (program : Program κ α δ) (words : ℕ → δ) (start : Master κ) (t : ℕ) :
    (program.run words start t).left = 0 ↔ ∃ n, t = (program.visit words start n).2 := by
  constructor
  · intro ready
    obtain ⟨n, bound, state⟩ := program.exists_visit words start t
    rw [state] at ready
    exact ⟨n, le_antisymm bound (Nat.sub_eq_zero_iff_le.mp ready)⟩
  · rintro ⟨n, rfl⟩
    rw [run_visit]

/-- A condition on the sites that each access keeps, when it reads the words of the run, holds at
every moment. -/
theorem site_invariant {condition : κ → Prop} (initial : condition start.site)
    (kept : ∀ t, (program.run words start t).left = 0 →
      condition (program.run words start t).site →
        condition (program.next (program.run words start t).site (words t))) (t : ℕ) :
    condition (program.run words start t).site := by
  induction t with
  | zero => exact initial
  | succ t induction =>
      rw [run_succ]
      rcases Nat.eq_zero_or_pos (program.run words start t).left with ready | waiting
      · rw [advance_of_ready ready]
        exact kept t ready induction
      · rw [advance_of_waiting waiting]
        exact induction

end Program
end Bus
