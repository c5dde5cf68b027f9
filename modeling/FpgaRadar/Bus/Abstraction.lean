import FpgaRadar.Bus.Program

/-!
# Hiding accesses

Some accesses of a program may be of no interest to a device.  A program without them does the
others at the same edges if the time that the hidden ones take is part of its waits.
-/

namespace Bus

variable {κ κ' α α' δ : Type*} {program : Program κ α δ} {visible : Program κ' α' δ}

/-- The second program is the first one with some of its sites hidden.  The edges that pass before
the next visible site count the hidden accesses still to come, so there are finitely many. -/
structure Abstraction (program : Program κ α δ) (visible : Program κ' α' δ) where
  /-- The visible site that follows, or the site itself. -/
  project : κ → κ'
  /-- The edges from the access of a site to that of the visible one. -/
  hidden : κ → ℕ
  /-- The words that a site may read. -/
  Reads : κ → δ → Prop
  /-- A hidden access leads towards the same visible site. -/
  next_hidden : ∀ {site word}, Reads site word → 0 < hidden site →
    project (program.next site word) = project site ∧
      program.wait site + hidden (program.next site word) + 1 = hidden site
  /-- A visible access is followed by the next visible one. -/
  next_visible : ∀ {site word}, Reads site word → hidden site = 0 →
    project (program.next site word) = visible.next (project site) word ∧
      program.wait site + hidden (program.next site word) = visible.wait (project site)

namespace Abstraction

variable (abstraction : Abstraction program visible) {words : ℕ → δ} {start : Master κ} {word : δ}
  {t : ℕ}

/-- The machine of the visible program. -/
def view (master : Master κ) : Master κ' where
  site := abstraction.project master.site
  left := master.left + abstraction.hidden master.site

theorem view_advance (master : Master κ)
    (reads : master.left = 0 → abstraction.Reads master.site word) :
    abstraction.view (program.advance word master) =
      visible.advance word (abstraction.view master) := by
  rcases Nat.eq_zero_or_pos master.left with ready | waiting
  · rw [Program.advance_of_ready ready]
    rcases Nat.eq_zero_or_pos (abstraction.hidden master.site) with shown | hides
    · obtain ⟨site_eq, wait_eq⟩ := abstraction.next_visible (reads ready) shown
      rw [Program.advance_of_ready (by rw [view, ready, shown]), view, site_eq, wait_eq]
      rfl
    · obtain ⟨site_eq, wait_eq⟩ := abstraction.next_hidden (reads ready) hides
      rw [Program.advance_of_waiting (by rw [view]; exact Nat.add_pos_right _ hides), view, site_eq]
      simp only [view, ready, ← wait_eq, Nat.zero_add, Nat.add_sub_cancel]
  · rw [Program.advance_of_waiting waiting,
      Program.advance_of_waiting (by rw [view]; exact Nat.add_pos_left waiting _)]
    simp only [view, Master.mk.injEq, true_and]
    omega

/-- The visible program runs along. -/
theorem view_run (reads : ∀ t, (program.run words start t).left = 0 →
      abstraction.Reads (program.run words start t).site (words t)) (t : ℕ) :
    abstraction.view (program.run words start t) =
      visible.run words (abstraction.view start) t := by
  induction t with
  | zero => rfl
  | succ t induction =>
      rw [Program.run_succ, Program.run_succ, ← induction]
      exact abstraction.view_advance _ (reads t)

end Abstraction
end Bus
