import FpgaRadar.Vhdl.ClockedProcess

/-!
# Registers that are written over a bus

A cell is a part of the registers that some inputs write, and that a reset gives a fixed content.
Its content is that of the last write, unless a reset came later.
-/

namespace Vhdl

variable {σ ι β : Type*} {process : ClockedProcess σ ι}

/-- What the clocked branch keeps on each input of a quiet stretch is kept throughout. -/
theorem ClockedProcess.run_kept (process : ClockedProcess σ ι) (content : σ → β)
    {wave : ℕ → Period ι} (registers : σ) {first last : ℕ} (first_le : first ≤ last)
    (kept : ∀ t, first ≤ t → t < last → (wave t).Quiet ∧
      ∀ registers, content (process.clocked (wave t).input registers) = content registers) :
    content (process.run wave registers last) = content (process.run wave registers first) := by
  induction last, first_le using Nat.le_induction with
  | base => rfl
  | succ t first_le induction =>
      obtain ⟨quiet, same⟩ := kept t first_le t.lt_succ_self
      rw [process.run_succ, process.edge_of_quiet quiet, same]
      exact induction fun u lower upper => kept u lower (upper.trans t.lt_succ_self)

/-- A part of the registers of a process that is written as a whole. -/
structure Cell (process : ClockedProcess σ ι) (β : Type*) where
  /-- What the registers hold there. -/
  content : σ → β
  /-- What a reset leaves there. -/
  initial : β
  /-- The inputs that write it. -/
  Writes : ι → Prop
  /-- What they write. -/
  value : ι → β
  /-- The reset branch clears the cell. -/
  reset : ∀ registers, content (process.reset registers) = initial
  /-- A write replaces the content. -/
  clocked_of_writes : ∀ {input}, Writes input → ∀ registers,
    content (process.clocked input registers) = value input
  /-- Other inputs keep it. -/
  clocked_of_not_writes : ∀ {input}, ¬ Writes input → ∀ registers,
    content (process.clocked input registers) = content registers

namespace Cell

variable (cell : Cell process β) {wave : ℕ → Period ι} {powerUp : σ} {first t u : ℕ}

/-- The cell is written at the edge which ends period `t`. -/
def WritesAt (wave : ℕ → Period ι) (t : ℕ) : Prop :=
  (wave t).rstN = true ∧ cell.Writes (wave t).input

/-- Neither a write nor a reset falls into the periods `first`, ..., `last - 1`. -/
def Untouched (wave : ℕ → Period ι) (first last : ℕ) : Prop :=
  ∀ t, first ≤ t → t < last → (wave t).Quiet ∧ ¬ cell.WritesAt wave t

theorem content_of_writesAt (writes : cell.WritesAt wave t) :
    cell.content (process.trace wave powerUp (t + 1)) = cell.value (wave t).input := by
  rw [ClockedProcess.trace_succ]
  rcases process.edge_cases (wave t) (process.trace wave powerUp t) with ⟨low, _⟩ | ⟨_, step⟩
  · rw [writes.1] at low
    contradiction
  · rw [step]
    exact cell.clocked_of_writes writes.2 _

theorem content_of_reset (not_quiet : ¬ (wave t).Quiet) (not_writes : ¬ cell.WritesAt wave t) :
    cell.content (process.trace wave powerUp (t + 1)) = cell.initial := by
  rw [ClockedProcess.trace_succ]
  rcases process.edge_cases (wave t) (process.trace wave powerUp t) with ⟨_, step⟩ | ⟨level, step⟩
  · rw [step]
    exact cell.reset _
  have kept : ¬ cell.Writes (wave t).input := fun writes => not_writes ⟨level, writes⟩
  rw [step, cell.clocked_of_not_writes kept]
  rcases process.settle_cases (wave t) (process.trace wave powerUp t) with
    ⟨_, settled⟩ | ⟨no_pulse, _⟩
  · rw [settled]
    exact cell.reset _
  · exact absurd ⟨no_pulse, level⟩ not_quiet

/-- The content stays while nothing happens. -/
theorem content_holds (first_le : first ≤ t) (untouched : cell.Untouched wave first t) :
    cell.content (process.trace wave powerUp t) =
      cell.content (process.trace wave powerUp first) := by
  apply process.run_kept cell.content _ first_le
  intro u lower upper
  obtain ⟨quiet, not_writes⟩ := untouched u lower upper
  exact ⟨quiet, cell.clocked_of_not_writes fun writes => not_writes ⟨quiet.2, writes⟩⟩

theorem Untouched.snoc (untouched : cell.Untouched wave first t) (quiet : (wave t).Quiet)
    (not_writes : ¬ cell.WritesAt wave t) : cell.Untouched wave first (t + 1) := by
  intro u lower upper
  rcases (Nat.lt_succ_iff.mp upper).eq_or_lt with rfl | earlier
  · exact ⟨quiet, not_writes⟩
  · exact untouched u lower earlier

/-- Something was the last to happen, unless nothing has happened. -/
theorem exists_last_touch (wave : ℕ → Period ι) (t : ℕ) :
    cell.Untouched wave 0 t ∨ ∃ u, u < t ∧ cell.Untouched wave (u + 1) t ∧
      (cell.WritesAt wave u ∨ ¬ (wave u).Quiet ∧ ¬ cell.WritesAt wave u) := by
  have none : ∀ t, cell.Untouched wave t t :=
    fun t u lower upper => absurd (lower.trans_lt upper) (lt_irrefl t)
  induction t with
  | zero => exact Or.inl (none 0)
  | succ t induction =>
      by_cases writes : cell.WritesAt wave t
      · exact Or.inr ⟨t, t.lt_succ_self, none (t + 1), Or.inl writes⟩
      by_cases quiet : (wave t).Quiet
      · rcases induction with untouched | ⟨u, before, untouched, touch⟩
        · exact Or.inl (untouched.snoc cell quiet writes)
        · exact Or.inr ⟨u, before.trans t.lt_succ_self, untouched.snoc cell quiet writes, touch⟩
      · exact Or.inr ⟨t, t.lt_succ_self, none (t + 1), Or.inr ⟨quiet, writes⟩⟩

/-- The content is that of the last write since the last reset, and otherwise what the reset has
left. -/
theorem content_cases (wave : ℕ → Period ι) (powerUp : σ) (t : ℕ) :
    (∃ u, u < t ∧ cell.WritesAt wave u ∧ cell.Untouched wave (u + 1) t ∧
      cell.content (process.trace wave powerUp t) = cell.value (wave u).input) ∨
    ((cell.Untouched wave 0 t ∨ ∃ u, u < t ∧ ¬ (wave u).Quiet ∧ ¬ cell.WritesAt wave u ∧
        cell.Untouched wave (u + 1) t) ∧
      cell.content (process.trace wave powerUp t) = cell.initial) := by
  rcases cell.exists_last_touch wave t with
    untouched | ⟨u, before, untouched, writes | ⟨not_quiet, not_writes⟩⟩
  · refine Or.inr ⟨Or.inl untouched, ?_⟩
    rw [cell.content_holds (Nat.zero_le t) untouched]
    exact cell.reset powerUp
  · refine Or.inl ⟨u, before, writes, untouched, ?_⟩
    rw [cell.content_holds before untouched]
    exact cell.content_of_writesAt writes
  · refine Or.inr ⟨Or.inr ⟨u, before, not_quiet, not_writes, untouched⟩, ?_⟩
    rw [cell.content_holds before untouched]
    exact cell.content_of_reset not_quiet not_writes

end Cell
end Vhdl
