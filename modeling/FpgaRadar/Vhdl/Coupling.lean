import FpgaRadar.Vhdl.ClockedProcess

/-!
# Two runs of one process

Two runs under the same waveform are compared edge by edge.  A coupling is a relation between the
registers of the two that a reset and the clocked branch both keep; once it holds it holds for
ever, whatever the waveform does.  Registers that the relation determines are added to it one by
one.
-/

namespace Vhdl
namespace ClockedProcess

variable {σ ι α : Type*} {process : ClockedProcess σ ι}

/-- A relation between the registers of two runs that every activation keeps. -/
structure Coupling (process : ClockedProcess σ ι) where
  /-- The relation. -/
  Related : σ → σ → Prop
  /-- A reset of both keeps it. -/
  reset : ∀ left right, Related left right → Related (process.reset left) (process.reset right)
  /-- An edge with the same input keeps it. -/
  clocked : ∀ input left right, Related left right →
    Related (process.clocked input left) (process.clocked input right)

namespace Coupling

variable (coupling : Coupling process) {left right : σ}

theorem activate (related : coupling.Related left right) (rstN risingEdge : Bool) (input : ι) :
    coupling.Related (process.activate rstN risingEdge input left)
      (process.activate rstN risingEdge input right) := by
  rw [ClockedProcess.activate, ClockedProcess.activate]
  split_ifs
  · exact coupling.reset left right related
  · exact coupling.clocked input left right related
  · exact related

theorem settle (related : coupling.Related left right) (period : Period ι) :
    coupling.Related (process.settle period left) (process.settle period right) := by
  rw [ClockedProcess.settle, ClockedProcess.settle]
  split_ifs
  · exact coupling.activate related false false period.input
  · exact related

theorem edge (related : coupling.Related left right) (period : Period ι) :
    coupling.Related (process.edge period left) (process.edge period right) :=
  coupling.activate (coupling.settle related period) period.rstN true period.input

/-- Runs that are related after some edge are related from then on. -/
theorem run_of_le {wave : ℕ → Period ι} {start t : ℕ}
    (related : coupling.Related (process.run wave left start) (process.run wave right start))
    (start_le : start ≤ t) :
    coupling.Related (process.run wave left t) (process.run wave right t) := by
  induction t, start_le using Nat.le_induction with
  | base => exact related
  | succ t _ induction => exact coupling.edge induction (wave t)

/-- A coupling of which the clocked branch and the reset keep one more register equal. -/
def also (register : σ → α)
    (reset : ∀ left right, register left = register right →
      register (process.reset left) = register (process.reset right))
    (clocked : ∀ input left right, coupling.Related left right → register left = register right →
      register (process.clocked input left) = register (process.clocked input right)) :
    Coupling process where
  Related left right := coupling.Related left right ∧ register left = register right
  reset left right related :=
    ⟨coupling.reset left right related.1, reset left right related.2⟩
  clocked input left right related :=
    ⟨coupling.clocked input left right related.1, clocked input left right related.1 related.2⟩

end Coupling
end ClockedProcess
end Vhdl
