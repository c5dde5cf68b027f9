import FpgaRadar.Vhdl.ClockedProcess

/-!
# Entities inside entities

A design entity that instantiates another one drives its input ports from its own registers and
pins.  The registers of the inner entity then follow a run of the inner process alone, with those
ports as waveform, so that whatever is proved of the inner process holds inside the outer one.
-/

namespace Vhdl

variable {σ ι τ κ : Type*} {outer : ClockedProcess σ ι} {inner : ClockedProcess τ κ}

/-- An instance of the inner entity, on the clock and the reset of the outer one. -/
structure Component (outer : ClockedProcess σ ι) (inner : ClockedProcess τ κ) where
  /-- The registers of the instance. -/
  project : σ → τ
  /-- What the input ports of the instance carry. -/
  port : σ → ι → κ
  /-- The instance is reset along with the outer entity. -/
  reset : ∀ registers, project (outer.reset registers) = inner.reset (project registers)
  /-- The instance reads its ports as they are before the edge. -/
  clocked : ∀ input registers, project (outer.clocked input registers) =
    inner.clocked (port registers input) (project registers)

namespace Component

variable (component : Component outer inner)

/-- The waveform at the ports of the instance. -/
def wave (wave : ℕ → Period ι) (powerUp : σ) (t : ℕ) : Period κ where
  resetPulse := (wave t).resetPulse
  rstN := (wave t).rstN
  input := component.port (outer.settle (wave t) (outer.trace wave powerUp t)) (wave t).input

theorem activate (rstN risingEdge : Bool) (input : ι) (registers : σ) :
    component.project (outer.activate rstN risingEdge input registers) =
      inner.activate rstN risingEdge (component.port registers input)
        (component.project registers) := by
  rw [ClockedProcess.activate, ClockedProcess.activate]
  split_ifs
  · exact component.reset registers
  · exact component.clocked input registers
  · rfl

theorem settle (wave : ℕ → Period ι) (powerUp registers : σ) (t : ℕ) :
    component.project (outer.settle (wave t) registers) =
      inner.settle (component.wave wave powerUp t) (component.project registers) := by
  rw [ClockedProcess.settle, ClockedProcess.settle, Component.wave]
  split_ifs
  · exact component.activate false false (wave t).input registers
  · rfl

/-- The instance runs as the inner process does on the waveform at its ports. -/
theorem trace (wave : ℕ → Period ι) (powerUp : σ) (t : ℕ) :
    component.project (outer.trace wave powerUp t) =
      inner.trace (component.wave wave powerUp) (component.project powerUp) t := by
  induction t with
  | zero => exact component.reset powerUp
  | succ t induction =>
      rw [ClockedProcess.trace_succ, ClockedProcess.edge, component.activate,
        component.settle wave powerUp, induction]
      rfl

theorem releasedFrom {wave : ℕ → Period ι} {start : ℕ} (release : ReleasedFrom wave start)
    (powerUp : σ) : ReleasedFrom (component.wave wave powerUp) start :=
  ⟨release.held, release.quiet⟩

/-- Without a reset the ports are driven by the registers after the last edge. -/
theorem input_of_quiet {wave : ℕ → Period ι} {t : ℕ} (quiet : (wave t).Quiet) (powerUp : σ) :
    (component.wave wave powerUp t).input =
      component.port (outer.trace wave powerUp t) (wave t).input := by
  rw [Component.wave, outer.settle_of_quiet quiet]

end Component
end Vhdl
