import FpgaRadar.TelemetreUs.Basic

/-!
# The phases of a measurement cycle

Each state of the automaton is left by one kind of edge and kept by the others.  The theorems of
this file say how long a run stays in a state and what the counters hold meanwhile; every later
statement about runs is assembled from them.  A phase is only followed through quiet periods.
-/

namespace FpgaRadar
namespace TelemetreUs

open Vhdl

variable {wave : ℕ → Period Bool} {powerUp : Registers} {t : ℕ}

theorem trace_step (wave : ℕ → Period Bool) (powerUp : Registers) {t : ℕ}
    (quiet : (wave t).Quiet) :
    process.trace wave powerUp (t + 1) =
      clocked (wave t).input (process.trace wave powerUp t) := by
  rw [ClockedProcess.trace_succ, ClockedProcess.edge_of_quiet _ quiet, process_clocked]

theorem coherent_trace (wave : ℕ → Period Bool) (powerUp : Registers) (t : ℕ) :
    Coherent (process.trace wave powerUp t) :=
  coherentInvariant.trace wave powerUp t

/-! ## The echo synchroniser -/

theorem edge_echoR (period : Period Bool) (registers : Registers) (level : period.rstN = true) :
    (process.edge period registers).echoR = period.input := by
  rcases process.edge_cases period registers with ⟨low, _⟩ | ⟨_, step⟩
  · simp [level] at low
  · rw [step, process_clocked, clocked_echoR]

theorem edge_echoRR (period : Period Bool) (registers : Registers) (level : period.rstN = true) :
    (process.edge period registers).echoRR = registers.echoR := by
  rcases process.edge_cases period registers with ⟨low, _⟩ | ⟨_, step⟩
  · simp [level] at low
  · rw [step, process_clocked, clocked_echoRR]
    rcases process.settle_cases period registers with ⟨_, settled⟩ | ⟨_, settled⟩ <;>
      simp [settled, reset]

/-- The automaton sees a raw sample two edges after it was taken. -/
theorem echoRR_eq_input (first : (wave t).rstN = true) (second : (wave (t + 1)).rstN = true) :
    (process.trace wave powerUp (t + 2)).echoRR = (wave t).input := by
  rw [ClockedProcess.trace_succ, edge_echoRR _ _ second, ClockedProcess.trace_succ,
    edge_echoR _ _ first]

/-! ## E0 and E1 -/

theorem e0_step (quiet : (wave t).Quiet)
    (state : (process.trace wave powerUp t).state = .e0) :
    (process.trace wave powerUp (t + 1)).state = .e1 ∧
      (process.trace wave powerUp (t + 1)).counter1 = 0 ∧
      (process.trace wave powerUp (t + 1)).trig = (process.trace wave powerUp t).trig := by
  have coherent := coherent_trace wave powerUp t
  simp only [Coherent, state] at coherent
  rw [trace_step wave powerUp quiet, clocked_state, clocked_counter1, clocked_trig]
  simp [state, coherent]

/-- The trigger counter counts the edges spent in E1. -/
theorem e1_phase {i : ℕ} (quiet : Quiet wave t (t + i))
    (state : (process.trace wave powerUp t).state = .e1)
    (fits : (process.trace wave powerUp t).counter1 + i ≤ 501) :
    (process.trace wave powerUp (t + i)).state = .e1 ∧
      (process.trace wave powerUp (t + i)).counter1 =
        (process.trace wave powerUp t).counter1 + i := by
  induction i with
  | zero => simp [state]
  | succ i induction =>
      push_cast at fits
      obtain ⟨state_i, counter_i⟩ := induction quiet.init (by omega)
      have exact := (coherent_trace wave powerUp (t + i)).counter1_succ state_i
      rw [counter_i] at exact
      rw [← Nat.add_assoc, trace_step wave powerUp quiet.final,
        clocked_state, clocked_counter1]
      simp only [state_i, counter_i, exact]
      constructor
      · rw [if_neg (by omega)]
      · push_cast
        ring

/-- E1 lasts until its counter has passed the trigger duration. -/
theorem e1_exit {i : ℕ} (quiet : Quiet wave t (t + i + 1))
    (state : (process.trace wave powerUp t).state = .e1)
    (full : (process.trace wave powerUp t).counter1 + i = 501) :
    (process.trace wave powerUp (t + i + 1)).state = .e2 := by
  obtain ⟨state_i, counter_i⟩ :=
    e1_phase quiet.init state full.le
  rw [trace_step wave powerUp quiet.final, clocked_state]
  simp only [state_i, counter_i]
  rw [if_pos (by omega)]

/-! ## E2, E3 and E4 -/

/-- E2 is kept while the synchronised echo is low. -/
theorem e2_phase {i : ℕ} (quiet : Quiet wave t (t + i))
    (state : (process.trace wave powerUp t).state = .e2)
    (low : ∀ j, j < i → (process.trace wave powerUp (t + j)).echoRR = false) :
    (process.trace wave powerUp (t + i)).state = .e2 := by
  induction i with
  | zero => exact state
  | succ i induction =>
      have state_i := induction quiet.init fun j bound => low j (bound.trans i.lt_succ_self)
      rw [← Nat.add_assoc, trace_step wave powerUp quiet.final,
        clocked_state]
      simp [state_i, low i i.lt_succ_self]

theorem e2_exit (quiet : (wave t).Quiet) (state : (process.trace wave powerUp t).state = .e2)
    (high : (process.trace wave powerUp t).echoRR = true) :
    (process.trace wave powerUp (t + 1)).state = .e3 ∧
      (process.trace wave powerUp (t + 1)).counter2 = 0 := by
  rw [trace_step wave powerUp quiet, clocked_state, clocked_counter2]
  simp [state, high]

/-- E3 is kept while the synchronised echo is high, and counts. -/
theorem e3_phase {i : ℕ} (quiet : Quiet wave t (t + i))
    (state : (process.trace wave powerUp t).state = .e3)
    (high : ∀ j, j < i → (process.trace wave powerUp (t + j)).echoRR = true) :
    (process.trace wave powerUp (t + i)).state = .e3 := by
  induction i with
  | zero => exact state
  | succ i induction =>
      have state_i := induction quiet.init fun j bound => high j (bound.trans i.lt_succ_self)
      rw [← Nat.add_assoc, trace_step wave powerUp quiet.final,
        clocked_state]
      simp [state_i, high i i.lt_succ_self]

/-- The echo counter counts the edges spent in E3. -/
theorem e3_counter2 {i : ℕ} (quiet : Quiet wave t (t + i))
    (state : ∀ j, j < i → (process.trace wave powerUp (t + j)).state = .e3)
    (cleared : (process.trace wave powerUp t).counter2 = 0) :
    (process.trace wave powerUp (t + i)).counter2 = integer i := by
  induction i with
  | zero => exact cleared
  | succ i induction =>
      have counter_i := induction quiet.init fun j bound => state j (bound.trans i.lt_succ_self)
      rw [← Nat.add_assoc, trace_step wave powerUp quiet.final,
        clocked_counter2]
      simp only [state i i.lt_succ_self, counter_i, integer_integer_add]
      push_cast
      rfl

theorem e3_exit (quiet : (wave t).Quiet) (state : (process.trace wave powerUp t).state = .e3)
    (low : (process.trace wave powerUp t).echoRR = false) :
    (process.trace wave powerUp (t + 1)).state = .e4 := by
  rw [trace_step wave powerUp quiet, clocked_state]
  simp [state, low]

theorem e4_step (quiet : (wave t).Quiet)
    (state : (process.trace wave powerUp t).state = .e4) :
    (process.trace wave powerUp (t + 1)).state = .e5 ∧
      (process.trace wave powerUp (t + 1)).counter2 =
        (process.trace wave powerUp t).counter2 ∧
      (process.trace wave powerUp (t + 1)).distCm =
        distanceOf (process.trace wave powerUp t).counter2 := by
  rw [trace_step wave powerUp quiet, clocked_state, clocked_counter2, clocked_distCm]
  simp [state]

/-! ## E5 -/

/-- E5 counts on from the echo width and is kept up to the cooldown. -/
theorem e5_phase {i : ℕ} (quiet : Quiet wave t (t + i))
    (state : (process.trace wave powerUp t).state = .e5)
    (lower : integerLow ≤ (process.trace wave powerUp t).counter2)
    (fits : (process.trace wave powerUp t).counter2 + i ≤ 5000001) :
    (process.trace wave powerUp (t + i)).state = .e5 ∧
      (process.trace wave powerUp (t + i)).counter2 =
        (process.trace wave powerUp t).counter2 + i := by
  induction i with
  | zero => simp [state]
  | succ i induction =>
      push_cast at fits
      obtain ⟨state_i, counter_i⟩ := induction quiet.init (by omega)
      have exact : integer ((process.trace wave powerUp t).counter2 + i + 1) =
          (process.trace wave powerUp t).counter2 + i + 1 :=
        integer_of_inInteger (by rw [inInteger_iff]; rw [integerLow] at lower; omega)
      rw [← Nat.add_assoc, trace_step wave powerUp quiet.final,
        clocked_state, clocked_counter2]
      simp only [state_i, counter_i, exact]
      constructor
      · rw [if_neg (by omega)]
      · push_cast
        ring

theorem e5_exit (quiet : (wave t).Quiet) (state : (process.trace wave powerUp t).state = .e5)
    (elapsed : (process.trace wave powerUp t).counter2 > 5000000) :
    (process.trace wave powerUp (t + 1)).state = .e0 := by
  rw [trace_step wave powerUp quiet, clocked_state]
  simp [state, elapsed]

end TelemetreUs
end FpgaRadar
