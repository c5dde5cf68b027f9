import FpgaRadar.TelemetreUs.Trigger

/-!
# The trigger output under resets

The reset branch restarts the automaton but does not drive `trig`, which keeps whatever the last
edge gave it.  It is high exactly in the cycles that follow an edge in E1, so a reset is safe if and
only if it does not come there.
-/

namespace FpgaRadar
namespace TelemetreUs

open Vhdl

/-- The trigger output is not sent into a reset and never for too long. -/
structure TriggerSafe (wave : ℕ → Period Bool) (powerUp : Registers) : Prop where
  /-- After the first clocked cycle the output is low whenever `rst_n` is. -/
  low_in_reset : ∀ t u, t < u → (wave t).rstN = true → ¬ (wave u).Quiet →
    trigWave wave powerUp u = false
  /-- The output is not high for more than 502 consecutive cycles. -/
  bounded : ∀ t, ∃ i, i ≤ 502 ∧ trigWave wave powerUp (t + i) = false

/-- Edge `t` is executed in E1. -/
def ExecutesE1 (wave : ℕ → Period Bool) (powerUp : Registers) (t : ℕ) : Prop :=
  (wave t).Quiet ∧ (process.trace wave powerUp t).state = .e1

/-- `rst_n` does not go low in a cycle that follows an edge in E1. -/
def ResetsSpareE1 (wave : ℕ → Period Bool) (powerUp : Registers) : Prop :=
  ∀ t, ExecutesE1 wave powerUp t → (wave (t + 1)).Quiet

variable {wave : ℕ → Period Bool} {powerUp : Registers} {t : ℕ}

theorem ExecutesE1.trig (executes : ExecutesE1 wave powerUp t) :
    trigWave wave powerUp (t + 1) = true :=
  trig_high_of_e1 executes.1 executes.2

theorem ExecutesE1.state (executes : ExecutesE1 wave powerUp t) :
    (process.trace wave powerUp (t + 1)).state = .e1 ∨
      (process.trace wave powerUp (t + 1)).state = .e2 := by
  rw [trace_step wave powerUp executes.1, clocked_state, executes.2]
  simp only
  split_ifs
  · exact Or.inr rfl
  · exact Or.inl rfl

/-- With such resets the trigger output is high only after an edge in E1. -/
theorem ResetsSpareE1.executesE1 (spares : ResetsSpareE1 wave powerUp)
    (unassigned : powerUp.trig = false) (high : trigWave wave powerUp t = true) :
    ∃ v, v + 1 = t ∧ ExecutesE1 wave powerUp v := by
  induction t with
  | zero =>
      have low : trigWave wave powerUp 0 = false := unassigned
      rw [low] at high
      contradiction
  | succ t induction =>
      rcases trig_succ wave powerUp t with kept | ⟨quiet, ⟨state, _⟩ | ⟨_, falls⟩⟩
      · rw [kept] at high
        obtain ⟨v, rfl, executes⟩ := induction high
        have quiet := spares v executes
        rcases executes.state with triggering | waiting
        · exact ⟨v + 1, rfl, quiet, triggering⟩
        · have low := trig_low_of_e2 quiet waiting
          rw [kept, high] at low
          contradiction
      · exact ⟨t, rfl, quiet, state⟩
      · rw [falls] at high
        contradiction

/-- E1 is not executed at 503 edges in a row. -/
theorem exists_not_executesE1 (wave : ℕ → Period Bool) (powerUp : Registers) (t : ℕ) :
    ∃ i, i ≤ 502 ∧ ¬ ExecutesE1 wave powerUp (t + i) := by
  by_contra! executes
  have quiet : Quiet wave t (t + 503) := by
    intro u lower upper
    obtain ⟨i, rfl⟩ := Nat.exists_eq_add_of_le lower
    exact (executes i (by omega)).1
  have triggering := (executes 0 (by norm_num)).2
  have coherent := coherent_trace wave powerUp t
  rw [Nat.add_zero] at triggering
  simp only [Coherent, triggering] at coherent
  obtain ⟨j, full⟩ : ∃ j : ℕ, (process.trace wave powerUp t).counter1 + j = 501 :=
    ⟨(501 - (process.trace wave powerUp t).counter1).toNat, by omega⟩
  have waiting := e1_exit (quiet.mono (by omega)) triggering full
  rw [Nat.add_assoc, (executes (j + 1) (by omega)).2] at waiting
  contradiction

theorem ResetsSpareE1.triggerSafe (spares : ResetsSpareE1 wave powerUp)
    (unassigned : powerUp.trig = false) : TriggerSafe wave powerUp where
  low_in_reset t u _ _ not_quiet := by
    by_contra high
    obtain ⟨v, rfl, executes⟩ := spares.executesE1 unassigned (Bool.eq_true_of_not_eq_false high)
    exact not_quiet (spares v executes)
  bounded t := by
    obtain ⟨i, i_le, idle⟩ := exists_not_executesE1 wave powerUp (t - 1)
    by_contra! high
    cases t with
    | zero =>
        obtain ⟨v, v_eq, _⟩ := spares.executesE1 unassigned
          (Bool.eq_true_of_not_eq_false (high 0 (Nat.zero_le _)))
        omega
    | succ v =>
        obtain ⟨w, w_eq, executes⟩ := spares.executesE1 unassigned
          (Bool.eq_true_of_not_eq_false (high i i_le))
        obtain rfl : w = v + i := by omega
        exact idle executes

/-- Reset safety of the trigger output.  The output is not '1' before it has been assigned; then it
is low in every reset after the first clocked cycle, and never high for more than 502 cycles, if and
only if `rst_n` goes low in no cycle that follows an edge in E1. -/
theorem triggerSafe_iff (wave : ℕ → Period Bool) (powerUp : Registers)
    (unassigned : powerUp.trig = false) :
    TriggerSafe wave powerUp ↔ ResetsSpareE1 wave powerUp := by
  constructor
  · intro safe t executes
    by_contra not_quiet
    have low := safe.low_in_reset t (t + 1) t.lt_succ_self executes.1.2 not_quiet
    rw [executes.trig] at low
    contradiction
  · exact fun spares => spares.triggerSafe unassigned

/-- A run that is never reset again is safe. -/
theorem triggerSafe_released : TriggerSafe (released fun _ => false) uninitialised :=
  (triggerSafe_iff (released fun _ => false) uninitialised rfl).mpr fun _ _ => ⟨rfl, rfl⟩

/-- A reset that comes after the first edge in E1 and is held from then on. -/
def resetInE1 (t : ℕ) : Period Bool where
  resetPulse := false
  rstN := decide (t < 2)
  input := false

/-- With it the trigger output stays high for ever. -/
theorem reset_in_e1_holds_trigger :
    (∀ t, 2 ≤ t → (resetInE1 t).rstN = false ∧ trigWave resetInE1 uninitialised t = true) ∧
      ¬ TriggerSafe resetInE1 uninitialised := by
  have held : ∀ t, 2 ≤ t → (resetInE1 t).rstN = false ∧
      trigWave resetInE1 uninitialised t = true := by
    intro t later
    refine ⟨decide_eq_false (not_lt.mpr later), ?_⟩
    induction t, later using Nat.le_induction with
    | base => decide
    | succ t later induction =>
        rcases trig_succ resetInE1 uninitialised t with kept | ⟨quiet, _⟩
        · rw [kept]
          exact induction
        · have level : (resetInE1 t).rstN = false := decide_eq_false (not_lt.mpr later)
          rw [quiet.2] at level
          contradiction
  refine ⟨held, fun safe => ?_⟩
  obtain ⟨i, _, low⟩ := safe.bounded 2
  rw [(held (2 + i) (Nat.le_add_right 2 i)).2] at low
  contradiction

end TelemetreUs
end FpgaRadar
