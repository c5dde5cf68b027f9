import FpgaRadar.TelemetreUs.Sensor
import FpgaRadar.Vhdl.Coupling

/-!
# What a measurement owes to the past

Four of the registers are not cleared by a reset and carry old data into the next cycle.  Two runs
that are in E0 agree on everything that the automaton looks at as soon as it can look at it: the
counters after one edge, and the synchroniser after two edges, when E1 has 501 more to go.
-/

namespace FpgaRadar
namespace TelemetreUs

open Vhdl

/-- What two runs with the same inputs have in common from the first edge after E0 on. -/
structure Agree (left right : Registers) : Prop where
  /-- They are in the same state. -/
  state : left.state = right.state
  /-- They have counted the same trigger duration. -/
  counter1 : left.counter1 = right.counter1
  /-- They have counted the same echo width. -/
  counter2 : left.counter2 = right.counter2
  /-- Every cycle starts with a cleared trigger counter. -/
  cleared : left.state = .e0 → left.counter1 = 0
  /-- The first sample is flushed by the edge in E0. -/
  echoR : left.state ≠ .e0 → left.echoR = right.echoR
  /-- The second sample is flushed by the first edge in E1. -/
  echoRR : left.state ≠ .e0 → (left.state = .e1 → 0 < left.counter1) →
    left.echoRR = right.echoRR

variable {left right : Registers} {wave : ℕ → Period Bool} {t u : ℕ}

/-- A reset leaves nothing to disagree on. -/
theorem agree_reset (left right : Registers) : Agree (reset left) (reset right) where
  state := rfl
  counter1 := rfl
  counter2 := rfl
  cleared _ := rfl
  echoR started := absurd rfl started
  echoRR started := absurd rfl started

/-- Nor does the edge in E0. -/
theorem agree_clocked_e0 (echo : Bool) (left_e0 : left.state = .e0) (right_e0 : right.state = .e0)
    (left_cleared : left.counter1 = 0) (right_cleared : right.counter1 = 0) :
    Agree (clocked echo left) (clocked echo right) := by
  have state := clocked_state echo left
  have counter1 := clocked_counter1 echo left
  simp only [left_e0, left_cleared] at state counter1
  constructor
  · rw [state, clocked_state, right_e0]
  · rw [counter1, clocked_counter1, right_e0, right_cleared]
  · rw [clocked_counter2, clocked_counter2, left_e0, right_e0]
  · exact fun _ => counter1
  · intro _
    rw [clocked_echoR, clocked_echoR]
  · intro _ counting
    exact absurd (counting state) (by rw [counter1]; decide)

/-- In the states that look at the synchronised echo it is the same. -/
theorem Agree.looked_at (agree : Agree left right) (not_e0 : left.state ≠ .e0)
    (not_e1 : left.state ≠ .e1) : left.echoRR = right.echoRR :=
  agree.echoRR not_e0 fun triggering => absurd triggering not_e1

theorem Agree.clocked_state_eq (agree : Agree left right) (echo : Bool) :
    (clocked echo left).state = (clocked echo right).state := by
  have looked_at := agree.looked_at
  rw [clocked_state, clocked_state, ← agree.state, ← agree.counter1, ← agree.counter2]
  cases state : left.state with
  | e2 => rw [looked_at (by simp [state]) (by simp [state])]
  | e3 => rw [looked_at (by simp [state]) (by simp [state])]
  | _ => rfl

theorem Agree.clocked_counter2_eq (agree : Agree left right) (echo : Bool) :
    (clocked echo left).counter2 = (clocked echo right).counter2 := by
  have looked_at := agree.looked_at
  rw [clocked_counter2, clocked_counter2, ← agree.state, ← agree.counter2]
  cases state : left.state with
  | e2 => rw [looked_at (by simp [state]) (by simp [state])]
  | _ => rfl

/-- Every edge keeps the agreement. -/
theorem agree_clocked (echo : Bool) (left right : Registers) (agree : Agree left right) :
    Agree (clocked echo left) (clocked echo right) where
  state := agree.clocked_state_eq echo
  counter1 := by
    rw [clocked_counter1, clocked_counter1, ← agree.state, ← agree.counter1]
  counter2 := agree.clocked_counter2_eq echo
  cleared restarted := by
    obtain ⟨cooling, _⟩ := (clocked_state_iff _ _ _).mp restarted
    rw [clocked_counter1, cooling]
  echoR _ := by rw [clocked_echoR, clocked_echoR]
  echoRR _ counting := by
    rw [clocked_echoRR, clocked_echoRR]
    apply agree.echoR
    intro starting
    have state := clocked_state echo left
    have counter1 := clocked_counter1 echo left
    simp only [starting, agree.cleared starting] at state counter1
    exact absurd (counting state) (by rw [counter1]; decide)

/-- The agreement of two runs. -/
def agreement : process.Coupling where
  Related := Agree
  reset left right _ := agree_reset left right
  clocked := agree_clocked

/-- Two runs that are both in E0 agree after one period, with or without a reset in it. -/
theorem agree_edge (left_e0 : left.state = .e0) (right_e0 : right.state = .e0)
    (left_cleared : left.counter1 = 0) (right_cleared : right.counter1 = 0)
    (period : Period Bool) : Agree (process.edge period left) (process.edge period right) := by
  cases pulse : period.resetPulse with
  | true =>
      have settled : Agree (process.settle period left) (process.settle period right) := by
        rw [process.settle_of_pulse pulse, process.settle_of_pulse pulse]
        exact agree_reset left right
      exact agreement.activate settled period.rstN true period.input
  | false =>
      rw [process.edge_of_no_pulse pulse, process.edge_of_no_pulse pulse]
      split_ifs
      · exact agree_reset left right
      · exact agree_clocked_e0 period.input left_e0 right_e0 left_cleared right_cleared

/-! ## The outputs -/

/-- Once the trigger outputs are equal they stay so. -/
def trigAgreement : process.Coupling :=
  agreement.also Registers.trig (fun _ _ same => same) fun echo left right agree same => by
    rw [process_clocked, process_clocked, clocked_trig, clocked_trig, same, agree.state]

/-- Once the distance outputs are equal they stay so. -/
def distCmAgreement : process.Coupling :=
  agreement.also Registers.distCm (fun _ _ same => same) fun echo left right agree same => by
    rw [process_clocked, process_clocked, clocked_distCm, clocked_distCm, same, agree.state,
      agree.counter2]

/-- The trigger outputs are equal after an edge in E1. -/
theorem trig_eq_of_e1 (agree : Agree (process.run wave left t) (process.run wave right t))
    (quiet : (wave t).Quiet) (state : (process.run wave left t).state = .e1) (later : t < u) :
    (process.run wave left u).trig = (process.run wave right u).trig := by
  have related : trigAgreement.Related (process.run wave left (t + 1))
      (process.run wave right (t + 1)) := by
    refine ⟨agreement.edge agree (wave t), ?_⟩
    rw [process.run_succ, process.run_succ, process.edge_of_quiet quiet,
      process.edge_of_quiet quiet, process_clocked, process_clocked, clocked_trig, clocked_trig,
      ← agree.state, state]
  exact (trigAgreement.run_of_le related later).2

/-- The distance outputs are equal after an edge in E4. -/
theorem distCm_eq_of_e4 (agree : Agree (process.run wave left t) (process.run wave right t))
    (quiet : (wave t).Quiet) (state : (process.run wave left t).state = .e4) (later : t < u) :
    (process.run wave left u).distCm = (process.run wave right u).distCm := by
  have related : distCmAgreement.Related (process.run wave left (t + 1))
      (process.run wave right (t + 1)) := by
    refine ⟨agreement.edge agree (wave t), ?_⟩
    rw [process.run_succ, process.run_succ, process.edge_of_quiet quiet,
      process.edge_of_quiet quiet, process_clocked, process_clocked, clocked_distCm,
      clocked_distCm, ← agree.state, ← agree.counter2, state, if_pos rfl, if_pos rfl]
  exact (distCmAgreement.run_of_le related later).2

/-- Every reachable E0 has a cleared trigger counter. -/
theorem counter1_of_reachable (reachable : process.Reachable left) (state : left.state = .e0) :
    left.counter1 = 0 := by
  have coherent := coherentInvariant.reachable reachable
  simp only [coherentInvariant, Coherent, state] at coherent
  exact coherent

/-- Independence of the past.  Two reachable E0 that are continued with the same waveform agree on
the state and the counters after the first edge, on the trigger after the second one if no reset
comes before it, and on the distance after the first E4. -/
theorem independent_of_past (left right : Registers) (left_reachable : process.Reachable left)
    (right_reachable : process.Reachable right) (left_e0 : left.state = .e0)
    (right_e0 : right.state = .e0) (wave : ℕ → Period Bool) :
    (∀ t, 1 ≤ t →
      (process.run wave left t).state = (process.run wave right t).state ∧
      (process.run wave left t).counter1 = (process.run wave right t).counter1 ∧
      (process.run wave left t).counter2 = (process.run wave right t).counter2) ∧
    (Quiet wave 0 2 → ∀ t, 2 ≤ t →
      (process.run wave left t).trig = (process.run wave right t).trig) ∧
    ∀ t, (wave t).Quiet → (process.run wave left t).state = .e4 → ∀ u, t < u →
      (process.run wave left u).distCm = (process.run wave right u).distCm := by
  have first : Agree (process.run wave left 1) (process.run wave right 1) :=
    agree_edge left_e0 right_e0 (counter1_of_reachable left_reachable left_e0)
      (counter1_of_reachable right_reachable right_e0) (wave 0)
  have agree : ∀ t, 1 ≤ t → Agree (process.run wave left t) (process.run wave right t) :=
    fun t later => agreement.run_of_le first later
  refine ⟨fun t later => ?_, fun quiet t later => ?_, fun t quiet state u later => ?_⟩
  · exact ⟨(agree t later).state, (agree t later).counter1, (agree t later).counter2⟩
  · have state : (process.run wave left 1).state = .e1 := by
      rw [process.run_succ, process.edge_of_quiet (quiet.period 0 (by norm_num)), process_clocked,
        ClockedProcess.run, clocked_state, left_e0]
    exact trig_eq_of_e1 first (quiet.period 1 (by norm_num)) state later
  · cases t with
    | zero =>
        rw [ClockedProcess.run, left_e0] at state
        contradiction
    | succ t => exact distCm_eq_of_e4 (agree _ (Nat.le_add_left 1 t)) quiet state later

/-- A reset and a completed measurement of one sample lead to the same next measurement. -/
theorem independent_of_past_prompt :
    (process.run (released promptEcho) (reset uninitialised) 506).counter2 =
        (process.run (released promptEcho)
          (process.trace (released promptEcho) uninitialised (restartEdge 503 4 1)) 506).counter2 ∧
      (process.run (released promptEcho) (reset uninitialised) 506).trig =
        (process.run (released promptEcho)
          (process.trace (released promptEcho) uninitialised (restartEdge 503 4 1)) 506).trig := by
  have restarted : (process.trace (released promptEcho) uninitialised
      (restartEdge 503 4 1)).state = .e0 :=
    (promptEntry_measurement (promptEntry_enters uninitialised 0)).restarts
      (inInteger_natCast (by norm_num)) (quiet_released _ _ _)
  obtain ⟨counters, trig, _⟩ := independent_of_past (reset uninitialised) _
    ⟨released promptEcho, uninitialised, 0, rfl⟩ ⟨_, _, _, rfl⟩ rfl restarted (released promptEcho)
  exact ⟨(counters 506 (by norm_num)).2.2, trig (quiet_released _ 0 2) 506 (by norm_num)⟩

end TelemetreUs
end FpgaRadar
