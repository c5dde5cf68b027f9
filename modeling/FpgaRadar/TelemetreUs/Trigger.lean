import Mathlib.Order.Interval.Finset.Nat
import FpgaRadar.TelemetreUs.Cycle

/-!
# The trigger output

Every edge is traced back to what must have happened before it: the trigger falls only in E2, E2
is entered only after 502 consecutive edges in E1, and the trigger rises only at the first edge of
E1.  With the measurement cycle of the previous file this fixes every high and low time of `trig`.
-/

namespace FpgaRadar
namespace TelemetreUs

open Vhdl

/-- The trigger output, cycle by cycle. -/
def trigWave (wave : ℕ → Period Bool) (powerUp : Registers) (t : ℕ) : Bool :=
  (process.trace wave powerUp t).trig

/-- E2 is entered: edge `q` is the first of its stretch to find the automaton in E2. -/
def EntersE2 (wave : ℕ → Period Bool) (powerUp : Registers) (q : ℕ) : Prop :=
  (process.trace wave powerUp q).state = .e2 ∧
    ∀ t, t + 1 = q → (process.trace wave powerUp t).state ≠ .e2

/-- How many of the edges `first`, ..., `last - 1` find the automaton in the given state. -/
def edgesIn (wave : ℕ → Period Bool) (powerUp : Registers) (state : StateType)
    (first last : ℕ) : ℕ :=
  ((Finset.Ico first last).filter
    fun t => (process.trace wave powerUp t).state = state).card

variable {wave : ℕ → Period Bool} {powerUp : Registers} {q m n t first last : ℕ}

/-! ## Looking back -/

/-- An edge that does not leave the automaton in E0 or E1 was not preceded by a reset. -/
theorem quiet_of_state (wave : ℕ → Period Bool) (powerUp : Registers)
    (not_e0 : (process.trace wave powerUp (t + 1)).state ≠ .e0)
    (not_e1 : (process.trace wave powerUp (t + 1)).state ≠ .e1) : (wave t).Quiet := by
  obtain step | step | ⟨quiet, _⟩ := process.trace_cases wave powerUp t
  · exact absurd (by rw [step]; rfl) not_e0
  · exact absurd (by rw [step]; rfl) not_e1
  · exact quiet

/-- E2 is reached from itself or from the last edge of E1. -/
theorem e2_pred (state : (process.trace wave powerUp (t + 1)).state = .e2) :
    (wave t).Quiet ∧
      ((process.trace wave powerUp t).state = .e2 ∨
        ((process.trace wave powerUp t).state = .e1 ∧
          (process.trace wave powerUp t).counter1 = 501)) := by
  have quiet : (wave t).Quiet := quiet_of_state wave powerUp (by simp [state]) (by simp [state])
  refine ⟨quiet, ?_⟩
  have coherent := coherent_trace wave powerUp t
  rw [trace_step wave powerUp quiet, clocked_state_iff] at state
  obtain ⟨triggering, elapsed⟩ | ⟨waiting, _⟩ := state
  · simp only [Coherent, triggering] at coherent
    exact Or.inr ⟨triggering, by omega⟩
  · exact Or.inl waiting

/-- E1 with a positive counter is reached from E1 with the counter one less. -/
theorem e1_pred (state : (process.trace wave powerUp (t + 1)).state = .e1)
    (positive : 0 < (process.trace wave powerUp (t + 1)).counter1) :
    (wave t).Quiet ∧ (process.trace wave powerUp t).state = .e1 ∧
      (process.trace wave powerUp t).counter1 + 1 =
        (process.trace wave powerUp (t + 1)).counter1 := by
  have coherent := coherent_trace wave powerUp t
  obtain step | step | ⟨quiet, step⟩ := process.trace_cases wave powerUp t
  · rw [step] at positive
    exact absurd positive (by simp [reset])
  · rw [step] at positive
    exact absurd positive (by simp [reset, clocked])
  rw [step, process_clocked] at state positive ⊢
  rw [clocked_counter1] at positive ⊢
  obtain started | ⟨triggering, _⟩ := (clocked_state_iff _ _ _).mp state
  · simp only [Coherent, started] at coherent positive
    omega
  · rw [triggering]
    exact ⟨quiet, rfl, (coherent.counter1_succ triggering).symm⟩

/-- The trigger counter is the number of edges already spent in this stretch of E1. -/
theorem e1_history (state : (process.trace wave powerUp t).state = .e1) {j : ℕ}
    (bound : (j : ℤ) ≤ (process.trace wave powerUp t).counter1) :
    ∃ u, u + j = t ∧ Quiet wave u t ∧ (process.trace wave powerUp u).state = .e1 ∧
      (process.trace wave powerUp u).counter1 + j = (process.trace wave powerUp t).counter1 := by
  induction j with
  | zero => exact ⟨t, rfl, fun v lower upper => by omega, state, by simp⟩
  | succ j induction =>
      push_cast at bound
      obtain ⟨u, rfl, quiet, state_u, counter_u⟩ := induction (by omega)
      cases u with
      | zero => simp [reset] at state_u
      | succ v =>
          obtain ⟨quiet_v, state_v, counter_v⟩ := e1_pred state_u (by omega)
          exact ⟨v, by omega, .cons quiet_v quiet, state_v, by push_cast; omega⟩

/-- E2 is entered only after 502 consecutive edges in E1, during which no reset falls. -/
theorem EntersE2.history (entry : EntersE2 wave powerUp q) :
    ∃ p, p + 502 = q ∧ Quiet wave p q ∧
      ∀ i, i < 502 → (process.trace wave powerUp (p + i)).state = .e1 ∧
        (process.trace wave powerUp (p + i)).counter1 = i := by
  obtain ⟨state, first⟩ := entry
  cases q with
  | zero => simp [reset] at state
  | succ v =>
      obtain ⟨quiet_v, waiting | ⟨state_v, counter_v⟩⟩ := e2_pred state
      · exact absurd waiting (first v rfl)
      obtain ⟨p, rfl, quiet, state_p, counter_p⟩ :=
        e1_history state_v (j := 501) (by rw [counter_v]; rfl)
      have cleared : (process.trace wave powerUp p).counter1 = 0 := by
        push_cast at counter_p
        omega
      refine ⟨p, rfl, .snoc quiet quiet_v, fun i bound => ?_⟩
      simpa [cleared] using
        e1_phase (i := i) (quiet.mono (by omega)) state_p (by rw [cleared]; omega)

/-- A cycle that starts in E0 without a reset enters E2 after 503 edges. -/
theorem entersE2_of_e0 (quiet : Quiet wave t (t + 503))
    (state : (process.trace wave powerUp t).state = .e0) :
    EntersE2 wave powerUp (t + 503) := by
  obtain ⟨triggering, cleared, _⟩ := e0_step (quiet.period t (by omega)) state
  constructor
  · exact e1_exit (i := 501) (quiet.mono (by omega)) triggering (by rw [cleared]; rfl)
  · intro u u_eq
    obtain rfl : u = t + 1 + 501 := by omega
    rw [(e1_phase (i := 501) (quiet.mono (by omega)) triggering
      (by rw [cleared]; rfl)).1]
    simp

/-- A run that is never reset again enters E2 for the first time at edge 503. -/
theorem entersE2_of_released (echo : ℕ → Bool) : EntersE2 (released echo) uninitialised 503 :=
  entersE2_of_e0 (t := 0) (quiet_released echo 0 503) rfl

/-- The trigger output changes only in E1 and in E2. -/
theorem trig_succ (wave : ℕ → Period Bool) (powerUp : Registers) (t : ℕ) :
    trigWave wave powerUp (t + 1) = trigWave wave powerUp t ∨
      ((wave t).Quiet ∧
        (((process.trace wave powerUp t).state = .e1 ∧ trigWave wave powerUp (t + 1) = true) ∨
          ((process.trace wave powerUp t).state = .e2 ∧
            trigWave wave powerUp (t + 1) = false))) := by
  unfold trigWave
  obtain step | step | ⟨quiet, step⟩ := process.trace_cases wave powerUp t
  · exact Or.inl (by rw [step]; rfl)
  · exact Or.inl (by rw [step]; rfl)
  · rw [step, process_clocked, clocked_trig]
    cases state : (process.trace wave powerUp t).state <;> simp [quiet]

/-- Every edge in E1 drives the trigger output high. -/
theorem trig_high_of_e1 (quiet : (wave t).Quiet)
    (state : (process.trace wave powerUp t).state = .e1) :
    trigWave wave powerUp (t + 1) = true := by
  rw [trigWave, trace_step wave powerUp quiet, clocked_trig, state]

/-- Every edge in E2 drives it low. -/
theorem trig_low_of_e2 (quiet : (wave t).Quiet)
    (state : (process.trace wave powerUp t).state = .e2) :
    trigWave wave powerUp (t + 1) = false := by
  rw [trigWave, trace_step wave powerUp quiet, clocked_trig, state]

/-- The trigger output falls at the edge that enters E2. -/
theorem entersE2_of_falls (high : trigWave wave powerUp t = true)
    (low : trigWave wave powerUp (t + 1) = false) : EntersE2 wave powerUp t := by
  rcases trig_succ wave powerUp t with kept | ⟨_, ⟨_, rises⟩ | ⟨state, _⟩⟩
  · rw [kept, high] at low
    contradiction
  · rw [rises] at low
    contradiction
  · refine ⟨state, ?_⟩
    rintro u rfl waiting
    have low_u := trig_low_of_e2 (e2_pred state).1 waiting
    rw [high] at low_u
    contradiction

/-- The trigger output rises at the first edge of E1. -/
theorem e1_of_rises (rises : RisesAt (trigWave wave powerUp) t) :
    (wave t).Quiet ∧ (process.trace wave powerUp t).state = .e1 ∧
      (process.trace wave powerUp t).counter1 = 0 := by
  obtain ⟨low, high⟩ := rises
  rcases trig_succ wave powerUp t with kept | ⟨quiet, ⟨state, _⟩ | ⟨_, falls⟩⟩
  · rw [kept, low] at high
    contradiction
  · have coherent := coherent_trace wave powerUp t
    simp only [Coherent, state] at coherent
    refine ⟨quiet, state, ?_⟩
    by_contra! positive
    rw [trigWave, coherent.2.2 (by omega)] at low
    contradiction
  · rw [falls] at high
    contradiction

/-! ## High and low times -/

/-- Every complete trigger pulse contains 502 consecutive edges of E1. -/
theorem trigger_pulse_long (pulse : Pulse (trigWave wave powerUp) first last) :
    first + 502 ≤ last := by
  have nonempty := pulse.nonempty
  obtain ⟨u, rfl⟩ : ∃ u, last = u + 1 := ⟨last - 1, by omega⟩
  obtain ⟨p, rfl, quiet, triggering⟩ :=
    (entersE2_of_falls (pulse.high u (by omega) (by omega)) pulse.after).history
  have first_le : first ≤ p + 1 := by
    apply pulse.first_le
    intro t lower upper
    obtain ⟨i, rfl⟩ : ∃ i, t = p + i + 1 := ⟨t - (p + 1), by omega⟩
    exact trig_high_of_e1 (quiet.period (p + i) (by omega)) (triggering i (by omega)).1
  omega

/-- A trigger pulse without a reset lasts exactly 502 cycles. -/
theorem trigger_pulse_exact (pulse : Pulse (trigWave wave powerUp) first last)
    (started : 0 < first) (quiet : Quiet wave first last) : last = first + 502 := by
  have long := trigger_pulse_long pulse
  obtain ⟨v, rfl⟩ : ∃ v, first = v + 1 := ⟨first - 1, by omega⟩
  obtain ⟨quiet_v, state, cleared⟩ :=
    e1_of_rises ⟨pulse.before v rfl, pulse.high (v + 1) le_rfl pulse.nonempty⟩
  have quiet_all : Quiet wave v last := .cons quiet_v quiet
  have waiting : (process.trace wave powerUp (v + 501 + 1)).state = .e2 :=
    e1_exit (quiet_all.mono (by omega)) state (by rw [cleared]; rfl)
  have low : trigWave wave powerUp (v + 501 + 1 + 1) = false :=
    trig_low_of_e2 (quiet_all.period (v + 501 + 1) (by omega)) waiting
  exact le_antisymm (pulse.last_le (by omega) low) long

/-- Between two trigger pulses without a reset lies exactly one measurement, and the second pulse
starts at the first edge of E1 after its cooldown. -/
theorem exists_measurement_of_gap (gap : Gap (trigWave wave powerUp) (q + 1) last)
    (quiet : Quiet wave (q + 1) last) :
    ∃ m n, Measurement wave powerUp q m n ∧ q + m + n < last ∧
      (InInteger n → last = restartEdge q m n + 2) := by
  obtain ⟨u, rfl⟩ : ∃ u, last = u + 1 := ⟨last - 1, by have := gap.nonempty; omega⟩
  have high : trigWave wave powerUp q = true := by
    obtain ⟨t, t_eq, high⟩ := gap.before
    obtain rfl : t = q := by omega
    exact high
  have low := gap.low (q + 1) le_rfl gap.nonempty
  have waiting := (entersE2_of_falls high low).1
  have quiet_q : (wave q).Quiet := by
    rcases trig_succ wave powerUp q with kept | ⟨quiet_q, _⟩
    · rw [kept, high] at low
      contradiction
    · exact quiet_q
  have quiet_all : Quiet wave q (u + 1) := .cons quiet_q quiet
  have nonempty := gap.nonempty
  obtain ⟨_, triggering, _⟩ := e1_of_rises ⟨gap.low u (by omega) (by omega), gap.after⟩
  have q_le : q ≤ u := by omega
  obtain ⟨m, n, measurement, bound⟩ := exists_measurement q_le
    (quiet_all.mono (by omega)) waiting (by simp [triggering]) (by simp [triggering])
  refine ⟨m, n, measurement, by omega, fun exact => le_antisymm ?_ ?_⟩
  · by_contra! later
    have state := measurement.state_eq exact (t := restartEdge q m n + 1)
      (quiet_all.mono (by omega)) (by rw [restartEdge]; omega) le_rfl
    have rises : trigWave wave powerUp (restartEdge q m n + 1 + 1) = true := by
      rw [trigWave, trace_step wave powerUp (quiet_all _ (by rw [restartEdge]; omega) (by omega)),
        clocked_trig, state]
      split_ifs <;> first | rfl | (rw [restartEdge] at *; omega)
    rw [gap.low _ (by rw [restartEdge]; omega) (by omega)] at rises
    contradiction
  · by_contra! earlier
    have still_low := measurement.trig_low exact (t := u + 1) quiet_all (by omega) (by omega)
    have rises : trigWave wave powerUp (u + 1) = true := gap.after
    rw [trigWave, still_low] at rises
    contradiction

/-- A measurement without a reset lies between two trigger pulses. -/
theorem Measurement.gap (measurement : Measurement wave powerUp q m n)
    (entry : EntersE2 wave powerUp q) (exact : InInteger n)
    (quiet : Quiet wave q (restartEdge q m n + 2)) :
    Gap (trigWave wave powerUp) (q + 1) (restartEdge q m n + 2) where
  before := by
    obtain ⟨p, rfl, quiet_e1, triggering⟩ := entry.history
    exact ⟨p + 501 + 1, rfl,
      trig_high_of_e1 (quiet_e1.period (p + 501) (by omega)) (triggering 501 (by norm_num)).1⟩
  nonempty := by
    rw [restartEdge]
    omega
  low t lower upper := measurement.trig_low exact (quiet.mono ⟨le_rfl, upper.le⟩) lower (by omega)
  after := by
    have restarted := measurement.restarts exact (quiet.mono ⟨le_rfl, Nat.le_add_right _ 2⟩)
    have begun : q ≤ restartEdge q m n := by
      rw [restartEdge]
      omega
    exact trig_high_of_e1 (quiet _ (by omega) (by omega))
      (e0_step (quiet _ begun (by omega)) restarted).1

/-- Counting the edges of one stretch of a state. -/
theorem edgesIn_eq {state : StateType} (start stop : ℕ) (first_le : first ≤ start)
    (le_last : stop ≤ last)
    (stretch : ∀ t, first ≤ t → t < last →
      ((process.trace wave powerUp t).state = state ↔ start ≤ t ∧ t < stop)) :
    edgesIn wave powerUp state first last = stop - start := by
  have interval : (Finset.Ico first last).filter
      (fun t => (process.trace wave powerUp t).state = state) = Finset.Ico start stop := by
    ext t
    simp only [Finset.mem_filter, Finset.mem_Ico]
    constructor
    · rintro ⟨⟨lower, upper⟩, found⟩
      exact (stretch t lower upper).mp found
    · rintro ⟨lower, upper⟩
      have inside : first ≤ t ∧ t < last := ⟨first_le.trans lower, upper.trans_le le_last⟩
      exact ⟨inside, (stretch t inside.1 inside.2).mpr ⟨lower, upper⟩⟩
  rw [edgesIn, interval, Nat.card_Ico]

/-- A measurement spends at least its `n` edges in E3. -/
theorem Measurement.le_edgesIn_e3 (measurement : Measurement wave powerUp q m n)
    (bound : q + m + n ≤ last) : n ≤ edgesIn wave powerUp .e3 q last := by
  have subset : Finset.Ico (q + m) (q + m + n) ⊆ (Finset.Ico q last).filter
      (fun t => (process.trace wave powerUp t).state = .e3) := by
    intro t inside
    simp only [Finset.mem_Ico] at inside
    simp only [Finset.mem_filter, Finset.mem_Ico]
    exact ⟨by omega, measurement.counts t inside.1 inside.2⟩
  have card := Finset.card_le_card subset
  rw [Nat.card_Ico] at card
  rw [edgesIn]
  omega

/-- The edge counts of a complete cycle. -/
theorem Measurement.edgesIn_cycle (measurement : Measurement wave powerUp q m n)
    (exact : InInteger n) (quiet : Quiet wave q (restartEdge q m n + 2)) :
    edgesIn wave powerUp .e2 q (restartEdge q m n + 2) = m ∧
      edgesIn wave powerUp .e3 q (restartEdge q m n + 2) = n ∧
      edgesIn wave powerUp .e4 q (restartEdge q m n + 2) = 1 := by
  have restart_eq : restartEdge q m n = q + m + n + (5000001 - n) + 2 := rfl
  have state := fun t lower (upper : t < restartEdge q m n + 2) =>
    measurement.state_eq exact (t := t) (quiet.mono ⟨le_rfl, upper.le⟩) lower (by omega)
  refine ⟨?_, ?_, ?_⟩
  · rw [edgesIn_eq q (q + m) le_rfl (by omega)]
    · omega
    · intro t lower upper
      rw [state t lower upper]
      split_ifs <;> simp <;> omega
  · rw [edgesIn_eq (q + m) (q + m + n) (by omega) (by omega)]
    · omega
    · intro t lower upper
      rw [state t lower upper]
      split_ifs <;> simp <;> omega
  · rw [edgesIn_eq (q + m + n) (q + m + n + 1) (by omega) (by omega)]
    · omega
    · intro t lower upper
      rw [state t lower upper]
      split_ifs <;> simp <;> omega

/-- Only an edge in E4 changes the distance output. -/
theorem distCm_succ (wave : ℕ → Period Bool) (powerUp : Registers)
    (state : (process.trace wave powerUp t).state ≠ .e4) :
    (process.trace wave powerUp (t + 1)).distCm = (process.trace wave powerUp t).distCm := by
  obtain step | step | ⟨_, step⟩ := process.trace_cases wave powerUp t
  · rw [step]
    rfl
  · rw [step]
    rfl
  · rw [step, process_clocked, clocked_distCm, if_neg state]

/-- The trigger protocol.  Every complete pulse of `trig` lasts at least 502 cycles, and exactly
502 when no reset falls inside it (a pulse that is already there at the reset with which the run
begins has one inside).  Between two pulses without a reset there is one E4, and with `m` edges in
E2 and `n` edges in E3 the output is low for `m + max 5000004 (n + 3)` cycles. -/
theorem trigger_protocol (wave : ℕ → Period Bool) (powerUp : Registers) :
    (∀ first last, Pulse (trigWave wave powerUp) first last →
      first + 502 ≤ last ∧ (0 < first → Quiet wave first last → last = first + 502)) ∧
    (∀ first last, Gap (trigWave wave powerUp) first last → Quiet wave first last →
      ∀ m n, edgesIn wave powerUp .e2 (first - 1) last = m →
        edgesIn wave powerUp .e3 (first - 1) last = n → InInteger n →
        1 ≤ m ∧ 1 ≤ n ∧ edgesIn wave powerUp .e4 (first - 1) last = 1 ∧
        (∀ t, first - 1 ≤ t → t < last → (process.trace wave powerUp t).state ≠ .e4 →
          (process.trace wave powerUp (t + 1)).distCm =
            (process.trace wave powerUp t).distCm) ∧
        last = first + (m + max 5000004 (n + 3)) ∧
        moduleCooldownTicks < (last : ℤ) - first) := by
  refine ⟨fun first last pulse =>
    ⟨trigger_pulse_long pulse, fun started => trigger_pulse_exact pulse started⟩, ?_⟩
  intro first last gap quiet m' n' waits counts exact
  obtain ⟨q, rfl, high⟩ := gap.before
  rw [Nat.add_sub_cancel] at waits counts ⊢
  obtain ⟨m, n, measurement, bound, ends⟩ := exists_measurement_of_gap gap quiet
  have exact_n : InInteger n := by
    have le := measurement.le_edgesIn_e3 bound.le
    rw [inInteger_iff] at exact ⊢
    omega
  obtain rfl := ends exact_n
  have quiet_all : Quiet wave q (restartEdge q m n + 2) :=
    .cons (measurement.quiet q le_rfl (by have := measurement.waits_pos; omega)) quiet
  obtain ⟨edges_e2, edges_e3, edges_e4⟩ := measurement.edgesIn_cycle exact_n quiet_all
  obtain rfl : m = m' := by rw [← waits, edges_e2]
  obtain rfl : n = n' := by rw [← counts, edges_e3]
  refine ⟨measurement.waits_pos, measurement.counts_pos, edges_e4,
    fun t _ _ state => distCm_succ wave powerUp state, ?_, ?_⟩
  · rw [restartEdge]
    omega
  · rw [restartEdge, moduleCooldownTicks]
    omega

/-- A single echo pulse on the pin. -/
def echoPulse (first width t : ℕ) : Bool := decide (first ≤ t ∧ t < first + width)

/-- What is left of an echo pulse when E2 is first entered is measured in the first cycle. -/
theorem measurement_of_echoPulse {first width n : ℕ} (first_le : first ≤ 501)
    (ends : first + width = 501 + n) (n_pos : 1 ≤ n) :
    Measurement (released (echoPulse first width)) uninitialised 503 1 n :=
  measurement_of_echo (q := 503) (a := 501) (quiet_released _ _ _) (by norm_num)
    (entersE2_of_released _).1 rfl le_rfl n_pos (fun u lower upper => by omega)
    (fun u lower upper => by simp [released, echoPulse]; omega)
    (by simp [released, echoPulse]; omega)

/-- The first trigger pulse of a run that is never reset again. -/
theorem first_trigger_pulse (echo : ℕ → Bool) :
    Pulse (trigWave (released echo) uninitialised) 2 504 where
  nonempty := by norm_num
  high t lower upper := by
    obtain ⟨p, p_eq, _, triggering⟩ := (entersE2_of_released echo).history
    obtain ⟨i, rfl⟩ : ∃ i, t = p + i + 1 := ⟨t - 2, by omega⟩
    exact trig_high_of_e1 ⟨rfl, rfl⟩ (triggering i (by omega)).1
  before t t_eq := by
    obtain rfl : t = 1 := by omega
    rw [trigWave, trace_step _ _ ⟨rfl, rfl⟩, clocked_trig]
    rfl
  after := trig_low_of_e2 ⟨rfl, rfl⟩ (entersE2_of_released echo).1

/-- The first pulse and the gap after it, with the shortest echo that is measured in full. -/
theorem trigger_protocol_one_sample :
    Pulse (trigWave (released (echoPulse 501 1)) uninitialised) 2 504 ∧ 504 = 2 + 502 ∧
      Gap (trigWave (released (echoPulse 501 1)) uninitialised) 504 5000509 ∧
      edgesIn (released (echoPulse 501 1)) uninitialised .e4 503 5000509 = 1 ∧
      5000509 = 504 + (1 + max 5000004 (1 + 3)) := by
  have measurement : Measurement (released (echoPulse 501 1)) uninitialised 503 1 1 :=
    measurement_of_echoPulse le_rfl rfl le_rfl
  have exact : InInteger (1 : ℕ) := inInteger_natCast (by norm_num)
  have pulse := first_trigger_pulse (echoPulse 501 1)
  have gap := measurement.gap (entersE2_of_released _) exact (quiet_released _ _ _)
  obtain ⟨waits, counts, _⟩ := measurement.edgesIn_cycle exact (quiet_released _ _ _)
  obtain ⟨pulses, gaps⟩ := trigger_protocol (released (echoPulse 501 1)) uninitialised
  obtain ⟨_, _, converts, _, last, _⟩ :=
    gaps 504 5000509 gap (quiet_released _ _ _) 1 1 waits counts exact
  exact ⟨pulse, (pulses 2 504 pulse).2 two_pos (quiet_released _ _ _), gap, converts, last⟩

end TelemetreUs
end FpgaRadar
