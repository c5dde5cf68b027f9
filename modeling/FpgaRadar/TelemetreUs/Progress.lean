import FpgaRadar.TelemetreUs.Echo

/-!
# Progress

E1 and E5 are left by their counters, but E2 waits for the echo to be high and E3 for it to be low,
without a time limit.  From any reachable state the automaton is back in E0 exactly when the sensor
answers that wait.
-/

namespace FpgaRadar
namespace TelemetreUs

open Vhdl

variable {wave : ℕ → Period Bool} {powerUp : Registers} {t u v : ℕ}

/-- The run is in E0 at some edge after `t`. -/
def ReturnsToE0 (wave : ℕ → Period Bool) (powerUp : Registers) (t : ℕ) : Prop :=
  ∃ u, t < u ∧ (process.trace wave powerUp u).state = .e0

/-- The synchronised samples that the registers and the pin will deliver. -/
def samplesFrom (registers : Registers) (echo : ℕ → Bool) : ℕ → Bool
  | 0 => registers.echoRR
  | 1 => registers.echoR
  | j + 2 => echo j

/-- Some sample from `first` on is high and a later one is low. -/
def AnswersFrom (samples : ℕ → Bool) (first : ℕ) : Prop :=
  ∃ i j, first ≤ i ∧ i < j ∧ samples i = true ∧ samples j = false

/-- The sensor answers what the automaton is waiting for. -/
def EchoCompletes (registers : Registers) (echo : ℕ → Bool) : Prop :=
  match registers.state with
  | .e0 => AnswersFrom (samplesFrom registers echo) 503
  | .e1 => AnswersFrom (samplesFrom registers echo) (502 - registers.counter1).toNat
  | .e2 => AnswersFrom (samplesFrom registers echo) 0
  | .e3 => ∃ j, samplesFrom registers echo j = false
  | .e4 | .e5 => True

theorem ReturnsToE0.of_later (returns : ReturnsToE0 wave powerUp u) (bound : t ≤ u) :
    ReturnsToE0 wave powerUp t := by
  obtain ⟨v, later, state⟩ := returns
  exact ⟨v, by omega, state⟩

/-- The automaton sees what the registers and the pin deliver. -/
theorem echoRR_eq_samplesFrom (powerUp : Registers) (quiet : ∀ v, t ≤ v → (wave v).Quiet)
    (j : ℕ) :
    (process.trace wave powerUp (t + j)).echoRR =
      samplesFrom (process.trace wave powerUp t) (fun i => (wave (t + i)).input) j := by
  match j with
  | 0 => rfl
  | 1 => exact edge_echoRR _ _ (quiet t le_rfl).2
  | j + 2 => exact echoRR_eq_input (quiet (t + j) (by omega)).2 (quiet (t + j + 1) (by omega)).2

/-! ## Each state in turn -/

theorem returns_of_e5 (quiet : ∀ v, t ≤ v → (wave v).Quiet)
    (state : (process.trace wave powerUp t).state = .e5) : ReturnsToE0 wave powerUp t := by
  have lower := (integerInvariant.trace wave powerUp t).2.1
  by_cases elapsed : (process.trace wave powerUp t).counter2 > 5000000
  · exact ⟨t + 1, by omega, e5_exit (quiet t le_rfl) state elapsed⟩
  · obtain ⟨i, i_eq⟩ : ∃ i : ℕ, (process.trace wave powerUp t).counter2 + i = 5000001 :=
      ⟨(5000001 - (process.trace wave powerUp t).counter2).toNat, by omega⟩
    obtain ⟨cooling, counter⟩ :=
      e5_phase (fun v first_le _ => quiet v first_le) state lower i_eq.le
    refine ⟨t + i + 1, by omega, e5_exit (quiet (t + i) (by omega)) cooling ?_⟩
    rw [counter, i_eq]
    norm_num

theorem returns_of_e4 (quiet : ∀ v, t ≤ v → (wave v).Quiet)
    (state : (process.trace wave powerUp t).state = .e4) : ReturnsToE0 wave powerUp t :=
  (returns_of_e5 (fun v bound => quiet v (by omega)) (e4_step (quiet t le_rfl) state).1).of_later
    (Nat.le_succ t)

/-- From E3 the automaton returns when a low sample comes. -/
theorem returns_iff_of_e3 (quiet : ∀ v, t ≤ v → (wave v).Quiet)
    (state : (process.trace wave powerUp t).state = .e3) :
    ReturnsToE0 wave powerUp t ↔
      ∃ j, (process.trace wave powerUp (t + j)).echoRR = false := by
  constructor
  · rintro ⟨u, later, restarted⟩
    obtain ⟨exit, t_lt, _, counting, left⟩ :=
      exists_exit (fun v => (process.trace wave powerUp v).state = .e3) later.le state
        (by simp [restarted])
    obtain ⟨j, rfl⟩ : ∃ j, exit = t + j + 1 := ⟨exit - (t + 1), by omega⟩
    obtain ⟨kept, _⟩ | ⟨_, low⟩ :=
      e3_succ (quiet (t + j) (by omega)) (counting (t + j) (by omega) (by omega))
    · exact absurd kept left
    · exact ⟨j, low⟩
  · intro falls
    classical
    have counting : (process.trace wave powerUp (t + Nat.find falls)).state = .e3 :=
      e3_phase (fun v first_le _ => quiet v first_le) state fun j earlier => by
        simpa using Nat.find_min falls earlier
    have converting := e3_exit (quiet _ (by omega)) counting (Nat.find_spec falls)
    exact (returns_of_e4 (fun v bound => quiet v (by omega)) converting).of_later (by omega)

/-- From E2 the automaton returns when a high sample comes and then a low one. -/
theorem returns_iff_of_e2 (quiet : ∀ v, t ≤ v → (wave v).Quiet)
    (state : (process.trace wave powerUp t).state = .e2) :
    ReturnsToE0 wave powerUp t ↔
      AnswersFrom (fun j => (process.trace wave powerUp (t + j)).echoRR) 0 := by
  constructor
  · rintro ⟨u, later, restarted⟩
    obtain ⟨m, n, measurement, _⟩ := exists_measurement later.le
      (fun v first_le _ => quiet v first_le) state (by simp [restarted]) (by simp [restarted])
    have waits_pos := measurement.waits_pos
    have counts_pos := measurement.counts_pos
    exact ⟨m - 1, m + n - 1, Nat.zero_le _, by omega, measurement.high (by omega) (by omega),
      measurement.low_after (by omega)⟩
  · rintro ⟨i, j, _, i_lt, high, low⟩
    classical
    have rises : ∃ i, (process.trace wave powerUp (t + i)).echoRR = true := ⟨i, high⟩
    have waiting : (process.trace wave powerUp (t + Nat.find rises)).state = .e2 :=
      e2_phase (fun v first_le _ => quiet v first_le) state fun j earlier => by
        simpa using Nat.find_min rises earlier
    have counting := (e2_exit (quiet _ (by omega)) waiting (Nat.find_spec rises)).1
    have first_le : Nat.find rises ≤ i := Nat.find_min' rises high
    have returns := (returns_iff_of_e3 (fun v bound => quiet v (by omega)) counting).mpr
      ⟨j - (Nat.find rises + 1), by
        rw [show t + Nat.find rises + 1 + (j - (Nat.find rises + 1)) = t + j by omega]
        exact low⟩
    exact returns.of_later (by omega)

/-- Before E2 the automaton returns exactly if it returns from E2. -/
theorem returns_iff_of_entersE2 {k : ℕ} (k_pos : 0 < k)
    (quiet : ∀ v, t ≤ v → (wave v).Quiet)
    (triggering : ∀ i, 0 < i → i < k → (process.trace wave powerUp (t + i)).state = .e1)
    (waiting : (process.trace wave powerUp (t + k)).state = .e2) :
    ReturnsToE0 wave powerUp t ↔
      AnswersFrom (fun j => (process.trace wave powerUp (t + j)).echoRR) k := by
  have shifted : AnswersFrom (fun j => (process.trace wave powerUp (t + k + j)).echoRR) 0 ↔
      AnswersFrom (fun j => (process.trace wave powerUp (t + j)).echoRR) k := by
    constructor
    · rintro ⟨i, j, _, i_lt, high, low⟩
      exact ⟨k + i, k + j, by omega, by omega, by simpa [Nat.add_assoc] using high,
        by simpa [Nat.add_assoc] using low⟩
    · rintro ⟨i, j, k_le, i_lt, high, low⟩
      obtain ⟨i, rfl⟩ := Nat.exists_eq_add_of_le k_le
      obtain ⟨j, rfl⟩ := Nat.exists_eq_add_of_le (k_le.trans i_lt.le)
      exact ⟨i, j, Nat.zero_le _, by omega, by simpa [Nat.add_assoc] using high,
        by simpa [Nat.add_assoc] using low⟩
  rw [← shifted, ← returns_iff_of_e2 (fun v bound => quiet v (by omega)) waiting]
  refine ⟨?_, fun returns => returns.of_later (by omega)⟩
  rintro ⟨u, later, restarted⟩
  refine ⟨u, ?_, restarted⟩
  by_contra! early
  obtain ⟨i, rfl⟩ : ∃ i, u = t + i := ⟨u - t, by omega⟩
  rcases (show i ≤ k by omega).eq_or_lt with rfl | earlier
  · simp [waiting] at restarted
  · simp [triggering i (by omega) earlier] at restarted

/-- From any edge of a run that keeps `rst_n` high, the automaton is back in E0 after finitely many
edges if and only if the sensor answers what it is waiting for. -/
theorem returns_iff (powerUp : Registers) (quiet : ∀ v, t ≤ v → (wave v).Quiet) :
    ReturnsToE0 wave powerUp t ↔
      EchoCompletes (process.trace wave powerUp t) fun i => (wave (t + i)).input := by
  have samples : (fun j => (process.trace wave powerUp (t + j)).echoRR) =
      samplesFrom (process.trace wave powerUp t) fun i => (wave (t + i)).input :=
    funext fun j => echoRR_eq_samplesFrom powerUp quiet j
  have quiet_to : ∀ last, Quiet wave t last := fun _ v first_le _ => quiet v first_le
  have coherent := coherent_trace wave powerUp t
  unfold EchoCompletes
  cases state : (process.trace wave powerUp t).state with
  | e0 =>
      obtain ⟨triggering, cleared, _⟩ := e0_step (quiet t le_rfl) state
      rw [← samples]
      refine returns_iff_of_entersE2 (by norm_num) quiet (fun i i_pos bound => ?_)
        (entersE2_of_e0 (quiet_to _) state).1
      rw [show t + i = t + 1 + (i - 1) by omega]
      exact (e1_phase ((quiet_to _).mono ⟨Nat.le_succ t, le_rfl⟩) triggering
        (by rw [cleared]; omega)).1
  | e1 =>
      simp only [Coherent, state] at coherent
      obtain ⟨i, i_eq⟩ : ∃ i : ℕ, (process.trace wave powerUp t).counter1 + i = 501 :=
        ⟨(501 - (process.trace wave powerUp t).counter1).toNat, by omega⟩
      have edges : (502 - (process.trace wave powerUp t).counter1).toNat = i + 1 := by omega
      simp only
      rw [← samples, edges]
      refine returns_iff_of_entersE2 (by omega) quiet (fun j _ bound => ?_)
        (e1_exit (quiet_to _) state i_eq)
      exact (e1_phase (quiet_to _) state (by omega)).1
  | e2 =>
      rw [← samples]
      exact returns_iff_of_e2 quiet state
  | e3 =>
      rw [returns_iff_of_e3 quiet state]
      simp only [fun j => echoRR_eq_samplesFrom powerUp quiet j]
  | e4 => simpa using returns_of_e4 quiet state
  | e5 => simpa using returns_of_e5 quiet state

/-- Two edges after E0 a new trigger pulse has begun. -/
theorem trig_after_e0 (echo : ℕ → Bool) (registers : Registers) {u : ℕ}
    (restarted : (process.run (released echo) registers u).state = .e0) :
    (process.run (released echo) registers (u + 2)).trig = true := by
  have triggering : (process.run (released echo) registers (u + 1)).state = .e1 := by
    rw [process.run_succ, process.edge_of_quiet ⟨rfl, rfl⟩, process_clocked, clocked_state,
      restarted]
  rw [process.run_succ, process.edge_of_quiet ⟨rfl, rfl⟩, process_clocked, clocked_trig, triggering]

/-- The measurement loop.  From every reachable state, with `rst_n` held high and any echo samples,
the automaton reaches E0 again if and only if the echo is seen high and later low from E2 on, or
low from E3 on; E4 and E5 lead back unconditionally.  Whenever it does, a new trigger pulse begins
two edges later. -/
theorem loop_returns_iff (wave : ℕ → Period Bool) (powerUp : Registers) (t : ℕ)
    (echo : ℕ → Bool) :
    ((∃ u, 0 < u ∧
        (process.run (released echo) (process.trace wave powerUp t) u).state = .e0) ↔
      EchoCompletes (process.trace wave powerUp t) echo) ∧
    ∀ u, (process.run (released echo) (process.trace wave powerUp t) u).state = .e0 →
      (process.run (released echo) (process.trace wave powerUp t) (u + 2)).trig = true := by
  refine ⟨?_, fun u => trig_after_e0 echo _⟩
  let spliced := ClockedProcess.splice wave (released echo) t
  have continues : ∀ u, process.trace spliced powerUp (t + u) =
      process.run (released echo) (process.trace wave powerUp t) u :=
    process.trace_splice wave (released echo) powerUp t
  have after : ∀ u, spliced (t + u) = released echo u := fun u => by
    simp [spliced, ClockedProcess.splice]
  have quiet : ∀ v, t ≤ v → (spliced v).Quiet := by
    intro v bound
    obtain ⟨u, rfl⟩ := Nat.exists_eq_add_of_le bound
    rw [after]
    exact ⟨rfl, rfl⟩
  have reachable : process.trace spliced powerUp t = process.trace wave powerUp t := continues 0
  have returns := returns_iff powerUp quiet
  simp only [reachable, after, released] at returns
  rw [← returns, ReturnsToE0]
  constructor
  · rintro ⟨u, u_pos, state⟩
    exact ⟨t + u, by omega, by rw [continues]; exact state⟩
  · rintro ⟨v, later, state⟩
    obtain ⟨u, rfl⟩ := Nat.exists_eq_add_of_le later.le
    exact ⟨u, by omega, by rw [← continues]; exact state⟩

/-- An echo pin that never changes leaves the automaton waiting for ever. -/
theorem not_returns_of_constant (level : Bool) (u : ℕ) :
    (process.run (released fun _ => level)
      (process.trace (released fun _ => level) uninitialised 503) u).state ≠ .e0 := by
  have continues : process.run (released fun _ => level)
      (process.trace (released fun _ => level) uninitialised 503) u =
        process.trace (released fun _ => level) uninitialised (503 + u) :=
    (process.run_add (released fun _ => level) (process.reset uninitialised) 503 u).symm
  have quiet : ∀ v, 503 ≤ v → (released (fun _ => level) v).Quiet := fun _ _ => ⟨rfl, rfl⟩
  have waiting := (entersE2_of_released fun _ => level).1
  rw [continues]
  intro restarted
  have u_pos : 0 < u := by
    rcases Nat.eq_zero_or_pos u with rfl | u_pos
    · exact absurd (waiting.symm.trans restarted) (by decide)
    · exact u_pos
  obtain ⟨i, j, _, _, high, low⟩ :=
    (returns_iff_of_e2 quiet waiting).mp ⟨503 + u, by omega, restarted⟩
  have sample : ∀ j, (process.trace (released fun _ => level) uninitialised (503 + j)).echoRR =
      level := fun j => by
    rw [show 503 + j = 501 + j + 2 by omega]
    exact echoRR_eq_input rfl rfl
  simp only [sample] at high low
  exact absurd (high.symm.trans low) (by decide)

/-- With an echo that never comes, and with one that is stuck high, E0 is not reached again. -/
theorem loop_stalls :
    ¬ (∃ u, 0 < u ∧ (process.run (released fun _ => false)
        (process.trace (released fun _ => false) uninitialised 503) u).state = .e0) ∧
      ¬ (∃ u, 0 < u ∧ (process.run (released fun _ => true)
        (process.trace (released fun _ => true) uninitialised 503) u).state = .e0) :=
  ⟨fun ⟨u, _, state⟩ => not_returns_of_constant false u state,
    fun ⟨u, _, state⟩ => not_returns_of_constant true u state⟩

end TelemetreUs
end FpgaRadar
