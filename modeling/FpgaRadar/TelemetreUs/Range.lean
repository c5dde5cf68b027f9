import FpgaRadar.TelemetreUs.Echo

/-!
# Arithmetic range

The trigger counter never leaves `INTEGER`.  The echo counter has no upper bound in E3, so whether
its sums and the product in E4 stay in range depends on how long the echo pin stays high once E3
has been entered; this file gives the exact condition.
-/

namespace FpgaRadar
namespace TelemetreUs

open Vhdl

variable {wave : ℕ → Period Bool} {powerUp : Registers} {c i n t : ℕ}

/-- The exact value of every `INTEGER` operation of the clocked branch is in range, and the
argument of `to_unsigned` is a `NATURAL`. -/
def OperationsExact (registers : Registers) : Prop :=
  match registers.state with
  | .e0 | .e2 => True
  | .e1 => InInteger (registers.counter1 + 1)
  | .e3 | .e5 => InInteger (registers.counter2 + 1)
  | .e4 =>
      InInteger (registers.counter2 * 343) ∧
        0 ≤ (integer (registers.counter2 * 343)).tdiv 1000000

/-- The counters stay in range and no operation executed by the run leaves it. -/
def ArithmeticSafe (wave : ℕ → Period Bool) (powerUp : Registers) : Prop :=
  ∀ t, InInteger (process.trace wave powerUp t).counter1 ∧
    InInteger (process.trace wave powerUp t).counter2 ∧
    ((wave t).rstN = true →
      OperationsExact (process.settle (wave t) (process.trace wave powerUp t)))

/-- E3 is entered: edge `c` is the first of its stretch to find the automaton in E3. -/
def StartsCounting (wave : ℕ → Period Bool) (powerUp : Registers) (c : ℕ) : Prop :=
  (process.trace wave powerUp c).state = .e3 ∧
    ∀ t, t + 1 = c → (process.trace wave powerUp t).state ≠ .e3

/-- The pins keep an E3 that is entered at edge `c` for at least `i` edges: no reset comes, and the
echo pin is high at the edges `c - 2`, ..., `c + i - 4`. -/
def EchoHeld (wave : ℕ → Period Bool) (c i : ℕ) : Prop :=
  Quiet wave c (c + i) ∧ ∀ u, c ≤ u + 2 → u + 3 < c + i → (wave u).input = true

/-- The pins end an E3 that is entered at edge `c` after exactly `n` edges and let E4 execute. -/
def EchoFalls (wave : ℕ → Period Bool) (c n : ℕ) : Prop :=
  1 ≤ n ∧ EchoHeld wave c n ∧ (∀ u, u + 3 = c + n → (wave u).input = false) ∧
    (wave (c + n)).Quiet

/-- Every echo that is counted to its end falls within 6260885 edges (about 125ms), and no echo is
counted for 2147483648 edges. -/
def EchoesShort (wave : ℕ → Period Bool) (powerUp : Registers) : Prop :=
  ∀ c, StartsCounting wave powerUp c →
    (∀ n, EchoFalls wave c n → n ≤ 6260885) ∧ ¬ EchoHeld wave c 2147483648

theorem EchoHeld.mono (held : EchoHeld wave c n) (bound : i ≤ n) : EchoHeld wave c i :=
  ⟨held.1.mono (by omega), fun u lower upper => held.2 u lower (by omega)⟩

/-- E3 is entered with a cleared counter, and no reset falls on the two edges before. -/
theorem StartsCounting.history (starts : StartsCounting wave powerUp c) :
    ∃ b, b + 2 = c ∧ Quiet wave b c ∧ (process.trace wave powerUp c).counter2 = 0 := by
  obtain ⟨counting, first⟩ := starts
  obtain ⟨v, rfl⟩ : ∃ v, c = v + 1 := by
    cases c with
    | zero => simp [reset] at counting
    | succ v => exact ⟨v, rfl⟩
  obtain ⟨quiet_v, before | entered⟩ := measuring_pred wave powerUp (t := v) (by simp [counting])
  · have waiting : (process.trace wave powerUp v).state = .e2 := by
      simpa [first v rfl] using before
    obtain ⟨w, rfl⟩ : ∃ w, v = w + 1 := by
      cases v with
      | zero => simp [reset] at waiting
      | succ w => exact ⟨w, rfl⟩
    obtain ⟨quiet_w, _⟩ := e2_pred waiting
    refine ⟨w, rfl, .cons quiet_w (.cons quiet_v fun u lower upper => by omega), ?_⟩
    obtain ⟨kept, _⟩ | ⟨_, high⟩ := e2_succ quiet_v waiting
    · simp [counting] at kept
    · exact (e2_exit quiet_v waiting high).2
  · simp [counting] at entered

/-- While the pins keep E3 its edges see the samples taken two edges earlier. -/
theorem StartsCounting.echoRR_eq (starts : StartsCounting wave powerUp c)
    (quiet : Quiet wave c (c + i)) {u : ℕ} (lower : c ≤ u + 2) (upper : u + 2 ≤ c + i) :
    (process.trace wave powerUp (u + 2)).echoRR = (wave u).input := by
  obtain ⟨b, rfl, quiet_b, _⟩ := starts.history
  have quiet_all : Quiet wave b (b + 2 + i) := quiet_b.append quiet
  exact echoRR_eq_input (quiet_all.period u (by omega)).2 (quiet_all.period (u + 1) (by omega)).2

/-- The pins keep E3, and the counter counts. -/
theorem StartsCounting.counts (starts : StartsCounting wave powerUp c)
    (held : EchoHeld wave c i) :
    (∀ j, j < i → (process.trace wave powerUp (c + j)).state = .e3) ∧
      (process.trace wave powerUp (c + i)).counter2 = integer i := by
  obtain ⟨b, b_eq, _, cleared⟩ := starts.history
  have counting : ∀ j, j < i → (process.trace wave powerUp (c + j)).state = .e3 := by
    intro j bound
    apply e3_phase (held.1.mono (by omega)) starts.1
    intro k earlier
    rw [show c + k = b + k + 2 by omega,
      starts.echoRR_eq held.1 (by omega) (by omega)]
    exact held.2 (b + k) (by omega) (by omega)
  exact ⟨counting, e3_counter2 held.1 counting cleared⟩

/-- The last edge for which the pins keep E3 is executed with all edges before it counted. -/
theorem StartsCounting.counts_last (starts : StartsCounting wave powerUp c)
    (held : EchoHeld wave c (i + 1)) :
    (wave (c + i)).Quiet ∧ (process.trace wave powerUp (c + i)).state = .e3 ∧
      (process.trace wave powerUp (c + i)).counter2 = integer i :=
  ⟨held.1 (c + i) (by omega) (by omega), (starts.counts held).1 i (by omega),
    (starts.counts (held.mono i.le_succ)).2⟩

/-- The pins end E3 in an executed E4. -/
theorem StartsCounting.converts (starts : StartsCounting wave powerUp c)
    (falls : EchoFalls wave c n) :
    (process.trace wave powerUp (c + n)).state = .e4 ∧
      (process.trace wave powerUp (c + n)).counter2 = integer n := by
  obtain ⟨n_pos, held, low, _⟩ := falls
  obtain ⟨counting, counted⟩ := starts.counts held
  obtain ⟨b, b_eq, _⟩ := starts.history
  refine ⟨?_, counted⟩
  rw [show c + n = c + (n - 1) + 1 by omega]
  apply e3_exit (held.1.period _ (by omega)) (counting (n - 1) (Nat.sub_lt n_pos Nat.one_pos))
  rw [show c + (n - 1) = b + (n - 1) + 2 by omega,
    starts.echoRR_eq held.1 (by omega) (by omega)]
  exact low _ (by omega)

/-- Every edge in E3 belongs to a stretch that the pins have kept since it was entered. -/
theorem exists_startsCounting (quiet : (wave t).Quiet)
    (state : (process.trace wave powerUp t).state = .e3) :
    ∃ c i, StartsCounting wave powerUp c ∧ t = c + i ∧ EchoHeld wave c (i + 1) := by
  obtain ⟨v, v_lt, outside, inside⟩ :=
    exists_entry (fun t => (process.trace wave powerUp t).state = .e3) (by simp [reset]) state
  have starts : StartsCounting wave powerUp (v + 1) := by
    refine ⟨inside (v + 1) (by omega) v_lt, fun u u_eq => ?_⟩
    obtain rfl : u = v := by omega
    exact outside
  have quiet_all : Quiet wave (v + 1) (t + 1) := by
    refine .snoc (fun u lower upper => ?_) quiet
    exact (measuring_pred wave powerUp (by simp [inside (u + 1) (by omega) (by omega)])).1
  obtain ⟨i, rfl⟩ : ∃ i, t = v + 1 + i := ⟨t - (v + 1), by omega⟩
  refine ⟨v + 1, i, starts, rfl, quiet_all, fun u lower upper => ?_⟩
  rw [← starts.echoRR_eq (quiet_all.mono ⟨le_rfl, Nat.le_succ (v + 1 + i)⟩) lower (by omega)]
  obtain ⟨_, high⟩ | ⟨converting, _⟩ := e3_succ (quiet_all (u + 2) lower (by omega))
    (inside (u + 2) (by omega) (by omega))
  · exact high
  · simp [inside (u + 3) (by omega) (by omega)] at converting

/-- A measurement enters E3 at its first counting edge. -/
theorem Measurement.startsCounting {q m : ℕ} (measurement : Measurement wave powerUp q m n) :
    StartsCounting wave powerUp (q + m) := by
  have waits_pos := measurement.waits_pos
  have counts_pos := measurement.counts_pos
  refine ⟨measurement.counts _ le_rfl (by omega), fun t t_eq => ?_⟩
  rw [measurement.waits t (by omega) (by omega)]
  simp

/-- The echo of a measurement whose E4 is executed falls after its `n` edges in E3. -/
theorem Measurement.echoFalls {q m : ℕ} (measurement : Measurement wave powerUp q m n)
    (quiet : (wave (q + m + n)).Quiet) : EchoFalls wave (q + m) n := by
  have waits_pos := measurement.waits_pos
  have counts_pos := measurement.counts_pos
  have starts := measurement.startsCounting
  have quiet_e3 : Quiet wave (q + m) (q + m + n) := measurement.quiet.mono (by omega)
  refine ⟨counts_pos, ⟨quiet_e3, fun u lower upper => ?_⟩, fun u u_eq => ?_, quiet⟩
  · rw [← starts.echoRR_eq quiet_e3 lower (by omega)]
    exact measurement.high (by omega) (by omega)
  · rw [← starts.echoRR_eq quiet_e3 (by omega) (by omega)]
    exact measurement.low_after (by omega)

/-- Short echoes are counted exactly. -/
theorem EchoesShort.counter2_e4 (short : EchoesShort wave powerUp) (quiet : (wave t).Quiet)
    (state : (process.trace wave powerUp t).state = .e4) :
    0 ≤ (process.trace wave powerUp t).counter2 ∧
      (process.trace wave powerUp t).counter2 ≤ 6260885 := by
  obtain ⟨q, m, n, _, measurement, rfl⟩ := exists_measurement_of_e4 state
  have bound := (short _ measurement.startsCounting).1 n (measurement.echoFalls quiet)
  rw [measurement.counter2, integer_natCast (by omega)]
  omega

/-- After short echoes the cooldown counter stays small. -/
theorem EchoesShort.counter2_e5 (short : EchoesShort wave powerUp)
    (state : (process.trace wave powerUp t).state = .e5) :
    0 ≤ (process.trace wave powerUp t).counter2 ∧
      (process.trace wave powerUp t).counter2 ≤ 6260885 := by
  induction t with
  | zero => simp [reset] at state
  | succ t induction =>
      have quiet : (wave t).Quiet := quiet_of_state wave powerUp (by simp [state]) (by simp [state])
      rw [trace_step wave powerUp quiet, clocked_state_iff] at state
      rw [trace_step wave powerUp quiet, clocked_counter2]
      obtain converting | ⟨cooling, running⟩ := state
      · rw [converting]
        exact short.counter2_e4 quiet converting
      · have bounds := induction cooling
        rw [cooling]
        simp only
        rw [integer_of_inInteger (by rw [inInteger_iff]; omega)]
        omega

/-- No operation of an executed edge leaves the range. -/
theorem EchoesShort.operationsExact (short : EchoesShort wave powerUp) (quiet : (wave t).Quiet) :
    OperationsExact (process.trace wave powerUp t) := by
  have coherent := coherent_trace wave powerUp t
  unfold OperationsExact
  cases state : (process.trace wave powerUp t).state with
  | e0 => trivial
  | e1 =>
      simp only [Coherent, state] at coherent
      simp only [inInteger_iff]
      omega
  | e2 => trivial
  | e3 =>
      obtain ⟨c, i, starts, rfl, held⟩ := exists_startsCounting quiet state
      have small : i + 1 < 2147483648 := by
        by_contra! large
        exact (short c starts).2 (held.mono large)
      simp only
      rw [(starts.counts_last held).2.2, integer_natCast (by omega), inInteger_iff]
      omega
  | e4 =>
      have bounds := short.counter2_e4 quiet state
      have exact : InInteger ((process.trace wave powerUp t).counter2 * 343) := by
        rw [inInteger_iff]
        omega
      refine ⟨exact, ?_⟩
      rw [integer_of_inInteger exact]
      exact Int.tdiv_nonneg (mul_nonneg bounds.1 (by norm_num)) (by norm_num)
  | e5 =>
      have bounds := short.counter2_e5 state
      simp only [inInteger_iff]
      omega

theorem ArithmeticSafe.operationsExact (safe : ArithmeticSafe wave powerUp)
    (quiet : (wave t).Quiet) : OperationsExact (process.trace wave powerUp t) := by
  have exact := (safe t).2.2 quiet.2
  rwa [process.settle_of_quiet quiet] at exact

/-- One more edge in E3 than `INTEGER` has nonnegative values overflows the counter. -/
theorem ArithmeticSafe.not_echoHeld (safe : ArithmeticSafe wave powerUp)
    (starts : StartsCounting wave powerUp c) : ¬ EchoHeld wave c 2147483648 := by
  intro held
  obtain ⟨i, i_eq⟩ : ∃ i, 2147483648 = i + 1 := ⟨2147483647, rfl⟩
  rw [i_eq] at held
  obtain ⟨quiet, counting, counted⟩ := starts.counts_last held
  have exact := safe.operationsExact quiet
  rw [integer_natCast (by omega)] at counted
  simp only [OperationsExact, counting, counted, inInteger_iff] at exact
  omega

/-- A converted count above 6260885 overflows the product. -/
theorem ArithmeticSafe.le_of_echoFalls (safe : ArithmeticSafe wave powerUp)
    (starts : StartsCounting wave powerUp c) (falls : EchoFalls wave c n) : n ≤ 6260885 := by
  obtain ⟨converting, counted⟩ := starts.converts falls
  have small : n < 2147483648 := by
    by_contra! large
    exact safe.not_echoHeld starts (falls.2.1.mono large)
  rw [integer_natCast (by omega)] at counted
  have exact := safe.operationsExact falls.2.2.2
  simp only [OperationsExact, converting, counted, inInteger_iff] at exact
  omega

/-- Arithmetic safety.  All sums and products of a run stay in range if and only if every echo that
is counted to its end falls within 6260885 edges and no echo is counted for 2147483648 edges. -/
theorem arithmeticSafe_iff (wave : ℕ → Period Bool) (powerUp : Registers) :
    ArithmeticSafe wave powerUp ↔ EchoesShort wave powerUp := by
  constructor
  · intro safe c starts
    exact ⟨fun n falls => safe.le_of_echoFalls starts falls, safe.not_echoHeld starts⟩
  · intro short t
    refine ⟨(integerInvariant.trace wave powerUp t).1, (integerInvariant.trace wave powerUp t).2,
      fun level => ?_⟩
    rcases process.settle_cases (wave t) (process.trace wave powerUp t) with
      ⟨_, settled⟩ | ⟨pulse, settled⟩
    · rw [settled]
      trivial
    · rw [settled]
      exact short.operationsExact ⟨pulse, level⟩

/-- An echo of 6260886 edges, one more than the conversion can take. -/
theorem long_echo_wraps :
    ¬ ArithmeticSafe (released (echoPulse 501 6260886)) uninitialised := by
  intro safe
  obtain ⟨width, width_eq⟩ : ∃ width, width = 6260886 := ⟨_, rfl⟩
  rw [← width_eq] at safe
  have measurement : Measurement (released (echoPulse 501 width)) uninitialised 503 1 width :=
    measurement_of_echoPulse le_rfl rfl (by omega)
  have converting := measurement.converts
  have counted := measurement.counter2
  rw [integer_natCast (by omega)] at counted
  have exact := (safe (503 + 1 + width)).2.2 rfl
  rw [process.settle_of_quiet ⟨rfl, rfl⟩] at exact
  simp only [OperationsExact, converting, counted, inInteger_iff] at exact
  omega

end TelemetreUs
end FpgaRadar
