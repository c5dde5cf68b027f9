import FpgaRadar.TelemetreUs.Reading
import FpgaRadar.TelemetreUs.Sensor

/-!
# The sequence of measurements

With a sensor that answers, a run after its reset is one measurement after the other, and the whole
run can be read off their sequence: the edges at which E2 is entered, the cycles in which the
trigger output is high, and the distance output.  Each echo is measured once and none is missed.
-/

namespace FpgaRadar
namespace TelemetreUs

open Vhdl

/-- A measurement of a run, whose echo fits into the counter. -/
structure Sounding (wave : ℕ → Period Bool) (powerUp : Registers) where
  /-- The edge at which E2 is entered. -/
  q : ℕ
  /-- The edges spent in E2. -/
  m : ℕ
  /-- The edges spent in E3. -/
  n : ℕ
  /-- E2 is entered there. -/
  entry : EntersE2 wave powerUp q
  /-- The measurement. -/
  measurement : Measurement wave powerUp q m n
  /-- The counter does not overflow. -/
  exact : InInteger n

namespace Sounding

variable {wave : ℕ → Period Bool} {powerUp : Registers} (sounding : Sounding wave powerUp)

/-- The edge at which the count is converted. -/
def conversion : ℕ := sounding.q + sounding.m + sounding.n

/-- The edge at which the next measurement enters E2. -/
def nextEntry : ℕ := restartEdge sounding.q sounding.m sounding.n + 503

end Sounding

/-- The measurements of a run whose reset is released at edge `start`. -/
structure Stream (wave : ℕ → Period Bool) (powerUp : Registers) (start : ℕ)
    (soundings : ℕ → Sounding wave powerUp) : Prop where
  /-- The first one follows the reset. -/
  first : (soundings 0).q = start + 503
  /-- Each other one follows the one before it. -/
  next : ∀ k, (soundings (k + 1)).q = (soundings k).nextEntry

variable {wave : ℕ → Period Bool} {powerUp : Registers} {start bound k t : ℕ}
  {soundings : ℕ → Sounding wave powerUp}

/-! ## One measurement -/

namespace Sounding

variable (sounding : Sounding wave powerUp)

theorem lt_conversion : sounding.q < sounding.conversion := by
  have waits_pos := sounding.measurement.waits_pos
  rw [conversion]
  omega

theorem conversion_lt_nextEntry : sounding.conversion + 503 < sounding.nextEntry := by
  rw [conversion, nextEntry, restartEdge]
  omega

/-- The trigger pulse that precedes a measurement. -/
theorem trig_before (after : sounding.q ≤ t + 501) (before : t ≤ sounding.q) :
    trigWave wave powerUp t = true := by
  obtain ⟨p, p_eq, quiet, triggering⟩ := sounding.entry.history
  obtain ⟨i, rfl⟩ : ∃ i, t = p + i + 1 := ⟨t - (p + 1), by omega⟩
  exact trig_high_of_e1 (quiet.period (p + i) (by omega)) (triggering i (by omega)).1

/-- Before the next trigger pulse the output is low. -/
theorem trig_after (release : ReleasedFrom wave start) (after : sounding.q < t)
    (before : t + 502 ≤ sounding.nextEntry) : trigWave wave powerUp t = false := by
  have start_le := start_le_of_entersE2 release sounding.entry
  rw [nextEntry] at before
  exact sounding.measurement.trig_low sounding.exact (release.quiet_between (by omega)) after
    (by omega)

/-- E4 is not executed before the conversion. -/
theorem not_e4_before (after : sounding.q ≤ t + 502) (before : t < sounding.conversion) :
    (process.trace wave powerUp t).state ≠ .e4 := by
  intro converts
  rcases Nat.lt_or_ge t sounding.q with triggering | measuring
  · obtain ⟨p, p_eq, _, states⟩ := sounding.entry.history
    obtain ⟨i, rfl⟩ : ∃ i, t = p + i := ⟨t - p, by omega⟩
    rw [(states i (by omega)).1] at converts
    contradiction
  rw [conversion] at before
  rcases Nat.lt_or_ge t (sounding.q + sounding.m) with waiting | counting
  · rw [sounding.measurement.waits t measuring waiting] at converts
    contradiction
  · rw [sounding.measurement.counts t counting before] at converts
    contradiction

/-- And not between the conversion and the next trigger pulse. -/
theorem not_e4_after (release : ReleasedFrom wave start) (after : sounding.conversion < t)
    (before : t + 502 ≤ sounding.nextEntry) :
    (process.trace wave powerUp t).state ≠ .e4 := by
  have start_le := start_le_of_entersE2 release sounding.entry
  rw [nextEntry] at before
  exact sounding.measurement.not_e4_after sounding.exact (release.quiet_between (by omega)) after
    (by omega)

/-- The distance after the conversion. -/
theorem distCm_conversion (release : ReleasedFrom wave start) :
    (process.trace wave powerUp (sounding.conversion + 1)).distCm = distanceOf sounding.n := by
  have start_le := start_le_of_entersE2 release sounding.entry
  have published :=
    (e4_step (release.quiet sounding.conversion (by rw [conversion]; omega))
      sounding.measurement.converts).2.2
  have counted : (process.trace wave powerUp sounding.conversion).counter2 = integer sounding.n :=
    sounding.measurement.counter2
  rwa [counted, integer_of_inInteger sounding.exact] at published

/-- The echo that is measured is the answer to the trigger pulse. -/
theorem answered (release : ReleasedFrom wave start)
    (answers : AnswersEachTrigger wave powerUp) :
    ∃ a, Answers wave powerUp sounding.q a sounding.n ∧ sounding.q + sounding.m = a + 3 := by
  obtain ⟨a, n, answer⟩ := answers sounding.q sounding.entry
  obtain ⟨m, delay, measurement⟩ := answer.measurement sounding.entry release
  obtain ⟨rfl, rfl⟩ := sounding.measurement.unique measurement
  exact ⟨a, answer, delay⟩

/-- It has no more samples than the sensor takes time from its earliest start on. -/
theorem n_le (release : ReleasedFrom wave start) (within : AnswersWithin wave powerUp bound) :
    sounding.n ≤ bound + 2 := by
  obtain ⟨a, n, answer, ends⟩ := within sounding.q sounding.entry
  obtain ⟨m, _, measurement⟩ := answer.measurement sounding.entry release
  obtain ⟨rfl, rfl⟩ := sounding.measurement.unique measurement
  have after := answer.after
  omega

end Sounding

/-! ## The sequence -/

/-- No trigger pulse ends before the first one of the run. -/
theorem EntersE2.after_release (release : ReleasedFrom wave start) {q : ℕ}
    (entry : EntersE2 wave powerUp q) : start + 503 ≤ q := by
  by_contra! early
  obtain ⟨p, p_eq, _, triggering⟩ := entry.history
  have state := (triggering 0 (by norm_num)).1
  rw [Nat.add_zero, process.trace_held release powerUp (by omega)] at state
  contradiction

/-- Each trigger pulse leads to a measurement. -/
theorem exists_sounding (release : ReleasedFrom wave start)
    (within : AnswersWithin wave powerUp bound) (small : bound ≤ 2147483645) {q : ℕ}
    (entry : EntersE2 wave powerUp q) : ∃ sounding : Sounding wave powerUp, sounding.q = q := by
  obtain ⟨a, n, answer, ends⟩ := within q entry
  obtain ⟨m, _, measurement⟩ := answer.measurement entry release
  have after := answer.after
  exact ⟨⟨q, m, n, entry, measurement, inInteger_natCast (by omega)⟩, rfl⟩

/-- A sensor that answers in time keeps the measurements going. -/
theorem exists_stream (release : ReleasedFrom wave start)
    (within : AnswersWithin wave powerUp bound) (small : bound ≤ 2147483645) :
    ∃ soundings, Stream wave powerUp start soundings := by
  obtain ⟨first, first_eq⟩ := exists_sounding release within small
    (entersE2_of_releasedFrom release)
  obtain ⟨soundings, begins, follows⟩ := exists_sequence
    (fun current later : Sounding wave powerUp => later.q = current.nextEntry) first
    fun current => exists_sounding release within small
      (current.measurement.next_entry current.exact
        (release.quiet_between (by have := start_le_of_entersE2 release current.entry; omega)))
  exact ⟨soundings, by rw [begins, first_eq], follows⟩

namespace Stream

variable (stream : Stream wave powerUp start soundings)

include stream

theorem strictMono : StrictMono fun k => (soundings k).q := by
  apply strictMono_nat_of_lt_succ
  intro k
  rw [stream.next]
  have := (soundings k).lt_conversion
  have := (soundings k).conversion_lt_nextEntry
  omega

/-- E2 is entered by these measurements only. -/
theorem exists_of_entersE2 (release : ReleasedFrom wave start) {q : ℕ}
    (entry : EntersE2 wave powerUp q) : ∃ k, q = (soundings k).q := by
  have reached : (soundings 0).q ≤ q := stream.first ▸ entry.after_release release
  obtain ⟨k, lower, upper⟩ := exists_interval stream.strictMono reached
  rcases lower.eq_or_lt with equal | later
  · exact ⟨k, equal.symm⟩
  · have started := start_le_of_entersE2 release (soundings k).entry
    have next_le := (soundings k).measurement.next_entry_le (soundings k).exact
      (release.quiet_between (by omega)) entry later
    rw [stream.next, Sounding.nextEntry] at upper
    omega

/-- The trigger output is high in the 502 cycles that end where E2 is entered, and low otherwise. -/
theorem trig_iff (release : ReleasedFrom wave start) (started : start + 2 ≤ t) :
    trigWave wave powerUp t = true ↔
      ∃ k, (soundings k).q ≤ t + 501 ∧ t ≤ (soundings k).q := by
  constructor
  · intro high
    rcases Nat.lt_or_ge (soundings 0).q t with later | first
    · have increasing : StrictMono fun k => (soundings k).q + 1 :=
        fun _ _ less => Nat.succ_lt_succ (stream.strictMono less)
      obtain ⟨k, lower, upper⟩ := exists_interval increasing later
      refine ⟨k + 1, ?_, Nat.lt_succ_iff.mp upper⟩
      by_contra! low
      rw [stream.next] at low
      rw [(soundings k).trig_after release lower (by omega)] at high
      contradiction
    · have := stream.first
      exact ⟨0, by omega, first⟩
  · rintro ⟨k, after, before⟩
    exact (soundings k).trig_before after before

/-- Before the first conversion the output is the one that the run began with. -/
theorem distCm_first (release : ReleasedFrom wave start) (before : t ≤ (soundings 0).conversion) :
    (process.trace wave powerUp t).distCm = powerUp.distCm := by
  have begun : (process.trace wave powerUp 0).distCm = powerUp.distCm := rfl
  rw [← begun]
  apply distCm_holds (Nat.zero_le t)
  intro u _ upper
  rcases Nat.lt_or_ge start u with released | held
  · have := stream.first
    exact (soundings 0).not_e4_before (by omega) (by omega)
  · rw [process.trace_held release powerUp held]
    simp [reset]

/-- Between two conversions it is the distance of the first of them. -/
theorem distCm_eq (release : ReleasedFrom wave start) (after : (soundings k).conversion < t)
    (before : t ≤ (soundings (k + 1)).conversion) :
    (process.trace wave powerUp t).distCm = distanceOf (soundings k).n := by
  rw [← (soundings k).distCm_conversion release]
  apply distCm_holds after
  intro u lower upper
  rcases Nat.lt_or_ge (soundings k).nextEntry (u + 502) with triggering | cooling
  · exact (soundings (k + 1)).not_e4_before (by rw [stream.next]; omega) (by omega)
  · exact (soundings k).not_e4_after release lower cooling

end Stream

/-- The whole run of the range finder.  If the run keeps `rst_n` high after its initial reset and
every trigger pulse is answered by one echo pulse in time, the run is a sequence of measurements.
E2 is entered at their edges only, the trigger output is high exactly in the 502 cycles before them,
the `k`-th measurement counts the echo that answers the `k`-th trigger pulse, and between two
conversions the output is the distance of the earlier one, so that each echo is shown once and none
is missed. -/
theorem range_finder_stream (wave : ℕ → Period Bool) (powerUp : Registers) (start bound : ℕ)
    (release : ReleasedFrom wave start) (small : bound ≤ 2147483645)
    (within : AnswersWithin wave powerUp bound) :
    ∃ soundings : ℕ → Sounding wave powerUp,
      (soundings 0).q = start + 503 ∧
      (∀ k, (soundings (k + 1)).q =
        (soundings k).q + (soundings k).m + max 5000001 (soundings k).n + 505) ∧
      (∀ q, EntersE2 wave powerUp q ↔ ∃ k, q = (soundings k).q) ∧
      (∀ k, ∃ a, Answers wave powerUp (soundings k).q a (soundings k).n ∧
        (soundings k).q + (soundings k).m = a + 3) ∧
      (∀ t, start + 2 ≤ t → (trigWave wave powerUp t = true ↔
        ∃ k, (soundings k).q ≤ t + 501 ∧ t ≤ (soundings k).q)) ∧
      (∀ t, t ≤ (soundings 0).conversion →
        (process.trace wave powerUp t).distCm = powerUp.distCm) ∧
      ∀ k t, (soundings k).conversion < t → t ≤ (soundings (k + 1)).conversion →
        (process.trace wave powerUp t).distCm = distanceOf (soundings k).n := by
  obtain ⟨soundings, stream⟩ := exists_stream release within small
  refine ⟨soundings, stream.first, fun k => ?_, fun q => ⟨stream.exists_of_entersE2 release, ?_⟩,
    fun k => (soundings k).answered release within.answersEachTrigger,
    fun t => stream.trig_iff release, fun t => stream.distCm_first release,
    fun k t => stream.distCm_eq release⟩
  · rw [stream.next, Sounding.nextEntry, restartEdge]
    omega
  · rintro ⟨k, rfl⟩
    exact (soundings k).entry

/-- The measurements with the prompt sensor. -/
theorem range_finder_stream_prompt :
    ∃ soundings : ℕ → Sounding (released promptEcho) uninitialised,
      (soundings 0).q = 503 ∧ ∀ q, EntersE2 (released promptEcho) uninitialised q ↔
        ∃ k, q = (soundings k).q := by
  obtain ⟨soundings, first, _, entries, _⟩ :=
    range_finder_stream (released promptEcho) uninitialised 0 2 (releasedFrom_released _)
      (by norm_num) (promptEcho_answers _)
  exact ⟨soundings, first, entries⟩

end TelemetreUs
end FpgaRadar
