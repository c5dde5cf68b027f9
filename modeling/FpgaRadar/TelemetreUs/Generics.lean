import FpgaRadar.Arith.Proportion
import FpgaRadar.TelemetreUs.Reading

/-!
# The generics

The entity declares the clock frequency and the speed of sound, and the comment in E4 has a formula
with both, but the architecture is written with the numbers of their defaults.  So the outputs are
those of the generics if and only if the generics stand for the same numbers.
-/

namespace FpgaRadar
namespace TelemetreUs

open Vhdl

/-- The generics of the entity, with their defaults. -/
structure Generics where
  /-- Clock frequency in Hz. -/
  clockFreq : ℕ := 50 * 10 ^ 6
  /-- Speed of sound in cm/s. -/
  propagationSpeed : ℕ := 34300
  /-- The clock frequency is a `NATURAL`. -/
  clockFreq_le : clockFreq ≤ 2147483647
  /-- The speed of sound is a `NATURAL`. -/
  propagationSpeed_le : propagationSpeed ≤ 2147483647

/-- The generics of an instance that maps none of them. -/
def defaultGenerics : Generics where
  clockFreq_le := by norm_num
  propagationSpeed_le := by norm_num

/-- The process of the architecture, which does not mention the generics. -/
def architecture (_ : Generics) : ClockedProcess Registers Bool := process

/-- The trigger output of an instance. -/
def trigOf (generics : Generics) (wave : ℕ → Period Bool) (powerUp : Registers) (t : ℕ) : Bool :=
  ((architecture generics).trace wave powerUp t).trig

/-- The generics are honoured in the cycle that measures the `n` samples from edge `a` on. -/
structure Honours (generics : Generics) (wave : ℕ → Period Bool) (powerUp : Registers)
    (q a n : ℕ) : Prop where
  /-- `counter2 * propagation_speed / (2*clock_freq)`, on ten bits. -/
  distance : ((architecture generics).trace wave powerUp (a + n + 4)).distCm.toNat =
    n * generics.propagationSpeed / (2 * generics.clockFreq) % 1024
  /-- The trigger pulse lasts at least 10us. -/
  trigger : ∀ first, Pulse (trigOf generics wave powerUp) first (q + 1) →
    generics.clockFreq / 10 ^ 5 ≤ q + 1 - first
  /-- The trigger output then stays low for at least 100ms. -/
  cooldown : ∀ last, Gap (trigOf generics wave powerUp) (q + 1) last → Quiet wave (q + 1) last →
    generics.clockFreq / 10 ≤ last - (q + 1)

/-- The generics are honoured by every complete echo pulse of a width in the given range. -/
def HonoursWidths (generics : Generics) (inRange : ℕ → Prop) : Prop :=
  ∀ wave powerUp q a n, MeasuredEcho wave powerUp q a n → inRange n →
    Honours generics wave powerUp q a n

variable {generics : Generics} {wave : ℕ → Period Bool} {powerUp : Registers} {q a n mhz : ℕ}

/-! ## What the architecture does -/

theorem MeasuredEcho.distance_iff (echo : MeasuredEcho wave powerUp q a n)
    (exact : n ≤ 6260885) :
    ((architecture generics).trace wave powerUp (a + n + 4)).distCm.toNat =
        n * generics.propagationSpeed / (2 * generics.clockFreq) % 1024 ↔
      n * generics.propagationSpeed / (2 * generics.clockFreq) % 1024 =
        n * 343 / 1000000 % 1024 := by
  have published : ((architecture generics).trace wave powerUp (a + n + 4)).distCm.toNat =
      n * 343 / 1000000 % 1024 := by
    rw [Nat.mul_comm n]
    exact echo.distCm exact
  rw [published]
  exact eq_comm

/-- After the trigger pulse of a measurement the output is low for more than 5000000 cycles. -/
theorem MeasuredEcho.cooldown_long (echo : MeasuredEcho wave powerUp q a n) (exact : n ≤ 6260885)
    {last : ℕ} (gap : Gap (trigWave wave powerUp) (q + 1) last) (quiet : Quiet wave (q + 1) last) :
    5000000 ≤ last - (q + 1) := by
  obtain ⟨m, _, measurement⟩ := echo.measurement
  obtain ⟨m', n', measurement', _, ends⟩ := exists_measurement_of_gap gap quiet
  obtain ⟨rfl, rfl⟩ := measurement.unique measurement'
  rw [ends (inInteger_natCast (by omega)), restartEdge]
  omega

/-- A clock of at most 50 MHz makes the trigger pulse and the cooldown long enough. -/
theorem MeasuredEcho.honours (echo : MeasuredEcho wave powerUp q a n) (exact : n ≤ 6260885)
    (multiple : generics.clockFreq = mhz * 10 ^ 6) (slow : mhz ≤ 50)
    (agree : n * generics.propagationSpeed / (2 * generics.clockFreq) % 1024 =
      n * 343 / 1000000 % 1024) : Honours generics wave powerUp q a n where
  distance := (echo.distance_iff exact).mpr agree
  trigger first pulse := by
    have long : first + 502 ≤ q + 1 := trigger_pulse_long pulse
    rw [multiple]
    omega
  cooldown last gap quiet := by
    have long := echo.cooldown_long exact gap quiet
    rw [multiple]
    omega

/-- The 502 cycles of the first trigger pulse are 10us only up to 50 MHz. -/
theorem Honours.slow
    (honours : Honours generics (released (echoPulse 503 n)) uninitialised 503 503 n)
    (multiple : generics.clockFreq = mhz * 10 ^ 6) : mhz ≤ 50 := by
  have long := honours.trigger 2 (first_trigger_pulse _)
  rw [multiple] at long
  omega

/-- What is honoured shows on a single pulse of each width. -/
theorem HonoursWidths.agree {inRange : ℕ → Prop} (honours : HonoursWidths generics inRange)
    (nonempty : 1 ≤ n) (exact : n ≤ 6260885) (mem : inRange n) :
    n * generics.propagationSpeed / (2 * generics.clockFreq) % 1024 =
      n * 343 / 1000000 % 1024 := by
  have echo := measuredEcho_of_echoPulse nonempty
  exact (echo.distance_iff exact).mp (honours _ _ _ _ _ echo mem).distance

/-- The generics are honoured if the clock is slow enough and the factors agree. -/
theorem honoursWidths_iff {inRange : ℕ → Prop} (multiple : generics.clockFreq = mhz * 10 ^ 6)
    (one : inRange 1) (exact : ∀ n, inRange n → n ≤ 6260885) :
    HonoursWidths generics inRange ↔ mhz ≤ 50 ∧ ∀ n, 1 ≤ n → inRange n →
      n * generics.propagationSpeed / (2 * generics.clockFreq) % 1024 =
        n * 343 / 1000000 % 1024 := by
  constructor
  · intro honours
    have first := honours _ _ _ _ _ (measuredEcho_of_echoPulse le_rfl) one
    exact ⟨first.slow multiple, fun n nonempty mem => honours.agree nonempty (exact n mem) mem⟩
  · rintro ⟨slow, agree⟩ wave powerUp q a n echo mem
    exact echo.honours (exact n mem) multiple slow (agree n echo.nonempty mem)

/-! ## Which generics stand for the same numbers -/

/-- The speed of sound that matters to ten bits is below one centimetre per edge and way, and its
proportion is that of the architecture. -/
theorem exact_of_agree {speed bound : ℕ} (positive : 0 < mhz) (one_le : 1 ≤ bound)
    (agree : ∀ n, 1 ≤ n → n ≤ bound →
      n * speed / (2 * (mhz * 10 ^ 6)) % 1024 = n * 343 / 1000000 % 1024) :
    speed % (1024 * (2 * (mhz * 10 ^ 6))) < 2 * (mhz * 10 ^ 6) ∧
      ∀ n, n ≤ bound → n * (speed % (1024 * (2 * (mhz * 10 ^ 6)))) / (2 * (mhz * 10 ^ 6)) =
        n * 343 / 1000000 := by
  have denominator : 0 < 2 * (mhz * 10 ^ 6) := by omega
  have agree_mod : ∀ n, n ≤ bound →
      n * (speed % (1024 * (2 * (mhz * 10 ^ 6)))) / (2 * (mhz * 10 ^ 6)) % 1024 =
        n * 343 / 1000000 % 1024 := by
    intro n n_le
    rw [Proportion.mod_mul_div denominator]
    rcases Nat.eq_zero_or_pos n with rfl | n_pos
    · simp
    · exact agree n n_pos n_le
  have below : speed % (1024 * (2 * (mhz * 10 ^ 6))) < 2 * (mhz * 10 ^ 6) := by
    have quotient := agree_mod 1 one_le
    have small : speed % (1024 * (2 * (mhz * 10 ^ 6))) / (2 * (mhz * 10 ^ 6)) < 1024 :=
      Nat.div_lt_of_lt_mul (by
        rw [Nat.mul_comm (2 * (mhz * 10 ^ 6))]
        exact Nat.mod_lt _ (by omega))
    rw [Nat.one_mul, Nat.mod_eq_of_lt small] at quotient
    exact Nat.lt_of_div_eq_zero denominator (by rw [quotient])
  exact ⟨below, fun n n_le => Proportion.eq_of_mod_eq (by norm_num) below (by norm_num)
    agree_mod n_le⟩

/-- Two widths pin the speed of sound down. -/
theorem speed_eq_of_exact {speed bound : ℕ} (positive : 0 < mhz) (slow : mhz ≤ 50)
    (long : 32070 ≤ bound)
    (exact : ∀ n, n ≤ bound → n * speed / (2 * (mhz * 10 ^ 6)) = n * 343 / 1000000) :
    speed = 686 * mhz := by
  have denominator : 0 < 2 * (mhz * 10 ^ 6) := by omega
  -- the widths at which the tenth and the twelfth centimetre are just about to be, or have just
  -- been, reached
  obtain ⟨_, upper⟩ := Proportion.div_bounds denominator (exact 26239 (by omega))
  obtain ⟨lower, _⟩ := Proportion.div_bounds denominator (exact 32070 long)
  omega

/-- The proportion of the architecture is that of `686 * mhz`. -/
theorem proportion_eq (positive : 0 < mhz) (n : ℕ) :
    n * (686 * mhz) / (2 * (mhz * 10 ^ 6)) = n * 343 / 1000000 := by
  rw [show n * (686 * mhz) = 2 * mhz * (n * 343) by ring,
    show 2 * (mhz * 10 ^ 6) = 2 * mhz * 1000000 by ring,
    Nat.mul_div_mul_left _ _ (by omega)]

/-- Over all widths that the architecture can convert. -/
theorem agree_iff_of_convertible {speed : ℕ} (positive : 0 < mhz) (slow : mhz ≤ 50) :
    (∀ n, 1 ≤ n → n ≤ 6260885 →
      n * speed / (2 * (mhz * 10 ^ 6)) % 1024 = n * 343 / 1000000 % 1024) ↔
    speed % (1024 * (2 * (mhz * 10 ^ 6))) = 686 * mhz := by
  constructor
  · intro agree
    obtain ⟨_, exact⟩ := exact_of_agree positive (by norm_num) agree
    exact speed_eq_of_exact positive slow (by norm_num) exact
  · intro speed_eq n _ _
    rw [← Proportion.mod_mul_div (by omega) n speed 1024, speed_eq, proportion_eq positive]

/-- Up to 2915 edges the architecture reports no centimetre, and so must the formula. -/
theorem mul_lt_of_agree {speed bound : ℕ} (positive : 0 < mhz) (nonempty : 1 ≤ bound)
    (narrow : bound ≤ 2915) (below : speed < 2 * (mhz * 10 ^ 6))
    (agree : ∀ n, 1 ≤ n → n ≤ bound →
      n * speed / (2 * (mhz * 10 ^ 6)) % 1024 = n * 343 / 1000000 % 1024) :
    bound * speed < 2 * (mhz * 10 ^ 6) := by
  obtain ⟨_, exact⟩ := exact_of_agree positive nonempty agree
  have short := exact bound le_rfl
  have none : bound * 343 / 1000000 = 0 := Nat.div_eq_of_lt (by omega)
  rw [Nat.mod_eq_of_lt (by omega), none] at short
  exact Nat.lt_of_div_eq_zero (by omega) short

/-- A speed of sound that is honoured leaves room for 32070 edges. -/
theorem fits_of_agree {speed : ℕ} (positive : 0 < mhz) (slow : mhz ≤ 50)
    (natural : speed ≤ 2147483647) (below : speed < 2 * (mhz * 10 ^ 6))
    (agree : ∀ bound, bound ≤ 6260885 → bound * speed ≤ 2147483647 → ∀ n, 1 ≤ n → n ≤ bound →
      n * speed / (2 * (mhz * 10 ^ 6)) % 1024 = n * 343 / 1000000 % 1024) :
    32070 * speed ≤ 2147483647 := by
  by_contra! overflows
  have speed_pos : 0 < speed := by omega
  have fits : 2147483647 / speed * speed ≤ 2147483647 := Nat.div_mul_le_self _ _
  have widest : 2147483647 < (2147483647 / speed + 1) * speed :=
    (Proportion.div_bounds speed_pos rfl).2
  -- the widest echo whose product fits, or else one of 2915 edges, is below a centimetre
  have nonempty : 1 ≤ 2147483647 / speed := (Nat.one_le_div_iff speed_pos).mpr natural
  generalize 2147483647 / speed = width at fits widest nonempty
  rcases le_or_gt width 2915 with narrow | wide
  · have short := mul_lt_of_agree positive nonempty narrow below (agree width (by omega) fits)
    rw [Nat.succ_mul] at widest
    omega
  · have fits_2915 : 2915 * speed ≤ 2147483647 :=
      (Nat.mul_le_mul_right speed wide.le).trans fits
    have short := mul_lt_of_agree positive (by norm_num) le_rfl below
      (agree 2915 (by norm_num) fits_2915)
    omega

/-- Over the widths of which the formula has no product beyond `INTEGER` either. -/
theorem agree_iff_of_products {speed : ℕ} (positive : 0 < mhz) (slow : mhz ≤ 50)
    (natural : speed ≤ 2147483647) :
    (∀ n, 1 ≤ n → n ≤ 6260885 ∧ n * speed ≤ 2147483647 →
      n * speed / (2 * (mhz * 10 ^ 6)) % 1024 = n * 343 / 1000000 % 1024) ↔
    speed = 686 * mhz ∨ mhz = 1 ∧ 2048000000 ≤ speed ∧ speed < 2050000000 := by
  constructor
  · intro agree
    have agree_to : ∀ bound, bound ≤ 6260885 → bound * speed ≤ 2147483647 → ∀ n, 1 ≤ n →
        n ≤ bound → n * speed / (2 * (mhz * 10 ^ 6)) % 1024 = n * 343 / 1000000 % 1024 :=
      fun bound bound_le fits n nonempty n_le => agree n nonempty
        ⟨n_le.trans bound_le, (Nat.mul_le_mul_right speed n_le).trans fits⟩
    rcases le_or_gt (32070 * speed) 2147483647 with fits | overflows
    · obtain ⟨_, exact⟩ := exact_of_agree positive (by norm_num) (agree_to 32070 (by norm_num) fits)
      have speed_eq := speed_eq_of_exact positive slow le_rfl exact
      rw [Nat.mod_eq_of_lt (by omega)] at speed_eq
      exact Or.inl speed_eq
    · obtain ⟨below, _⟩ := exact_of_agree positive le_rfl
        (agree_to 1 (by norm_num) (by omega))
      rcases lt_or_ge speed (1024 * (2 * (mhz * 10 ^ 6))) with proper | wrapped
      · rw [Nat.mod_eq_of_lt proper] at below
        exact absurd overflows (not_lt.mpr (fits_of_agree positive slow natural below agree_to))
      · obtain rfl : mhz = 1 := by omega
        omega
  · rintro (rfl | ⟨rfl, lower, upper⟩) n nonempty ⟨_, fits⟩
    · rw [proportion_eq positive]
    · obtain rfl : n = 1 := by
        by_contra! several
        have twice : 2 * speed ≤ n * speed := Nat.mul_le_mul_right speed (by omega)
        omega
      omega

/-! ## The generics that are honoured -/

/-- The product in E4 does not overflow. -/
def Convertible (n : ℕ) : Prop := InInteger (n * 343)

/-- Neither that product nor the one in the comment overflows. -/
def NoOverflow (generics : Generics) (n : ℕ) : Prop :=
  InInteger (n * 343) ∧ InInteger (n * generics.propagationSpeed)

theorem convertible_iff (n : ℕ) : Convertible n ↔ n ≤ 6260885 := by
  rw [Convertible, inInteger_iff]
  omega

theorem noOverflow_iff (generics : Generics) (n : ℕ) :
    NoOverflow generics n ↔ n ≤ 6260885 ∧ n * generics.propagationSpeed ≤ 2147483647 := by
  have product : (n : ℤ) * generics.propagationSpeed = (n * generics.propagationSpeed : ℕ) :=
    (Nat.cast_mul n _).symm
  rw [NoOverflow, ← Convertible, convertible_iff, product, inInteger_iff]
  omega

/-- Which generics are honoured.  For a clock of a whole number of MHz they are, by all echoes that
the architecture can convert, if and only if the clock has at most 50 MHz and the speed of sound is
686 cm/s for each MHz, up to a multiple that ten bits do not show; if the product of the formula has
to be an `INTEGER` too, there is one echo left for some more speeds of sound. -/
theorem honours_generics_iff (generics : Generics) (mhz : ℕ) (positive : 0 < mhz)
    (multiple : generics.clockFreq = mhz * 10 ^ 6) :
    (HonoursWidths generics Convertible ↔
      mhz ≤ 50 ∧ generics.propagationSpeed % (2048 * generics.clockFreq) = 686 * mhz) ∧
    (HonoursWidths generics (NoOverflow generics) ↔
      mhz ≤ 50 ∧ (generics.propagationSpeed = 686 * mhz ∨
        mhz = 1 ∧ 2048000000 ≤ generics.propagationSpeed ∧
          generics.propagationSpeed < 2050000000)) := by
  have one_fits : 1 * generics.propagationSpeed ≤ 2147483647 := by
    rw [Nat.one_mul]
    exact generics.propagationSpeed_le
  constructor
  · rw [honoursWidths_iff multiple ((convertible_iff 1).mpr (by norm_num))
      fun n => (convertible_iff n).mp]
    apply and_congr_right
    intro slow
    rw [show 2048 * generics.clockFreq = 1024 * (2 * (mhz * 10 ^ 6)) by rw [multiple]; ring,
      ← agree_iff_of_convertible positive slow, multiple]
    simp only [convertible_iff]
  · rw [honoursWidths_iff multiple ((noOverflow_iff generics 1).mpr ⟨by norm_num, one_fits⟩)
      fun n fits => ((noOverflow_iff generics n).mp fits).1]
    apply and_congr_right
    intro slow
    rw [← agree_iff_of_products positive slow generics.propagationSpeed_le, multiple]
    simp only [noOverflow_iff]

/-- The defaults are honoured. -/
theorem honours_default_generics : HonoursWidths defaultGenerics Convertible :=
  (honours_generics_iff defaultGenerics 50 (by norm_num) rfl).1.mpr ⟨le_rfl, rfl⟩

/-- An instance with twice the default clock frequency. -/
def doubleClock : Generics where
  clockFreq := 100 * 10 ^ 6
  clockFreq_le := by norm_num
  propagationSpeed_le := by norm_num

/-- It reports an echo of one centimetre as two, and its trigger pulse has half the length. -/
theorem double_clock_not_honoured :
    MeasuredEcho (released (echoPulse 503 5831)) uninitialised 503 503 5831 ∧
      NoOverflow doubleClock 5831 ∧
      5831 * doubleClock.propagationSpeed / (2 * doubleClock.clockFreq) % 1024 = 1 ∧
      ((architecture doubleClock).trace (released (echoPulse 503 5831)) uninitialised
        6338).distCm.toNat = 2 ∧
      Pulse (trigOf doubleClock (released (echoPulse 503 5831)) uninitialised) 2 504 ∧
      doubleClock.clockFreq / 10 ^ 5 = 1000 ∧
      ¬ HonoursWidths doubleClock (NoOverflow doubleClock) := by
  have echo := measuredEcho_of_echoPulse (n := 5831) (by norm_num)
  have fits : NoOverflow doubleClock 5831 :=
    (noOverflow_iff doubleClock 5831).mpr ⟨by norm_num, by norm_num [doubleClock]⟩
  refine ⟨echo, fits, by norm_num [doubleClock], echo.distCm (by norm_num),
    first_trigger_pulse _, by norm_num [doubleClock], fun honours => ?_⟩
  have multiple : doubleClock.clockFreq = 100 * 10 ^ 6 := rfl
  have slow := (honours _ _ _ _ _ echo fits).slow multiple
  norm_num at slow

end TelemetreUs
end FpgaRadar
