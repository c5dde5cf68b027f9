import FpgaRadar.Radar.System
import FpgaRadar.TelemetreUs.Sensor

/-!
# Which angle a distance belongs to

A sweep step is coherent if the distance that it prints was measured after the servo had output the
position of its angle.  Program, frame and measurement cycle run freely, so this is only certain
when the program sleeps for longer than the two others take together.
-/

namespace FpgaRadar
namespace Radar

open Vhdl

/-- The PWM output, cycle by cycle. -/
def commandeWave (parameters : Parameters) (powerUp : PowerUp) (echo : ℕ → Bool) (t : ℕ) : Bool :=
  (run parameters powerUp echo t).servo.servomoteur.commande

/-- The trigger output, cycle by cycle. -/
def trigWave (parameters : Parameters) (powerUp : PowerUp) (echo : ℕ → Bool) (t : ℕ) : Bool :=
  (run parameters powerUp echo t).telemetre.telemeter.trig

/-- The sweep step whose `IOWR` acts at edge `t` is coherent.  Its position is output by the pulse
that starts at edge `b`; the trigger pulse of the measurement whose distance it prints starts at
edge `u`, and that measurement spends `m` edges in E2 and `n` edges in E3. -/
structure Coherent (parameters : Parameters) (powerUp : PowerUp) (echo : ℕ → Bool)
    (t b u m n : ℕ) : Prop where
  /-- The pulse starts after the write. -/
  starts : t < b ∧ RisesAt (commandeWave parameters powerUp echo) b
  /-- It is a complete pulse of the width of the position. -/
  pulse : Pulse (commandeWave parameters powerUp echo) (b + 1)
    (b + 1 + ServomoteurAvalon.widthOf
      (positionWord (run parameters powerUp echo t).software.i))
  /-- The trigger pulse rises after it. -/
  triggers : b + 1 + ServomoteurAvalon.widthOf
      (positionWord (run parameters powerUp echo t).software.i) ≤ u ∧
    RisesAt (trigWave parameters powerUp echo) u
  /-- The measurement is the last one that is complete at the read. -/
  latched : TelemetreUs.Latched (released echo) powerUp.telemeter (u + 502) m n
    (readEdge parameters t)
  /-- Its distance is printed beside the angle. -/
  prints : (run parameters powerUp echo (readEdge parameters t + 1)).software.printed =
    (run parameters powerUp echo t).software.printed ++
      [((run parameters powerUp echo t).software.i,
        0#22 ++ TelemetreUs.distanceOf (integer n))]

variable {parameters : Parameters} {powerUp : PowerUp} {echo : ℕ → Bool} {t : ℕ}

theorem commandeWave_eq (parameters : Parameters) (powerUp : PowerUp) (echo : ℕ → Bool) :
    commandeWave parameters powerUp echo =
      ServomoteurAvalon.commandeWave (servoWave parameters powerUp echo) powerUp.servo := by
  funext t
  rw [commandeWave, servo_eq]
  rfl

theorem trigWave_eq (parameters : Parameters) (powerUp : PowerUp) (echo : ℕ → Bool) :
    trigWave parameters powerUp echo =
      TelemetreUs.trigWave (released echo) powerUp.telemeter := by
  funext t
  rw [trigWave, telemeter_eq]
  rfl

/-- A step that sleeps long enough outputs its position. -/
theorem StepsAt.outputs (steps : StepsAt parameters powerUp echo t)
    (slow : 1124904 ≤ edgesPerUs * parameters.delay) :
    ∃ b, t + 1 ≤ b ∧ b ≤ t + 1000003 ∧ RisesAt (commandeWave parameters powerUp echo) b ∧
      Pulse (commandeWave parameters powerUp echo) (b + 1)
        (b + 1 + ServomoteurAvalon.widthOf
          (positionWord (run parameters powerUp echo t).software.i)) := by
  have word : (servoWave parameters powerUp echo t).input.writedata =
      positionWord (run parameters powerUp echo t).software.i :=
    congrArg ServomoteurAvalon.Bus.writedata steps.servoBus
  rw [commandeWave_eq, ← word]
  apply ServomoteurAvalon.exists_pulse_of_write powerUp.servo (releasedFrom_released _)
    (Nat.zero_le t) steps.acceptsWrite
  intro v after before
  exact steps.not_acceptsWrite after (by rw [readEdge]; omega)

/-- Radar coherence for a program that waits.  If each trigger is answered by one echo pulse, which
has ended `bound` edges after the trigger pulse, and the program sleeps for at least
`2 * bound + 6125920` edges between writing a position and reading a distance, every sweep step is
coherent. -/
theorem radar_coherent (parameters : Parameters) (powerUp : PowerUp) (echo : ℕ → Bool)
    (bound : ℕ) (small : bound ≤ 2147483645)
    (answers : TelemetreUs.AnswersWithin (released echo) powerUp.telemeter bound)
    (slow : 2 * bound + 6125920 ≤ edgesPerUs * parameters.delay) (t : ℕ)
    (steps : StepsAt parameters powerUp echo t) :
    ∃ b u m n, Coherent parameters powerUp echo t b u m n := by
  obtain ⟨b, after, before, rises, pulse⟩ := steps.outputs (by omega)
  have width_le := ServomoteurAvalon.widthOf_le
    (positionWord (run parameters powerUp echo t).software.i)
  have release := releasedFrom_released echo
  obtain ⟨q, entry, lower, upper⟩ :=
    TelemetreUs.exists_entry_after release answers small (Nat.zero_le (b + 1 +
      ServomoteurAvalon.widthOf (positionWord (run parameters powerUp echo t).software.i)))
  obtain ⟨a, n, answer, ends⟩ := answers q entry
  obtain ⟨m, delay, measurement⟩ := answer.measurement entry release
  have complete : q + m + n < readEdge parameters t := by
    rw [TelemetreUs.cycleBound] at upper
    rw [readEdge]
    omega
  obtain ⟨q', m', n', later, latched⟩ := measurement.exists_latched entry complete
  obtain ⟨v, rfl⟩ : ∃ v, q' = v + 504 := ⟨q' - 504, by omega⟩
  refine ⟨b, v + 2, m', n', ⟨after, rises⟩, pulse, ⟨by omega, ?_⟩, latched, ?_⟩
  · rw [trigWave_eq]
    exact latched.entry.rises (quiet_released echo _ _)
  · rw [steps.prints, latched.distCm ⟨rfl, rfl⟩]

/-- The peripherals as a simulation starts them. -/
def uninitialised : PowerUp where
  servo := ServomoteurAvalon.uninitialised
  readdata := 0
  telemeter := TelemetreUs.uninitialised

/-- A call `radar(delay, 1)` whose greeting takes ten edges and whose output takes none. -/
def prompt (delay : ℕ) : Parameters where
  delay := delay
  increment := 1
  greeting := 10
  printTime _ := 0

/-- With a prompt sensor 130 ms are enough. -/
theorem radar_coherent_130_ms :
    ∃ b u m n, Coherent (prompt 130000) uninitialised TelemetreUs.promptEcho 10 b u m n :=
  radar_coherent (prompt 130000) uninitialised TelemetreUs.promptEcho 2 (by norm_num)
    (TelemetreUs.promptEcho_answers _) (by norm_num [edgesPerUs, prompt]) 10
    (stepsAt_greeting (prompt 130000) _ _)

/-- With the 10 ms of `main` not even the first step is coherent: the only trigger pulse that
starts before its read starts before its write. -/
theorem main_call_incoherent :
    TelemetreUs.AnswersEachTrigger (released TelemetreUs.promptEcho) uninitialised.telemeter ∧
      StepsAt (prompt 10000) uninitialised TelemetreUs.promptEcho 10 ∧
      ¬ ∃ b u m n, Coherent (prompt 10000) uninitialised TelemetreUs.promptEcho 10 b u m n := by
  refine ⟨(TelemetreUs.promptEcho_answers _).answersEachTrigger,
    stepsAt_greeting (prompt 10000) _ _, ?_⟩
  rintro ⟨b, u, m, n, starts, _, triggers, latched, _⟩
  have read_eq : readEdge (prompt 10000) 10 = 500011 := rfl
  have complete := latched.before
  obtain ⟨k, u_eq⟩ := TelemetreUs.eq_promptEntry latched.entry
  rw [TelemetreUs.promptEntry] at u_eq
  rw [read_eq] at complete
  have first : k = 0 := by omega
  subst first
  have started := starts.1
  have after := triggers.1
  omega

end Radar
end FpgaRadar
