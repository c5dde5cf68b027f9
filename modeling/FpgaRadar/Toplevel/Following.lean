import FpgaRadar.TelemetreUs.Stream
import FpgaRadar.Toplevel.TelemetreServomoteur

/-!
# The servo follows the distance

The two instances of `telemetre_servomoteur_top` run freely beside each other.  A measurement cycle
is longer than four frames, so with echoes of less than 77 ms each distance is output by at least
one pulse before the next one is converted, and by no pulse of another width meanwhile.
-/

namespace FpgaRadar
namespace TelemetreServomoteurTop

open Vhdl TelemetreUs Servomoteur

variable {wave : ℕ → Period Bool} {powerUp : Registers} {start bound b k : ℕ}
  {soundings : ℕ → Sounding wave powerUp.telemetre}

/-- The width of the pulses for the distance of an echo of `n` samples. -/
def echoWidth (n : ℕ) : ℕ := widthOf ((distanceOf n).toNat % 256)

/-- The pulses that lie between two conversions show the first distance. -/
theorem pulse_of_stream (release : ReleasedFrom wave start)
    (stream : Stream wave powerUp.telemetre start soundings)
    (after : (soundings k).conversion < b) (before : b + 124902 ≤ (soundings (k + 1)).conversion)
    (rises : RisesAt (commandeWave wave powerUp) b) :
    Pulse (commandeWave wave powerUp) (b + 1) (b + 1 + echoWidth (soundings k).n) := by
  rw [commandeWave_eq] at rises ⊢
  obtain ⟨s, rfl, starts, quiet⟩ := frameStarts_of_rises rises
  obtain ⟨j, ends, j_le⟩ := exists_pulseEnds (servomoteurComponent.wave wave powerUp) s
    default_threshold_le
  have started := start_le_of_entersE2 release (soundings k).entry
  have measured := (soundings k).lt_conversion
  have shown : ∀ i, 1 ≤ i → i ≤ j →
      (servomoteurComponent.wave wave powerUp (s + i)).input =
        positionOf (distanceOf (soundings k).n) := by
    intro i i_pos i_le
    rw [servomoteurComponent.input_of_quiet (release.quiet (s + i) (by omega)),
      ← stream.distCm_eq (t := s + i) release (by omega) (by omega), ← telemetre_eq]
    rfl
  have width := ends.of_constant (by rw [default_ticks.1]; norm_num) shown
  rw [threshold_positionOf] at width
  rw [echoWidth, ← width]
  exact pulse_of_frame default_scaled starts ends (by omega)
    ((servomoteurComponent.releasedFrom release powerUp).quiet_between (by omega))

/-- A pulse starts in each long stretch of a run. -/
theorem exists_rises (release : ReleasedFrom wave start) (powerUp : Registers) {t : ℕ}
    (start_le : start ≤ t) :
    ∃ b, t < b ∧ b ≤ t + 1000003 ∧ RisesAt (commandeWave wave powerUp) b := by
  have regular := rises_iff_released default_framed powerUp.servomoteur
    (servomoteurComponent.releasedFrom release powerUp)
  rw [default_frameTicks] at regular
  refine ⟨start + 1 + (t - start + 1000002) / 1000003 * 1000003, by omega, by omega, ?_⟩
  rw [commandeWave_eq]
  exact (regular _).mpr ⟨_, rfl⟩

/-- No distance is lost on its way to the servo.  If the run keeps `rst_n` high after its initial
reset and each trigger is answered by one echo pulse, which has ended `bound` edges after the
trigger pulse, with `bound` at most 3875000 edges, the run is a sequence of measurements such that a
pulse starts between the conversions of each two of them, early enough to end before the second one,
and every such pulse has the width of the first distance. -/
theorem servo_follows (wave : ℕ → Period Bool) (powerUp : Registers) (start bound : ℕ)
    (release : ReleasedFrom wave start) (short : bound ≤ 3875000)
    (within : AnswersWithin wave powerUp.telemetre bound) :
    ∃ soundings : ℕ → Sounding wave powerUp.telemetre,
      (∀ q, EntersE2 wave powerUp.telemetre q ↔ ∃ k, q = (soundings k).q) ∧
      (∀ k, ∃ b, (soundings k).conversion < b ∧ b + 124902 ≤ (soundings (k + 1)).conversion ∧
        RisesAt (commandeWave wave powerUp) b) ∧
      ∀ k b, (soundings k).conversion < b → b + 124902 ≤ (soundings (k + 1)).conversion →
        RisesAt (commandeWave wave powerUp) b →
        Pulse (commandeWave wave powerUp) (b + 1) (b + 1 + echoWidth (soundings k).n) := by
  obtain ⟨soundings, stream⟩ := exists_stream release within (by omega)
  refine ⟨soundings, fun q => ⟨stream.exists_of_entersE2 release, ?_⟩, fun k => ?_,
    fun k b => pulse_of_stream release stream⟩
  · rintro ⟨k, rfl⟩
    exact (soundings k).entry
  · have started := start_le_of_entersE2 release (soundings k).entry
    have measured := (soundings k).lt_conversion
    have short_echo := (soundings k).n_le release within
    have next_eq := stream.next k
    have next_measured := (soundings (k + 1)).lt_conversion
    obtain ⟨b, after, before, rises⟩ := exists_rises release powerUp
      (t := (soundings k).conversion) (by omega)
    refine ⟨b, after, ?_, rises⟩
    rw [Sounding.nextEntry, restartEdge] at next_eq
    rw [Sounding.conversion] at before
    omega

/-- With the prompt sensor. -/
theorem servo_follows_prompt :
    ∃ soundings : ℕ → Sounding (released promptEcho) uninitialised.telemetre,
      ∀ k, ∃ b, (soundings k).conversion < b ∧ b + 124902 ≤ (soundings (k + 1)).conversion ∧
        RisesAt (commandeWave (released promptEcho) uninitialised) b := by
  obtain ⟨soundings, _, shown, _⟩ :=
    servo_follows (released promptEcho) uninitialised 0 2 (releasedFrom_released _) (by norm_num)
      (promptEcho_answers _)
  exact ⟨soundings, shown⟩

end TelemetreServomoteurTop
end FpgaRadar
