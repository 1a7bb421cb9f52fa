import KiisuFirmware.Proofs.Came
import KiisuFirmware.Proofs.ChamberlainCode

/-!
# Static remotes

Whatever levels a decoder has been given since it was reset, what it has read is replayed; but a
CAME decoder that has counted 256 bits or more may have read more bits than are sent.
-/

namespace KiisuFirmware

theorem static_replay (p : SubGhzProtocolDecoderCame) (q : SubGhzProtocolDecoderChambCode)
    (pulses : List LevelDuration) (pulse : LevelDuration) :
    ((subghzProtocolCame.feed (subghzProtocolCame.after p.reset pulses) pulse).1 = true →
      (subghzProtocolCame.Replays 2
        (subghzProtocolCame.feed (subghzProtocolCame.after p.reset pulses) pulse).2 ↔
          (subghzProtocolCame.after p.reset pulses).decoder.decodeData.toNat <
            2 ^ (subghzProtocolCame.after p.reset pulses).decoder.decodeCountBit.toNat)) ∧
    ((subghzProtocolChambCode.feed (subghzProtocolChambCode.after q.reset pulses) pulse).1 = true →
      subghzProtocolChambCode.Replays 2
        (subghzProtocolChambCode.feed (subghzProtocolChambCode.after q.reset pulses) pulse).2) :=
  ⟨SubGhzProtocolDecoderCame.replays_iff, SubGhzProtocolDecoderChambCode.replays⟩

/-- A CAME decoder that has been switched on, and one of Chamberlain codes. -/
def cameDecoder : SubGhzProtocolDecoderCame where
  decoder := { parserStep := .reset, teLast := 0, decodeData := 0, decodeCountBit := 0 }
  generic := { data := 0, serial := 0, dataCountBit := 0, btn := 0, cnt := 0 }

def chambCodeDecoder : SubGhzProtocolDecoderChambCode where
  decoder := { parserStep := .reset, teLast := 0, decodeData := 0, decodeCountBit := 0 }
  generic := { data := 0, serial := 0, dataCountBit := 0, btn := 0, cnt := 0 }

/-- A gap and so many ones. -/
def cameOnes (count : ℕ) : List LevelDuration :=
  ⟨false, CAME_TE_SHORT * 47⟩ :: ⟨true, CAME_TE_SHORT⟩ ::
    (List.replicate count true).flatMap SubGhzProtocolEncoderCame.bitUpload

theorem static_replay_ones :
    subghzProtocolCame.Replays 2 (subghzProtocolCame.feed
      (subghzProtocolCame.after cameDecoder.reset (cameOnes 12)) ⟨false, 15040⟩).2 ∧
    subghzProtocolChambCode.Replays 2 (subghzProtocolChambCode.feed (subghzProtocolChambCode.after
      chambCodeDecoder.reset
        (SubGhzProtocolDecoderChambCode.header :: SubGhzProtocolDecoderChambCode.frame
          (codesBehind 0x55 7))) ⟨false, 39000⟩).2 :=
  ⟨((static_replay cameDecoder chambCodeDecoder (cameOnes 12) ⟨false, 15040⟩).1
      (by decide +kernel)).2 (by decide +kernel),
    (static_replay cameDecoder chambCodeDecoder _ ⟨false, 39000⟩).2 (by decide +kernel)⟩

/-- Of 268 ones a CAME decoder counts twelve, but has read sixty-four. -/
theorem not_static_replay :
    ¬∀ (p : SubGhzProtocolDecoderCame) (pulses : List LevelDuration) (pulse : LevelDuration),
      (subghzProtocolCame.feed (subghzProtocolCame.after p.reset pulses) pulse).1 = true →
        subghzProtocolCame.Replays 2
          (subghzProtocolCame.feed (subghzProtocolCame.after p.reset pulses) pulse).2 := by
  intro h
  obtain ⟨q, hq⟩ : ∃ q, q = subghzProtocolCame.after cameDecoder.reset (cameOnes 268) := ⟨_, rfl⟩
  have hread : (subghzProtocolCame.feed q ⟨false, 15040⟩).1 = true := by
    rw [hq]
    decide +kernel
  have hlong : ¬q.decoder.decodeData.toNat < 2 ^ q.decoder.decodeCountBit.toNat := by
    rw [hq]
    decide +kernel
  have hreplays := h cameDecoder (cameOnes 268) ⟨false, 15040⟩
  rw [← hq] at hreplays
  exact hlong ((SubGhzProtocolDecoderCame.replays_iff hread).1 (hreplays hread))

end KiisuFirmware
