import KiisuFirmware.Word
import KiisuFirmware.Protocol

/-!
# Frequency shift keying

`fsk_demod.c`: a bit is a number of pulses of one of two lengths.
-/

namespace KiisuFirmware

/-! ## Times of the cards -/

def JITTER_TIME : ℕ := 20

def MIN_TIME : ℕ := 64 - JITTER_TIME

def MAX_TIME : ℕ := 80 + JITTER_TIME

/-! ## The demodulator -/

structure FskDemod where
  lowTime : ℕ
  lowPulses : ℕ
  hiTime : ℕ
  hiPulses : ℕ
  invert : Bool
  midTime : ℕ
  time : ℕ
  count : ℕ
  lastPulse : Bool
  deriving DecidableEq

namespace FskDemod

def alloc (lowTime lowPulses hiTime hiPulses : ℕ) : FskDemod :=
  let invert := decide (hiTime < lowTime)
  let (lowTime, hiTime) := if invert then (hiTime, lowTime) else (lowTime, hiTime)
  let (lowPulses, hiPulses) := if invert then (hiPulses, lowPulses) else (lowPulses, hiPulses)
  { lowTime, lowPulses, hiTime, hiPulses, invert
    midTime := (hiTime - lowTime) / 2 + lowTime
    time := 0
    count := 0
    lastPulse := false }

variable (demod : FskDemod)

/-- How many bits have ended with a level, of what value, and the demodulator afterwards. -/
def feed (polarity : Bool) (time : ℕ) : (Bool × ℕ) × FskDemod :=
  if polarity then ((false, 0), { demod with time := time })
  else
    let demod := { demod with time := uint32 (demod.time + time) }
    if demod.lowTime ≤ demod.time ∧ demod.time < demod.hiTime then
      let pulse := !decide (demod.time < demod.midTime)
      let demod := { demod with count := uint32 (demod.count + 1) }
      if demod.lastPulse ≠ pulse then
        let dataCount := uint32 (demod.count + 1)
        let value := if demod.lastPulse then !demod.invert else demod.invert
        let dataCount :=
          if demod.lastPulse then dataCount / demod.hiPulses else dataCount / demod.lowPulses
        ((value, dataCount), { demod with count := 0, lastPulse := pulse })
      else ((false, 0), demod)
    else ((false, 0), { demod with count := 0 })

end FskDemod

end KiisuFirmware
