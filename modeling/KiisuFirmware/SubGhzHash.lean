import KiisuFirmware.SecplusV1

/-!
# Hashes of what has been read

The hash of `blocks/decoder.c` at the moment when a decoder reports a key, for KeeLoq, whose decoder
is modelled here, and for Security+ 1.0.
-/

namespace KiisuFirmware

/-! ## The hash -/

/-- The bytes in memory from `decode_data` on, as far as they are those of the decoder. -/
def SubGhzBlockDecoder.memory {σ : Type} (decoder : SubGhzBlockDecoder σ) : List (BitVec 8) :=
  (List.range 8).map (fun i => decoder.decodeData.extractLsb' (8 * i) 8) ++
    [decoder.decodeCountBit]

/-- None if it reads further than that. -/
def subghzProtocolBlocksGetHashData {σ : Type} (decoder : SubGhzBlockDecoder σ) (len : ℕ) :
    Option (BitVec 8) :=
  if len ≤ decoder.memory.length then some ((decoder.memory.take len).foldl (· ^^^ ·) 0) else none

/-- A key that is reported, and the decoder at that moment. -/
structure SubGhzCapture (σ : Type) where
  key : BitVec 64
  decoder : SubGhzBlockDecoder σ

namespace SubGhzCapture

variable {σ : Type} (capture : SubGhzCapture σ)

/-- How many bytes are read for the hash, which is the same for both protocols. -/
def hashLength : ℕ := capture.decoder.decodeCountBit.toNat / 8 + 1

def hashData : Option (BitVec 8) :=
  subghzProtocolBlocksGetHashData capture.decoder capture.hashLength

end SubGhzCapture

/-- What a decoder reports of some levels. -/
def captures {π σ : Type} (feed : π → LevelDuration → Option (SubGhzCapture σ) × π) :
    π → List LevelDuration → List (SubGhzCapture σ)
  | _, [] => []
  | p, pulse :: pulses => (feed p pulse).1.toList ++ captures feed (feed p pulse).2 pulses

/-! ## KeeLoq -/

def KEELOQ_TE_SHORT : ℕ := 400

def KEELOQ_TE_LONG : ℕ := 800

def KEELOQ_TE_DELTA : ℕ := 140

def KEELOQ_MIN_COUNT_BIT_FOR_FOUND : ℕ := 64

inductive KeeloqDecoderStep
  | reset
  | checkPreambula
  | saveDuration
  | checkDuration
  deriving DecidableEq, Repr

structure SubGhzProtocolDecoderKeeloq where
  decoder : SubGhzBlockDecoder KeeloqDecoderStep
  headerCount : BitVec 16
  generic : SubGhzBlockGeneric
  deriving DecidableEq

namespace SubGhzProtocolDecoderKeeloq

def alloc : SubGhzProtocolDecoderKeeloq where
  decoder := { parserStep := .reset, teLast := 0, decodeData := 0, decodeCountBit := 0 }
  headerCount := 0
  generic := { data := 0, serial := 0, dataCountBit := 0, btn := 0, cnt := 0 }

variable (inst : SubGhzProtocolDecoderKeeloq)

def step (parserStep : KeeloqDecoderStep) : SubGhzProtocolDecoderKeeloq :=
  { inst with decoder := { inst.decoder with parserStep := parserStep } }

/-- The start, with no header seen. -/
def restart : SubGhzProtocolDecoderKeeloq := { inst.step .reset with headerCount := 0 }

/-- What is behind the 64 bits of a message is counted only. -/
def addBit (bit : Bool) : SubGhzProtocolDecoderKeeloq :=
  let inst := { inst with
    decoder :=
      if inst.decoder.decodeCountBit.toNat < KEELOQ_MIN_COUNT_BIT_FOR_FOUND then
        inst.decoder.addBit bit
      else { inst.decoder with decodeCountBit := inst.decoder.decodeCountBit + 1 } }
  inst.step .saveDuration

/-- The end of a message, which is reported if it is another one than the last. -/
def endTx : Option (SubGhzCapture KeeloqDecoderStep) × SubGhzProtocolDecoderKeeloq :=
  let inst := inst.step .reset
  let count := inst.decoder.decodeCountBit.toNat
  if KEELOQ_MIN_COUNT_BIT_FOR_FOUND ≤ count ∧ count ≤ KEELOQ_MIN_COUNT_BIT_FOR_FOUND + 2 then
    let cleared (inst : SubGhzProtocolDecoderKeeloq) : SubGhzProtocolDecoderKeeloq := { inst with
      decoder := { inst.decoder with decodeData := 0, decodeCountBit := 0 }
      headerCount := 0 }
    if inst.generic.data ≠ inst.decoder.decodeData then
      let inst := { inst with
        generic := { inst.generic with
          data := inst.decoder.decodeData, dataCountBit := KEELOQ_MIN_COUNT_BIT_FOR_FOUND } }
      (some ⟨inst.generic.data, inst.decoder⟩, cleared inst)
    else (none, cleared inst)
  else (none, inst)

/-- What is reported, and the decoder afterwards. -/
def feed (pulse : LevelDuration) :
    Option (SubGhzCapture KeeloqDecoderStep) × SubGhzProtocolDecoderKeeloq :=
  match inst.decoder.parserStep with
  | .reset =>
    if pulse.level = true ∧ durationDiff pulse.duration KEELOQ_TE_SHORT < KEELOQ_TE_DELTA then
      (none, { inst.step .checkPreambula with headerCount := inst.headerCount + 1 })
    else (none, inst)
  | .checkPreambula =>
    if pulse.level = false ∧ durationDiff pulse.duration KEELOQ_TE_SHORT < KEELOQ_TE_DELTA then
      (none, inst.step .reset)
    else if 2 < inst.headerCount.toNat ∧
        durationDiff pulse.duration (KEELOQ_TE_SHORT * 10) < KEELOQ_TE_DELTA * 10 then
      (none, { inst with
        decoder := { inst.decoder with
          parserStep := .saveDuration, decodeData := 0, decodeCountBit := 0 } })
    else (none, inst.restart)
  | .saveDuration =>
    if pulse.level then
      (none, { inst with
        decoder := { inst.decoder with teLast := pulse.duration, parserStep := .checkDuration } })
    else (none, inst)
  | .checkDuration =>
    if pulse.level then (none, inst.restart)
    else if KEELOQ_TE_SHORT * 2 + KEELOQ_TE_DELTA ≤ pulse.duration then inst.endTx
    else if durationDiff inst.decoder.teLast KEELOQ_TE_SHORT < KEELOQ_TE_DELTA ∧
        durationDiff pulse.duration KEELOQ_TE_LONG < KEELOQ_TE_DELTA * 2 then
      (none, inst.addBit true)
    else if durationDiff inst.decoder.teLast KEELOQ_TE_LONG < KEELOQ_TE_DELTA * 2 ∧
        durationDiff pulse.duration KEELOQ_TE_SHORT < KEELOQ_TE_DELTA then
      (none, inst.addBit false)
    else (none, inst.restart)

end SubGhzProtocolDecoderKeeloq

/-! ## Security+ 1.0 -/

/-- The decoder, with the word whose bytes are hashed. -/
structure SecPlusV1Hashed where
  inst : SubGhzProtocolDecoderSecPlusV1
  decodeData : BitVec 64

namespace SecPlusV1Hashed

def alloc : SecPlusV1Hashed := ⟨SubGhzProtocolDecoderSecPlusV1.alloc, 0⟩

variable (p : SecPlusV1Hashed)

/-- What has been read is reported before the word and the count are set to zero. -/
def feed (pulse : LevelDuration) :
    Option (SubGhzCapture SecPlusV1DecoderStep) × SecPlusV1Hashed :=
  let inst := (p.inst.feed pulse).2
  match p.inst.parserStep with
  | .reset =>
    if pulse.level = false ∧ SubGhzProtocolDecoderSecPlusV1.Near pulse.duration 120 then
      (none, ⟨inst, 0⟩)
    else (none, ⟨inst, p.decodeData⟩)
  | .searchStartBit => (none, ⟨inst, p.decodeData⟩)
  | .saveDuration =>
    if pulse.level = false ∧ SubGhzProtocolDecoderSecPlusV1.Near pulse.duration 120 then
      let (reported, accepted) := p.inst.accept
      (if reported then
        some ⟨accepted.generic.data, {
          parserStep := accepted.parserStep
          teLast := accepted.teLast
          decodeData := p.decodeData
          decodeCountBit := BitVec.ofNat 8 accepted.decodeCountBit }⟩
      else none, ⟨inst, 0⟩)
    else (none, ⟨inst, p.decodeData⟩)
  | .decoderData => (none, ⟨inst, p.decodeData⟩)

end SecPlusV1Hashed

/-! ## What a receiver gets -/

/-- A key that is reported, how many bytes are read for its hash, and the hash. -/
structure HashReading where
  key : BitVec 64
  length : ℕ
  hash : Option (BitVec 8)
  deriving DecidableEq

def SubGhzCapture.reading {σ : Type} (capture : SubGhzCapture σ) : HashReading :=
  ⟨capture.key, capture.hashLength, capture.hashData⟩

inductive HashDecoder
  | keeloq
  | secplusV1
  deriving DecidableEq, Repr

/-- What one of the decoders, just allocated, reports of some levels. -/
def HashDecoder.readings : HashDecoder → List LevelDuration → List HashReading
  | .keeloq, pulses =>
    (captures SubGhzProtocolDecoderKeeloq.feed .alloc pulses).map SubGhzCapture.reading
  | .secplusV1, pulses => (captures SecPlusV1Hashed.feed .alloc pulses).map SubGhzCapture.reading

end KiisuFirmware
