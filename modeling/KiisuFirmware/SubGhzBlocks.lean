import KiisuFirmware.Protocol

/-!
# What Sub-GHz protocols share

Of `blocks/generic.c`, `blocks/math.c` and `blocks/math.h`. Durations are compared as they stand,
which none of them is too long for.
-/

namespace KiisuFirmware

/-- A message of some protocol, but for the name of the protocol. -/
structure SubGhzBlockGeneric where
  data : BitVec 64
  serial : BitVec 32
  dataCountBit : ℕ
  btn : BitVec 8
  cnt : BitVec 32
  deriving DecidableEq

def bitRead {w : ℕ} (value : BitVec w) (bit : ℕ) : BitVec w := value >>> bit &&& 1

/-- The bits of a key, the highest one first. -/
def keyBits (data : BitVec 64) (countBit : ℕ) : List Bool :=
  (List.range countBit).map fun k => data.getLsbD (countBit - 1 - k)

/-- Two words, the higher one first. -/
def joinWords (high low : BitVec 32) : BitVec 64 := high.setWidth 64 <<< 32 ||| low.setWidth 64

def durationDiff (x y : ℕ) : ℕ := if x < y then y - x else x - y

def subghzProtocolBlocksReverseKey (key : BitVec 64) (bitCount : ℕ) : BitVec 64 :=
  (List.range bitCount).foldl (fun reverseKey i => reverseKey <<< 1 ||| bitRead key i) 0

/-! ## Files

Of a file it counts what is read of it under some names. -/

inductive SubGhzProtocolStatus
  | errorParserBitCount
  | errorParserKey
  | errorParserTe
  | errorParserOthers
  | errorValueBitCount
  | errorEncoderGetUpload
  deriving DecidableEq, Repr

/-- The words of a file under `Bit`, `Key` and `Repeat`. -/
structure SubGhzKeyFile where
  bit : Option (BitVec 32)
  key : Option (BitVec 64)
  repeats : Option (BitVec 32)
  deriving DecidableEq

namespace SubGhzBlockGeneric

def deserialize (generic : SubGhzBlockGeneric) (file : SubGhzKeyFile) :
    Except SubGhzProtocolStatus SubGhzBlockGeneric :=
  match file.bit, file.key with
  | none, _ => .error .errorParserBitCount
  | some _, none => .error .errorParserKey
  | some bit, some key => .ok { generic with dataCountBit := bit.toNat % 2 ^ 16, data := key }

def deserializeCheckCountBit (generic : SubGhzBlockGeneric) (file : SubGhzKeyFile)
    (countBit : ℕ) : Except SubGhzProtocolStatus SubGhzBlockGeneric := do
  let generic ← generic.deserialize file
  if generic.dataCountBit ≠ countBit then .error .errorValueBitCount else .ok generic

def serialize (generic : SubGhzBlockGeneric) : SubGhzKeyFile where
  bit := some (BitVec.ofNat 32 generic.dataCountBit)
  key := some generic.data
  repeats := none

end SubGhzBlockGeneric

/-! ## Decoders -/

/-- What the decoders of many protocols have, with the steps of one of them. -/
structure SubGhzBlockDecoder (σ : Type) where
  parserStep : σ
  teLast : ℕ
  decodeData : BitVec 64
  decodeCountBit : BitVec 8
  deriving DecidableEq

def SubGhzBlockDecoder.addBit {σ : Type} (decoder : SubGhzBlockDecoder σ) (bit : Bool) :
    SubGhzBlockDecoder σ :=
  { decoder with
    decodeData := decoder.decodeData <<< 1 ||| (BitVec.ofBool bit).setWidth 64
    decodeCountBit := decoder.decodeCountBit + 1 }

/-! ## Encoders -/

structure SubGhzProtocolBlockEncoder where
  isRunning : Bool
  repeats : ℕ
  front : ℕ
  sizeUpload : ℕ
  upload : List LevelDuration
  deriving DecidableEq

namespace SubGhzProtocolBlockEncoder

/-- What the encoders of all protocols yield: nothing once the upload has been sent as often as it
is to be. -/
def yield (encoder : SubGhzProtocolBlockEncoder) :
    Option LevelDuration × SubGhzProtocolBlockEncoder :=
  if encoder.repeats = 0 ∨ encoder.isRunning = false then
    (none, { encoder with isRunning := false })
  else
    let ret := encoder.upload.getD encoder.front ⟨false, 0⟩
    if encoder.front + 1 = encoder.sizeUpload then
      (some ret, { encoder with front := 0, repeats := encoder.repeats - 1 })
    else (some ret, { encoder with front := encoder.front + 1 })

/-- What is sent in so many yields. -/
def emission : ℕ → SubGhzProtocolBlockEncoder → List LevelDuration
  | 0, _ => []
  | count + 1, encoder =>
    match encoder.yield with
    | (none, _) => []
    | (some levelDuration, encoder) => levelDuration :: emission count encoder

/-- All that is sent. -/
def emitted (encoder : SubGhzProtocolBlockEncoder) : List LevelDuration :=
  encoder.emission (encoder.repeats * encoder.sizeUpload)

end SubGhzProtocolBlockEncoder

/-! ## Protocols -/

/-- A protocol: its decoder, the file of what the decoder has read, and a new encoder with such a
file, if it takes it. -/
structure SubGhzProtocol (π φ : Type) where
  reset : π → π
  feed : π → LevelDuration → Bool × π
  generic : π → SubGhzBlockGeneric
  serialize : π → φ
  load : φ → Option SubGhzProtocolBlockEncoder

namespace SubGhzProtocol

variable {π φ : Type} (protocol : SubGhzProtocol π φ)

/-- The decoder after these levels. -/
def after (p : π) (pulses : List LevelDuration) : π :=
  pulses.foldl (fun p pulse => (protocol.feed p pulse).2) p

/-- The key and its length, each time the decoder says that it has read one. -/
def readings (p : π) (pulses : List LevelDuration) : List (BitVec 64 × ℕ) :=
  reads protocol.feed
    (fun p => ((protocol.generic p).data, (protocol.generic p).dataCountBit)) p pulses

/-- What the decoder has read is read again, and nothing else, when it is saved, loaded and sent at
least so many times. -/
def Replays (atLeast : ℕ) (p : π) : Prop :=
  ∃ encoder, protocol.load (protocol.serialize p) = some encoder ∧
    ∀ (q : π) (repeats : ℕ), atLeast ≤ repeats →
      protocol.readings (protocol.reset q) { encoder with repeats := repeats }.emitted ≠ [] ∧
      ∀ reading ∈ protocol.readings (protocol.reset q) { encoder with repeats := repeats }.emitted,
        reading = ((protocol.generic p).data, (protocol.generic p).dataCountBit)

end SubGhzProtocol

end KiisuFirmware
