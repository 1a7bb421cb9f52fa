import KiisuFirmware.SubGhzBlocks

/-!
# Security+ 1.0

The messages of `secplus_v1.c`, how one is sent and how it is read. A message is two packets of
digits with the base three, each with a header of its own.
-/

namespace KiisuFirmware

def SECPLUS_V1_TE_SHORT : ℕ := 500

def SECPLUS_V1_TE_LONG : ℕ := 1500

def SECPLUS_V1_TE_DELTA : ℕ := 100

def SECPLUS_V1_MIN_COUNT_BIT_FOR_FOUND : ℕ := 21

def SECPLUS_V1_PACKET_1_HEADER : ℕ := 0

def SECPLUS_V1_PACKET_2_HEADER : ℕ := 2

def SECPLUS_V1_PACKET_1_INDEX_BASE : ℕ := 0

def SECPLUS_V1_PACKET_2_INDEX_BASE : ℕ := 21

def SECPLUS_V1_PACKET_1_ACCEPTED : BitVec 8 := 1 <<< 0

def SECPLUS_V1_PACKET_2_ACCEPTED : BitVec 8 := 1 <<< 1

/-- The digits of a packet behind its header. -/
def secplusV1Packet (dataArray : List ℕ) (indexBase : ℕ) : List ℕ :=
  (dataArray.drop (indexBase + 1)).take 20

/-! ## The encoder -/

/-- So many digits with the base three, the highest one first. -/
def ternary : ℕ → ℕ → List ℕ
  | 0, _ => []
  | count + 1, value => ternary count (value / 3) ++ [value % 3]

/-- A digit of the rolling part, and the sum of all digits up to that of the fixed part with it. -/
def secplusV1EncodePacket : ℕ → List (ℕ × ℕ) → List ℕ
  | _, [] => []
  | acc, (rolling, fixed) :: digits =>
    rolling :: (acc + rolling + fixed) % 3 ::
      secplusV1EncodePacket (acc + rolling + fixed) digits

def secplusV1DigitUpload : ℕ → Option (List LevelDuration)
  | 0 => some [⟨false, SECPLUS_V1_TE_SHORT * 3⟩, ⟨true, SECPLUS_V1_TE_SHORT⟩]
  | 1 => some [⟨false, SECPLUS_V1_TE_SHORT * 2⟩, ⟨true, SECPLUS_V1_TE_SHORT * 2⟩]
  | 2 => some [⟨false, SECPLUS_V1_TE_SHORT⟩, ⟨true, SECPLUS_V1_TE_SHORT * 3⟩]
  | _ => none

/-- Of the array there is what is used of it, which is but for the last two entries. -/
structure SubGhzProtocolEncoderSecPlusV1 where
  encoder : SubGhzProtocolBlockEncoder
  generic : SubGhzBlockGeneric
  dataArray : List ℕ
  deriving DecidableEq

namespace SubGhzProtocolEncoderSecPlusV1

def alloc : SubGhzProtocolEncoderSecPlusV1 where
  encoder := { isRunning := false, repeats := 10, front := 0, sizeUpload := 128, upload := [] }
  generic := { data := 0, serial := 0, dataCountBit := 0, btn := 0, cnt := 0 }
  dataArray := List.replicate 42 0

variable (inst : SubGhzProtocolEncoderSecPlusV1)

def getUpload : Option SubGhzProtocolEncoderSecPlusV1 :=
  let sizeUpload := inst.generic.dataCountBit * 2
  if inst.encoder.sizeUpload < sizeUpload then none
  else do
    let packet1 ← (secplusV1Packet inst.dataArray SECPLUS_V1_PACKET_1_INDEX_BASE).mapM
      secplusV1DigitUpload
    let packet2 ← (secplusV1Packet inst.dataArray SECPLUS_V1_PACKET_2_INDEX_BASE).mapM
      secplusV1DigitUpload
    let upload :=
      ⟨false, SECPLUS_V1_TE_SHORT * (116 + 3)⟩ :: ⟨true, SECPLUS_V1_TE_SHORT⟩ :: packet1.flatten ++
        ⟨false, SECPLUS_V1_TE_SHORT * 116⟩ :: ⟨true, SECPLUS_V1_TE_SHORT * 3⟩ :: packet2.flatten
    some { inst with
      encoder := { inst.encoder with sizeUpload := sizeUpload, upload := upload } }

def encode : Option SubGhzProtocolEncoderSecPlusV1 :=
  let fixed : BitVec 32 := (inst.generic.data >>> 32).setWidth 32
  let rolling : BitVec 32 := inst.generic.data.setWidth 32 + 2
  let data := inst.generic.data &&& 0xFFFFFFFF00000000#64 ||| rolling.setWidth 64
  let rolling := if rolling = 0xFFFFFFFF then 0xE6000000 else rolling
  if 0xCFD41B90 < fixed.toNat then none
  else
    let rolling : BitVec 32 :=
      (subghzProtocolBlocksReverseKey (rolling.setWidth 64) 32).setWidth 32
    let digits := (ternary 20 rolling.toNat).zip (ternary 20 fixed.toNat)
    some { inst with
      generic := { inst.generic with data := data }
      dataArray :=
        SECPLUS_V1_PACKET_1_HEADER :: secplusV1EncodePacket 0 (digits.take 10) ++
          SECPLUS_V1_PACKET_2_HEADER :: secplusV1EncodePacket 0 (digits.drop 10) }

/-- The encoder that is ready to send, and the file with the key that it sends. -/
def deserialize (file : SubGhzKeyFile) :
    Except SubGhzProtocolStatus (SubGhzProtocolEncoderSecPlusV1 × SubGhzKeyFile) := do
  let generic ← inst.generic.deserializeCheckCountBit file
    (2 * SECPLUS_V1_MIN_COUNT_BIT_FOR_FOUND)
  let repeats := (file.repeats.map BitVec.toNat).getD inst.encoder.repeats
  let inst := { inst with
    generic := generic
    encoder := { inst.encoder with repeats := repeats } }
  match inst.encode with
  | none => .error .errorParserOthers
  | some inst =>
    match inst.getUpload with
    | none => .error .errorEncoderGetUpload
    | some inst =>
      .ok ({ inst with encoder := { inst.encoder with isRunning := true } },
        { file with key := some inst.generic.data })

end SubGhzProtocolEncoderSecPlusV1

/-! ## The decoder -/

inductive SecPlusV1DecoderStep
  | reset
  | searchStartBit
  | saveDuration
  | decoderData
  deriving DecidableEq, Repr

structure SubGhzProtocolDecoderSecPlusV1 where
  parserStep : SecPlusV1DecoderStep
  teLast : ℕ
  decodeCountBit : ℕ
  generic : SubGhzBlockGeneric
  packetAccepted : BitVec 8
  basePacketIndex : ℕ
  dataArray : List ℕ
  deriving DecidableEq

/-- The rolling and the fixed part with the digits of a packet. -/
def secplusV1DecodePacket : ℕ → BitVec 32 → BitVec 32 → List ℕ → BitVec 32 × BitVec 32
  | acc, rolling, fixed, digit :: sum :: digits =>
    let rolling := rolling * 3 + BitVec.ofNat 32 digit
    let acc := acc + digit
    let digit := (60 + sum - acc) % 3
    let fixed := fixed * 3 + BitVec.ofNat 32 digit
    secplusV1DecodePacket (acc + digit) rolling fixed digits
  | _, rolling, fixed, _ => (rolling, fixed)

namespace SubGhzProtocolDecoderSecPlusV1

def alloc : SubGhzProtocolDecoderSecPlusV1 where
  parserStep := .reset
  teLast := 0
  decodeCountBit := 0
  generic := { data := 0, serial := 0, dataCountBit := 0, btn := 0, cnt := 0 }
  packetAccepted := 0
  basePacketIndex := 0
  dataArray := List.replicate 44 0

variable (inst : SubGhzProtocolDecoderSecPlusV1)

def decode : SubGhzProtocolDecoderSecPlusV1 :=
  let packet1 := secplusV1DecodePacket 0 0 0
    (secplusV1Packet inst.dataArray SECPLUS_V1_PACKET_1_INDEX_BASE)
  let packet2 := secplusV1DecodePacket 0 packet1.1 packet1.2
    (secplusV1Packet inst.dataArray SECPLUS_V1_PACKET_2_INDEX_BASE)
  let rolling : BitVec 32 :=
    (subghzProtocolBlocksReverseKey (packet2.1.setWidth 64) 32).setWidth 32
  { inst with
    generic := { inst.generic with
      data := joinWords packet2.2 rolling
      dataCountBit := SECPLUS_V1_MIN_COUNT_BIT_FOR_FOUND * 2 } }

/-- A level of so many short ones, within so many deltas. -/
def Near (duration count : ℕ) : Prop :=
  durationDiff duration (SECPLUS_V1_TE_SHORT * count) < SECPLUS_V1_TE_DELTA * count

instance (duration count : ℕ) : Decidable (Near duration count) :=
  inferInstanceAs (Decidable (_ < _))

/-- The next digit of the packet. -/
def store (digit : ℕ) : SubGhzProtocolDecoderSecPlusV1 :=
  { inst with
    dataArray :=
      inst.dataArray.set (inst.decodeCountBit + inst.basePacketIndex) digit
    decodeCountBit := inst.decodeCountBit + 1
    parserStep := .saveDuration }

/-- The packet whose last digit was the last one, if it has all of them. -/
def accept : Bool × SubGhzProtocolDecoderSecPlusV1 :=
  if inst.decodeCountBit = SECPLUS_V1_MIN_COUNT_BIT_FOR_FOUND then
    let packetAccepted := inst.packetAccepted
    let packetAccepted :=
      if inst.basePacketIndex = SECPLUS_V1_PACKET_1_INDEX_BASE then
        packetAccepted ||| SECPLUS_V1_PACKET_1_ACCEPTED
      else packetAccepted
    let packetAccepted :=
      if inst.basePacketIndex = SECPLUS_V1_PACKET_2_INDEX_BASE then
        packetAccepted ||| SECPLUS_V1_PACKET_2_ACCEPTED
      else packetAccepted
    let inst := { inst with packetAccepted := packetAccepted }
    if packetAccepted = SECPLUS_V1_PACKET_1_ACCEPTED ||| SECPLUS_V1_PACKET_2_ACCEPTED then
      (true, inst.decode)
    else (false, inst)
  else (false, inst)

/-- Whether a message has been read, and the decoder afterwards. -/
def feed (pulse : LevelDuration) : Bool × SubGhzProtocolDecoderSecPlusV1 :=
  match inst.parserStep with
  | .reset =>
    if pulse.level = false ∧ Near pulse.duration 120 then
      (false, { inst with
        parserStep := .searchStartBit
        decodeCountBit := 0
        packetAccepted := 0
        dataArray := List.replicate 44 0 })
    else (false, inst)
  | .searchStartBit =>
    if pulse.level then
      if durationDiff pulse.duration SECPLUS_V1_TE_SHORT < SECPLUS_V1_TE_DELTA then
        (false, { inst with basePacketIndex := SECPLUS_V1_PACKET_1_INDEX_BASE }.store 0)
      else if durationDiff pulse.duration SECPLUS_V1_TE_LONG < SECPLUS_V1_TE_DELTA then
        (false, { inst with basePacketIndex := SECPLUS_V1_PACKET_2_INDEX_BASE }.store 2)
      else (false, { inst with parserStep := .reset })
    else (false, { inst with parserStep := .reset })
  | .saveDuration =>
    if pulse.level = false then
      if Near pulse.duration 120 then
        let accepted := inst.accept
        (accepted.1, { accepted.2 with parserStep := .searchStartBit, decodeCountBit := 0 })
      else
        (false, { inst with teLast := pulse.duration, parserStep := .decoderData })
    else (false, { inst with parserStep := .reset })
  | .decoderData =>
    if pulse.level = true ∧ inst.decodeCountBit ≤ SECPLUS_V1_MIN_COUNT_BIT_FOR_FOUND then
      if Near inst.teLast 3 ∧ Near pulse.duration 1 then (false, inst.store 0)
      else if Near inst.teLast 2 ∧ Near pulse.duration 2 then (false, inst.store 1)
      else if Near inst.teLast 1 ∧ Near pulse.duration 3 then (false, inst.store 2)
      else (false, { inst with parserStep := .reset })
    else (false, { inst with parserStep := .reset })

end SubGhzProtocolDecoderSecPlusV1

end KiisuFirmware
