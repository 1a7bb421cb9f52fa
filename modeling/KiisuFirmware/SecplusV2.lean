import KiisuFirmware.Manchester
import KiisuFirmware.SecplusV1

/-!
# Security+ 2.0

The messages of `secplus_v2.c`, how one is sent and how it is read. A message is two packets in
Manchester code, each with half of the counter's digits and twenty bits that stay. How a packet is
mixed is told by eight of its own bits.
-/

namespace KiisuFirmware

def SECPLUS_V2_HEADER : BitVec 64 := 0x3C0000000000

def SECPLUS_V2_HEADER_MASK : BitVec 64 := 0xFFFF3C0000000000

def SECPLUS_V2_PACKET_1 : BitVec 64 := 0x000000000000

def SECPLUS_V2_PACKET_2 : BitVec 64 := 0x010000000000

def SECPLUS_V2_PACKET_MASK : BitVec 64 := 0x30000000000

def SECPLUS_V2_TE_SHORT : ℕ := 250

def SECPLUS_V2_TE_LONG : ℕ := 500

def SECPLUS_V2_TE_DELTA : ℕ := 110

def SECPLUS_V2_MIN_COUNT_BIT_FOR_FOUND : ℕ := 62

/-! ## How a packet is mixed -/

/-- The three parts of a packet, of ten bits each. -/
structure SecplusV2Parts where
  p0 : BitVec 16
  p1 : BitVec 16
  p2 : BitVec 16
  deriving DecidableEq

/-- The other bits. -/
def mixInvetPart (p : BitVec 16) : BitVec 16 := ~~~p &&& 0x03FF

def mixInvet (invert : ℕ) (p : SecplusV2Parts) : Option SecplusV2Parts :=
  match invert with
  | 0x00 => some { p with p0 := mixInvetPart p.p0, p1 := mixInvetPart p.p1 }
  | 0x01 => some { p with p1 := mixInvetPart p.p1 }
  | 0x02 => some { p with p2 := mixInvetPart p.p2 }
  | 0x04 => some ⟨mixInvetPart p.p0, mixInvetPart p.p1, mixInvetPart p.p2⟩
  | 0x05 | 0x0a => some { p with p0 := mixInvetPart p.p0, p2 := mixInvetPart p.p2 }
  | 0x06 => some { p with p1 := mixInvetPart p.p1, p2 := mixInvetPart p.p2 }
  | 0x08 => some { p with p0 := mixInvetPart p.p0 }
  | 0x09 => some p
  | _ => none

def mixOrderDecode (order : ℕ) (p : SecplusV2Parts) : Option SecplusV2Parts :=
  match order with
  | 0x06 | 0x09 => some ⟨p.p2, p.p1, p.p0⟩
  | 0x08 | 0x04 => some ⟨p.p2, p.p0, p.p1⟩
  | 0x01 => some ⟨p.p1, p.p2, p.p0⟩
  | 0x00 => some ⟨p.p0, p.p2, p.p1⟩
  | 0x05 => some ⟨p.p1, p.p0, p.p2⟩
  | 0x02 | 0x0A => some p
  | _ => none

def mixOrderEncode (order : ℕ) (p : SecplusV2Parts) : Option SecplusV2Parts :=
  match order with
  | 0x06 | 0x09 => some ⟨p.p2, p.p1, p.p0⟩
  | 0x08 | 0x04 => some ⟨p.p1, p.p2, p.p0⟩
  | 0x01 => some ⟨p.p2, p.p0, p.p1⟩
  | 0x00 => some ⟨p.p0, p.p2, p.p1⟩
  | 0x05 => some ⟨p.p1, p.p0, p.p2⟩
  | 0x02 | 0x0A => some ⟨p.p0, p.p1, p.p2⟩
  | _ => none

/-- The bits of the three parts one by one, the highest ones first. -/
def interleave (p : SecplusV2Parts) : BitVec 64 :=
  (List.range 10).foldl (fun data i => data <<< 3 |||
    ((bitRead p.p0 (9 - i)).setWidth 64 <<< 2 ||| (bitRead p.p1 (9 - i)).setWidth 64 <<< 1 |||
      (bitRead p.p2 (9 - i)).setWidth 64)) 0

def deinterleave (data : BitVec 64) : SecplusV2Parts :=
  (List.range 10).foldl (fun p k =>
    let i := 29 - 3 * k
    { p0 := p.p0 <<< 1 ||| (bitRead data i).setWidth 16
      p1 := p.p1 <<< 1 ||| (bitRead data (i - 1)).setWidth 16
      p2 := p.p2 <<< 1 ||| (bitRead data (i - 2)).setWidth 16 }) ⟨0, 0, 0⟩

/-! ## The halves of a message -/

/-- The digits of a packet and its bits that stay. -/
def secplusV2DecodeHalf (data : BitVec 64) : Option (Vector ℕ 9 × BitVec 32) := do
  let order := (data >>> 34 &&& 0x0f).toNat
  let invert := (data >>> 30 &&& 0x0f).toNat
  let p ← mixInvet invert (deinterleave data)
  let p ← mixOrderDecode order p
  let data := order <<< 4 ||| invert
  let roll := #v[data >>> 6 &&& 0x03, data >>> 4 &&& 0x03, data >>> 2 &&& 0x03, data &&& 0x03,
    (p.p2 >>> 8 &&& 0x03).toNat, (p.p2 >>> 6 &&& 0x03).toNat, (p.p2 >>> 4 &&& 0x03).toNat,
    (p.p2 >>> 2 &&& 0x03).toNat, (p.p2 &&& 0x03).toNat]
  if 3 ∈ roll.toList then none
  else some (roll, p.p0.setWidth 32 <<< 10 ||| p.p1.setWidth 32)

def secplusV2EncodeHalf (roll : Vector ℕ 9) (fixed : BitVec 32) : BitVec 64 :=
  let order := roll[0] <<< 2 ||| roll[1]
  let invert := roll[2] <<< 2 ||| roll[3]
  let p2 := roll[4] <<< 8 ||| roll[5] <<< 6 ||| roll[6] <<< 4 ||| roll[7] <<< 2 ||| roll[8]
  let p : SecplusV2Parts :=
    ⟨(fixed >>> 10 &&& 0x3FF#32).setWidth 16, (fixed &&& 0x3FF#32).setWidth 16, BitVec.ofNat 16 p2⟩
  match (mixOrderEncode order p).bind (mixInvet invert) with
  | none => 0
  | some p => interleave p ||| (BitVec.ofNat 64 order <<< 34 ||| BitVec.ofNat 64 invert <<< 30)

/-- The message with what its two packets tell. -/
def secplusV2RemoteController (generic : SubGhzBlockGeneric) (packet1 : BitVec 64) :
    SubGhzBlockGeneric :=
  match secplusV2DecodeHalf packet1, secplusV2DecodeHalf generic.data with
  | some (roll1, fixed1), some (roll2, fixed2) =>
    let rollingDigits := [roll2[8], roll1[8], roll2[4], roll2[5], roll2[6], roll2[7], roll1[4],
      roll1[5], roll1[6], roll1[7], roll2[0], roll2[1], roll2[2], roll2[3], roll1[0], roll1[1],
      roll1[2], roll1[3]]
    let rolling : BitVec 32 :=
      rollingDigits.foldl (fun rolling digit => rolling * 3 + BitVec.ofNat 32 digit) 0
    if 0x10000000 ≤ rolling.toNat then { generic with cnt := 0, btn := 0, serial := 0 }
    else { generic with
      cnt := (subghzProtocolBlocksReverseKey (rolling.setWidth 64) 28).setWidth 32
      btn := (fixed1 >>> 12).setWidth 8
      serial := fixed1 <<< 20 ||| fixed2 }
  | _, _ => { generic with cnt := 0, btn := 0, serial := 0 }

/-! ## The encoder -/

structure SubGhzProtocolEncoderSecPlusV2 where
  encoder : SubGhzProtocolBlockEncoder
  generic : SubGhzBlockGeneric
  secplusPacket1 : BitVec 64
  deriving DecidableEq

namespace SubGhzProtocolEncoderSecPlusV2

variable (inst : SubGhzProtocolEncoderSecPlusV2)

def encode : SubGhzProtocolEncoderSecPlusV2 :=
  let fixed1 : BitVec 32 := inst.generic.btn.setWidth 32 <<< 12 ||| inst.generic.serial >>> 20
  let fixed2 : BitVec 32 := inst.generic.serial &&& 0xFFFFF
  let cnt := inst.generic.cnt + 1
  let cnt := if 0xFFFFFFF < cnt.toNat then 0xE500000 else cnt
  let rolling : BitVec 32 := (subghzProtocolBlocksReverseKey (cnt.setWidth 64) 28).setWidth 32
  let digit (i : ℕ) : ℕ := (ternary 18 rolling.toNat).getD i 0
  let roll1 := #v[digit 14, digit 15, digit 16, digit 17, digit 6, digit 7, digit 8, digit 9,
    digit 1]
  let roll2 := #v[digit 10, digit 11, digit 12, digit 13, digit 2, digit 3, digit 4, digit 5,
    digit 0]
  { inst with
    secplusPacket1 :=
      SECPLUS_V2_HEADER ||| SECPLUS_V2_PACKET_1 ||| secplusV2EncodeHalf roll1 fixed1
    generic := { inst.generic with
      cnt := cnt
      data := SECPLUS_V2_HEADER ||| SECPLUS_V2_PACKET_2 ||| secplusV2EncodeHalf roll2 fixed2 } }

def addDurationToUpload : ManchesterEncoderResult → LevelDuration
  | .shortLow => ⟨false, SECPLUS_V2_TE_SHORT⟩
  | .longLow => ⟨false, SECPLUS_V2_TE_LONG⟩
  | .longHigh => ⟨true, SECPLUS_V2_TE_LONG⟩
  | .shortHigh => ⟨true, SECPLUS_V2_TE_SHORT⟩

/-- What is sent of some bits, and the state of the encoder after them. -/
def uploadBits : ManchesterEncoderState → List Bool → List LevelDuration × ManchesterEncoderState
  | encState, [] => ([], encState)
  | encState, bit :: bits =>
    match manchesterEncoderAdvance encState bit with
    | (true, encState, result) =>
      let rest := uploadBits encState bits
      (addDurationToUpload result :: rest.1, rest.2)
    | (false, encState, result) =>
      let (_, encState, result') := manchesterEncoderAdvance encState bit
      let rest := uploadBits encState bits
      (addDurationToUpload result :: addDurationToUpload result' :: rest.1, rest.2)

/-- What is sent of a packet. A last level that is low is part of the gap. -/
def uploadPacket (encState : ManchesterEncoderState) (packet : BitVec 64) (dataCountBit : ℕ) :
    List LevelDuration × ManchesterEncoderState :=
  let bits := (List.range dataCountBit).map fun k => packet.getLsbD (dataCountBit - 1 - k)
  let sent := uploadBits (manchesterEncoderReset encState) bits
  let last := addDurationToUpload (manchesterEncoderFinish sent.2)
  let gap : LevelDuration := ⟨false, SECPLUS_V2_TE_LONG * 136⟩
  (sent.1 ++ if last.level then [last, gap] else [gap], manchesterEncoderReset sent.2)

def getUpload : SubGhzProtocolEncoderSecPlusV2 :=
  let packet1 := uploadPacket .unset inst.secplusPacket1 inst.generic.dataCountBit
  let packet2 := uploadPacket packet1.2 inst.generic.data inst.generic.dataCountBit
  let upload := packet1.1 ++ packet2.1
  { inst with encoder := { inst.encoder with upload := upload, sizeUpload := upload.length } }

end SubGhzProtocolEncoderSecPlusV2

/-! ## The decoder -/

inductive SecPlusV2DecoderStep
  | reset
  | decoderData
  deriving DecidableEq, Repr

structure SubGhzProtocolDecoderSecPlusV2 where
  parserStep : SecPlusV2DecoderStep
  decodeData : BitVec 64
  decodeCountBit : ℕ
  generic : SubGhzBlockGeneric
  manchesterSavedState : ManchesterState
  secplusPacket1 : BitVec 64
  deriving DecidableEq

namespace SubGhzProtocolDecoderSecPlusV2

variable (inst : SubGhzProtocolDecoderSecPlusV2)

/-- It does not reset the decoder, which needs two packets. -/
def reset : SubGhzProtocolDecoderSecPlusV2 := inst

def checkPacket : Bool × SubGhzProtocolDecoderSecPlusV2 :=
  if inst.decodeData &&& SECPLUS_V2_HEADER_MASK = SECPLUS_V2_HEADER then
    if inst.decodeData &&& SECPLUS_V2_PACKET_MASK = SECPLUS_V2_PACKET_1 then
      (false, { inst with secplusPacket1 := inst.decodeData })
    else if inst.decodeData &&& SECPLUS_V2_PACKET_MASK = SECPLUS_V2_PACKET_2 ∧
        inst.secplusPacket1 ≠ 0 then
      (true, inst)
    else (false, inst)
  else (false, inst)

/-- The decoder before the first bit of a packet, of which the level that a gap joins has passed. -/
def startPacket : SubGhzProtocolDecoderSecPlusV2 :=
  let state := (manchesterAdvance inst.manchesterSavedState .reset).1
  let state := (manchesterAdvance state .longHigh).1
  let state := (manchesterAdvance state .shortLow).1
  { inst with decodeData := 0, decodeCountBit := 0, manchesterSavedState := state }

/-- What a level that lasts neither too short nor too long does. -/
def advance (event : ManchesterEvent) : SubGhzProtocolDecoderSecPlusV2 :=
  let advanced := manchesterAdvance inst.manchesterSavedState event
  match advanced.2 with
  | none => { inst with manchesterSavedState := advanced.1 }
  | some data => { inst with
      manchesterSavedState := advanced.1
      decodeData := inst.decodeData <<< 1 ||| (BitVec.ofBool data).setWidth 64
      decodeCountBit := inst.decodeCountBit + 1 }

/-- Whether a message has been read, and the decoder afterwards. -/
def feed (pulse : LevelDuration) : Bool × SubGhzProtocolDecoderSecPlusV2 :=
  match inst.parserStep with
  | .reset =>
    if pulse.level = false ∧
        durationDiff pulse.duration (SECPLUS_V2_TE_LONG * 130) < SECPLUS_V2_TE_DELTA * 100 then
      (false, { inst with parserStep := .decoderData, secplusPacket1 := 0 }.startPacket)
    else (false, inst)
  | .decoderData =>
    if pulse.level = false then
      if durationDiff pulse.duration SECPLUS_V2_TE_SHORT < SECPLUS_V2_TE_DELTA then
        (false, inst.advance .shortLow)
      else if durationDiff pulse.duration SECPLUS_V2_TE_LONG < SECPLUS_V2_TE_DELTA then
        (false, inst.advance .longLow)
      else if SECPLUS_V2_TE_LONG * 2 + SECPLUS_V2_TE_DELTA ≤ pulse.duration then
        if inst.decodeCountBit = SECPLUS_V2_MIN_COUNT_BIT_FOR_FOUND then
          let generic := { inst.generic with
            data := inst.decodeData, dataCountBit := inst.decodeCountBit }
          let checked := { inst with generic := generic }.checkPacket
          if checked.1 then (true, { checked.2 with parserStep := .reset }.startPacket)
          else (false, checked.2.startPacket)
        else (false, inst.startPacket)
      else (false, { inst with parserStep := .reset })
    else if durationDiff pulse.duration SECPLUS_V2_TE_SHORT < SECPLUS_V2_TE_DELTA then
      (false, inst.advance .shortHigh)
    else if durationDiff pulse.duration SECPLUS_V2_TE_LONG < SECPLUS_V2_TE_DELTA then
      (false, inst.advance .longHigh)
    else (false, { inst with parserStep := .reset })

end SubGhzProtocolDecoderSecPlusV2

end KiisuFirmware
