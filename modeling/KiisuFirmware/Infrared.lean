import KiisuFirmware.Run

/-!
# The infrared decoders

One decoder is shared by all protocols: it waits for a preamble, lets the protocol decode one timing
after the other, and when enough bits have come lets it interpret them. What the protocols are made
of is in `infraredProtocol`.

`timings` is the part of the array that is in use, and its length is the source's `timings_cnt`. A
read of a word behind `data` gives zeros; no protocol uses bits from there. The tolerance of a
preamble is a `float` in the source, but all that is added to it is far below 2 ^ 24.
-/

namespace KiisuFirmware

inductive InfraredProtocol
  | unknown
  | nec
  | necExt
  | nec42
  | nec42Ext
  | samsung32
  | rc6
  | rc5
  | rc5x
  | sirc
  | sirc15
  | sirc20
  | kaseikyo
  | rca
  | pioneer
  deriving DecidableEq, Repr

structure InfraredMessage where
  protocol : InfraredProtocol
  address : BitVec 32
  command : BitVec 32
  repeated : Bool
  deriving DecidableEq

inductive InfraredStatus
  | error
  | ok
  | done
  | ready
  deriving DecidableEq, Repr

inductive InfraredCommonStateDecoder
  | waitPreamble
  | decode
  | processRepeat
  deriving DecidableEq, Repr

/-- The size of the array of timings. -/
def INFRARED_TIMINGS : ℕ := 6

/-- `toggle` is what the decoders of RC5 and RC6 keep around the shared one. -/
structure InfraredCommonDecoder where
  toggle : Bool
  timings : List ℕ
  message : InfraredMessage
  state : InfraredCommonStateDecoder
  switchDetect : Bool
  level : Bool
  databitCnt : ℕ
  data : List (BitVec 8)
  deriving DecidableEq

/-- What must not happen: a write behind `timings` or `data`, a failed check, a loop without end. -/
inductive InfraredFault
  | timingsIndex
  | dataIndex
  | check
  | endless
  deriving DecidableEq, Repr

structure InfraredTimings where
  minSplitTime : ℕ
  silenceTime : ℕ
  preambleMark : ℕ
  preambleSpace : ℕ
  bit1Mark : ℕ
  bit1Space : ℕ
  bit0Mark : ℕ
  bit0Space : ℕ
  preambleTolerance : ℕ
  bitTolerance : ℕ

/-- `databitLen` holds the lengths that are not zero, the greatest one first. -/
structure InfraredCommonProtocol where
  timings : InfraredTimings
  databitLen : List ℕ
  manchesterStartFromSpace : Bool

abbrev InfraredDecode : Type := InfraredCommonDecoder → Bool → ℕ →
  Except InfraredFault (InfraredStatus × InfraredCommonDecoder)

structure InfraredCommonProtocolSpec extends InfraredCommonProtocol where
  decode : InfraredDecode
  interpret : InfraredCommonDecoder → Bool × InfraredCommonDecoder
  decodeRepeat : Option (InfraredCommonDecoder → InfraredStatus × InfraredCommonDecoder)

/-- The greatest number of bits. -/
def InfraredCommonProtocol.maxLen (protocol : InfraredCommonProtocol) : ℕ :=
  protocol.databitLen.headD 0

def MatchTiming (x v delta : ℕ) : Prop := x < v + delta ∧ v - delta < x

instance (x v delta : ℕ) : Decidable (MatchTiming x v delta) :=
  inferInstanceAs (Decidable (_ ∧ _))

namespace InfraredCommonDecoder

variable (decoder : InfraredCommonDecoder)

def consumeSamples (shift : ℕ) : InfraredCommonDecoder :=
  { decoder with timings := decoder.timings.drop shift }

/-- The level of the first timing, and of the next one if there is none. -/
def timingLevel : Bool := (decoder.level.toNat + decoder.timings.length + 1) % 2 == 1

def accumulateLsb (bit : Bool) : Except InfraredFault InfraredCommonDecoder :=
  let index := decoder.databitCnt / 8
  let shift := decoder.databitCnt % 8
  if index < decoder.data.length then
    let byte := if shift = 0 then 0 else decoder.data.getD index 0
    .ok { decoder with
      data := decoder.data.set index (if bit then byte ||| 1 <<< shift else byte)
      databitCnt := decoder.databitCnt + 1 }
  else
    .error .dataIndex

/-- Four bytes of the data, from one on. -/
def word (offset : ℕ) : BitVec 32 :=
  decoder.data.getD (offset + 3) 0 ++ decoder.data.getD (offset + 2) 0 ++
    decoder.data.getD (offset + 1) 0 ++ decoder.data.getD offset 0

def byte (index : ℕ) : BitVec 8 := decoder.data.getD index 0

/-- A message that is not a repetition. -/
def withMessage (protocol : InfraredProtocol) (address command : BitVec 32) :
    InfraredCommonDecoder :=
  { decoder with message :=
    { protocol := protocol, address := address, command := command, repeated := false } }

end InfraredCommonDecoder

/-! ## The common decoder -/

section Common

variable (protocol : InfraredCommonProtocol) (decoder : InfraredCommonDecoder)

/-- Whether a preamble is found, and the timings behind it. -/
def findPreamble (timings : InfraredTimings) : List ℕ → Bool × List ℕ
  | mark :: space :: rest =>
    if MatchTiming mark timings.preambleMark timings.preambleTolerance ∧
        MatchTiming space timings.preambleSpace timings.preambleTolerance then
      (true, rest)
    else
      findPreamble timings rest
  | rest => (false, rest)

def infraredCheckPreamble : Bool × InfraredCommonDecoder :=
  if decoder.timings = [] then
    (false, decoder)
  else
    let decoder := if decoder.timingLevel then decoder else decoder.consumeSamples 1
    if protocol.timings.preambleMark = 0 then
      (true, decoder)
    else
      let (result, rest) := findPreamble protocol.timings decoder.timings
      (result, { decoder with timings := rest })

/-- Pulse distance-width modulation. -/
def infraredCommonDecodePdwm : InfraredDecode := fun decoder level timing =>
  let t := protocol.timings
  let analyzeTiming := level ^^ (t.bit1Mark == t.bit0Mark)
  let bit1 := if level then t.bit1Mark else t.bit1Space
  let bit0 := if level then t.bit0Mark else t.bit0Space
  let noInfoTiming := if t.bit1Mark = t.bit0Mark then t.bit1Mark else t.bit1Space
  if analyzeTiming then
    if MatchTiming timing bit1 t.bitTolerance then
      (decoder.accumulateLsb true).map fun decoder => (.ok, decoder)
    else if MatchTiming timing bit0 t.bitTolerance then
      (decoder.accumulateLsb false).map fun decoder => (.ok, decoder)
    else
      .ok (.error, decoder)
  else if MatchTiming timing noInfoTiming t.bitTolerance then
    .ok (.ok, decoder)
  else
    .ok (.error, decoder)

/-- The first half of a code that starts from a space is not seen: it is as if the last switch had
been in the middle of a time-quant. -/
def manchesterStart : Except InfraredFault InfraredCommonDecoder :=
  if protocol.manchesterStartFromSpace ∧ decoder.databitCnt = 0 then
    { decoder with switchDetect := true }.accumulateLsb false
  else
    .ok decoder

/-- The level switches in the middle of a time-quant, or behind a single timing between two. -/
def manchesterSwitch (level singleTiming doubleTiming : Bool) :
    Except InfraredFault (InfraredStatus × InfraredCommonDecoder) :=
  if !decoder.switchDetect && doubleTiming then
    .ok (.error, decoder)
  else
    let switchDetect := !decoder.switchDetect || !singleTiming
    let decoder := { decoder with switchDetect := switchDetect }
    if switchDetect then
      if protocol.maxLen = decoder.databitCnt then
        .ok (.error, decoder)
      else
        (decoder.accumulateLsb level).map fun decoder => (.ok, decoder)
    else
      .ok (.ok, decoder)

def infraredCommonDecodeManchester : InfraredDecode := fun decoder level timing =>
  let bit := protocol.timings.bit1Mark
  let tolerance := protocol.timings.bitTolerance
  let singleTiming : Bool := MatchTiming timing bit tolerance
  let doubleTiming : Bool := MatchTiming timing (2 * bit) tolerance
  if !singleTiming && !doubleTiming then
    .ok (.error, decoder)
  else
    (manchesterStart protocol decoder).bind fun decoder =>
      manchesterSwitch protocol decoder level singleTiming doubleTiming

def infraredCommonDecoderResetState : InfraredCommonDecoder :=
  let decoder := { decoder with
    state := .waitPreamble
    databitCnt := 0
    switchDetect := false
    message := { decoder.message with protocol := .unknown } }
  if protocol.timings.preambleMark = 0 then decoder.consumeSamples 1 else decoder

def infraredCommonDecoderReset : InfraredCommonDecoder :=
  { infraredCommonDecoderResetState protocol decoder with timings := [] }

end Common

section Decoder

variable (protocol : InfraredCommonProtocolSpec)

/-- A level that lasts so long ends the bits, if there may be that many. -/
def LongLow (decoder : InfraredCommonDecoder) (timing : ℕ) : Prop :=
  protocol.timings.minSplitTime ≠ 0 ∧ decoder.timingLevel = false ∧
    protocol.timings.minSplitTime < timing ∧ decoder.databitCnt ∈ protocol.databitLen

/-- It does not last long enough, and there are no more bits. -/
def ShortLow (decoder : InfraredCommonDecoder) (timing : ℕ) : Prop :=
  protocol.timings.minSplitTime ≠ 0 ∧ decoder.timingLevel = false ∧
    timing ≤ protocol.timings.minSplitTime ∧ protocol.maxLen = decoder.databitCnt

instance (decoder : InfraredCommonDecoder) (timing : ℕ) :
    Decidable (LongLow protocol decoder timing) := inferInstanceAs (Decidable (_ ∧ _))

instance (decoder : InfraredCommonDecoder) (timing : ℕ) :
    Decidable (ShortLow protocol decoder timing) := inferInstanceAs (Decidable (_ ∧ _))

/-- The loop of `infrared_common_decode_bits`; the list is that of the timings that are left. -/
def infraredCommonDecodeBits :
    List ℕ → InfraredCommonDecoder → Except InfraredFault (InfraredStatus × InfraredCommonDecoder)
  | [], decoder => .ok (.ok, decoder)
  | timing :: left, decoder =>
    if LongLow protocol decoder timing then
      .ok (.ready, decoder)
    else if ShortLow protocol decoder timing then
      .ok (.error, decoder)
    else do
      let level := decoder.timingLevel
      let (status, decoder) ← protocol.decode decoder level timing
      if protocol.maxLen < decoder.databitCnt then
        throw .check
      if status = .error then
        return (.error, decoder)
      let decoder := decoder.consumeSamples 1
      if level ∧ protocol.maxLen = decoder.databitCnt ∧ protocol.timings.minSplitTime = 0 then
        return (.ready, decoder)
      if status = .ok then
        infraredCommonDecodeBits left decoder
      else
        return (status, decoder)

/-- Whether there is a message, which is then that of the decoder. -/
def infraredCommonDecoderCheckReady (decoder : InfraredCommonDecoder) :
    Bool × InfraredCommonDecoder :=
  if decoder.databitCnt ∈ protocol.databitLen then
    let (interpreted, decoder) := protocol.interpret decoder
    if interpreted then
      (true, { decoder with
        databitCnt := 0
        state := if protocol.decodeRepeat.isSome then .processRepeat else .waitPreamble })
    else
      (false, decoder)
  else
    (false, decoder)

/-- How a turn of the loop of `infrared_common_decode` ends. -/
inductive InfraredTurn
  | again (message : Bool) (decoder : InfraredCommonDecoder)
  | leave (message : Bool) (decoder : InfraredCommonDecoder)

def infraredCommonDecodeTurn (message : Bool) (decoder : InfraredCommonDecoder) :
    Except InfraredFault InfraredTurn :=
  match decoder.state with
  | .waitPreamble =>
    match infraredCheckPreamble protocol.toInfraredCommonProtocol decoder with
    | (true, decoder) =>
      .ok (.again message { decoder with state := .decode, databitCnt := 0, switchDetect := false })
    | (false, decoder) => .ok (.leave message decoder)
  | .decode => do
    let (status, decoder) ← infraredCommonDecodeBits protocol decoder.timings decoder
    match status with
    | .ready =>
      match infraredCommonDecoderCheckReady protocol decoder with
      | (true, decoder) => .ok (.again true decoder)
      | (false, decoder) =>
        -- the longest form cannot be decoded: begin from start
        if protocol.maxLen = decoder.databitCnt then
          .ok (.leave false { decoder with state := .waitPreamble })
        else
          .ok (.leave false decoder)
    | .error =>
      .ok (.again message
        (infraredCommonDecoderResetState protocol.toInfraredCommonProtocol decoder))
    | _ => .ok (.leave message decoder)
  | .processRepeat =>
    match protocol.decodeRepeat with
    -- only a protocol that decodes repetitions gets here
    | none => .error .check
    | some decodeRepeat =>
      match decodeRepeat decoder with
      | (.error, decoder) =>
        .ok (.again message
          (infraredCommonDecoderResetState protocol.toInfraredCommonProtocol decoder))
      | (.ready, decoder) =>
        .ok (.leave true { decoder with message := { decoder.message with repeated := true } })
      | (_, decoder) => .ok (.leave message decoder)

/-- The loop of `infrared_common_decode`, of at most so many turns. -/
def infraredCommonDecodeLoop :
    ℕ → Bool → InfraredCommonDecoder → Except InfraredFault (Bool × InfraredCommonDecoder)
  | 0, _, _ => .error .endless
  | turns + 1, message, decoder => do
    match ← infraredCommonDecodeTurn protocol message decoder with
    | .again message decoder => infraredCommonDecodeLoop turns message decoder
    | .leave message decoder => .ok (message, decoder)

/-- More turns than are ever taken. -/
def INFRARED_TURNS : ℕ := 32

def infraredCommonDecode (decoder : InfraredCommonDecoder) (level : Bool) (duration : ℕ) :
    Except InfraredFault (Option InfraredMessage × InfraredCommonDecoder) := do
  let decoder := if decoder.level = level then
      infraredCommonDecoderReset protocol.toInfraredCommonProtocol decoder
    else
      decoder
  if INFRARED_TIMINGS ≤ decoder.timings.length then
    throw .timingsIndex
  let (message, decoder) ← infraredCommonDecodeLoop protocol INFRARED_TURNS false
    { decoder with level := level, timings := decoder.timings ++ [duration] }
  return (if message then some decoder.message else none, decoder)

def infraredCommonDecoderAlloc : InfraredCommonDecoder where
  toggle := false
  timings := []
  message := { protocol := .nec, address := 0, command := 0, repeated := false }
  state := .waitPreamble
  switchDetect := false
  level := true
  databitCnt := 0
  data := List.replicate ((protocol.maxLen + 7) / 8) 0

inductive InfraredEvent
  | decode (level : Bool) (duration : ℕ)
  | checkReady
  | reset

def infraredStep (decoder : InfraredCommonDecoder) :
    InfraredEvent → Except InfraredFault InfraredCommonDecoder
  | .decode level duration => (infraredCommonDecode protocol decoder level duration).map Prod.snd
  | .checkReady => .ok (infraredCommonDecoderCheckReady protocol decoder).2
  | .reset => .ok (infraredCommonDecoderReset protocol.toInfraredCommonProtocol decoder)

end Decoder

/-! ## The protocols -/

/-- `reverse`: the lowest bit is the highest one. -/
def infraredReverse (value : BitVec 8) : BitVec 8 := value.reverse

open InfraredCommonDecoder

section Nec

def INFRARED_NEC_REPEAT_PAUSE_MIN : ℕ := 4000
def INFRARED_NEC_REPEAT_PAUSE_MAX : ℕ := 150000
def INFRARED_NEC_REPEAT_MARK : ℕ := 9000
def INFRARED_NEC_REPEAT_SPACE : ℕ := 2250

def infraredNec : InfraredCommonProtocol where
  timings :=
    { minSplitTime := INFRARED_NEC_REPEAT_PAUSE_MIN
      silenceTime := 110000
      preambleMark := 9000
      preambleSpace := 4500
      bit1Mark := 560
      bit1Space := 1690
      bit0Mark := 560
      bit0Space := 560
      preambleTolerance := 200
      bitTolerance := 120 }
  databitLen := [42, 32]
  manchesterStartFromSpace := false

def infraredDecoderNecInterpret (decoder : InfraredCommonDecoder) : Bool × InfraredCommonDecoder :=
  if decoder.databitCnt = 32 then
    let address := decoder.byte 0
    let addressInverse := decoder.byte 1
    let command := decoder.byte 2
    let commandInverse := decoder.byte 3
    if command = ~~~commandInverse ∧ address = ~~~addressInverse then
      (true, decoder.withMessage .nec (address.setWidth 32) (command.setWidth 32))
    else
      (true, decoder.withMessage .necExt ((addressInverse ++ address).setWidth 32)
        ((commandInverse ++ command).setWidth 32))
  else if decoder.databitCnt = 42 then
    let data1 := decoder.word 0
    let data2 := (decoder.word 4).setWidth 16
    let address := data1.setWidth 16 &&& 0x1FFF
    let addressInverse := (data1 >>> 13).setWidth 16 &&& 0x1FFF
    let command := (data1 >>> 26).setWidth 16 &&& 0x3F ||| (data2 &&& 0x3) <<< 6
    let commandInverse := data2 >>> 2 &&& 0xFF
    if address = ~~~addressInverse &&& 0x1FFF ∧ command = ~~~commandInverse &&& 0xFF then
      (true, decoder.withMessage .nec42 (address.setWidth 32) (command.setWidth 32))
    else
      (true, decoder.withMessage .nec42Ext
        (address.setWidth 32 ||| addressInverse.setWidth 32 <<< 13)
        (command.setWidth 32 ||| commandInverse.setWidth 32 <<< 8))
  else
    (false, decoder)

/-- The timings start from the space between a message and its repetition. -/
def infraredDecoderNecDecodeRepeat (decoder : InfraredCommonDecoder) :
    InfraredStatus × InfraredCommonDecoder :=
  let t := infraredNec.timings
  match decoder.timings with
  | pause :: mark :: space :: stop :: _ =>
    if INFRARED_NEC_REPEAT_PAUSE_MIN < pause ∧ pause < INFRARED_NEC_REPEAT_PAUSE_MAX ∧
        MatchTiming mark INFRARED_NEC_REPEAT_MARK t.preambleTolerance ∧
        MatchTiming space INFRARED_NEC_REPEAT_SPACE t.preambleTolerance ∧
        MatchTiming stop t.bit1Mark t.bitTolerance then
      (.ready, { decoder with timings := [] })
    else
      (.error, decoder)
  | _ => (.ok, decoder)

def infraredProtocolNec : InfraredCommonProtocolSpec where
  toInfraredCommonProtocol := infraredNec
  decode := infraredCommonDecodePdwm infraredNec
  interpret := infraredDecoderNecInterpret
  decodeRepeat := some infraredDecoderNecDecodeRepeat

end Nec

section Samsung

def INFRARED_SAMSUNG_REPEAT_PAUSE_MIN : ℕ := 30000
def INFRARED_SAMSUNG_REPEAT_PAUSE_MAX : ℕ := 140000
def INFRARED_SAMSUNG_REPEAT_MARK : ℕ := 4500
def INFRARED_SAMSUNG_REPEAT_SPACE : ℕ := 4500

def infraredSamsung32 : InfraredCommonProtocol where
  timings :=
    { minSplitTime := 5000
      silenceTime := 145000
      preambleMark := 4500
      preambleSpace := 4500
      bit1Mark := 550
      bit1Space := 1650
      bit0Mark := 550
      bit0Space := 550
      preambleTolerance := 200
      bitTolerance := 120 }
  databitLen := [32]
  manchesterStartFromSpace := false

def infraredDecoderSamsung32Interpret (decoder : InfraredCommonDecoder) :
    Bool × InfraredCommonDecoder :=
  let address1 := decoder.byte 0
  let address2 := decoder.byte 1
  let command := decoder.byte 2
  let commandInverse := decoder.byte 3
  if address1 = address2 ∧ command = ~~~commandInverse then
    (true, decoder.withMessage .samsung32 (address1.setWidth 32) (command.setWidth 32))
  else
    (false, decoder)

def infraredDecoderSamsung32DecodeRepeat (decoder : InfraredCommonDecoder) :
    InfraredStatus × InfraredCommonDecoder :=
  let t := infraredSamsung32.timings
  match decoder.timings with
  | pause :: mark :: space :: bitMark :: bitSpace :: stop :: _ =>
    if INFRARED_SAMSUNG_REPEAT_PAUSE_MIN < pause ∧ pause < INFRARED_SAMSUNG_REPEAT_PAUSE_MAX ∧
        MatchTiming mark INFRARED_SAMSUNG_REPEAT_MARK t.preambleTolerance ∧
        MatchTiming space INFRARED_SAMSUNG_REPEAT_SPACE t.preambleTolerance ∧
        MatchTiming bitMark t.bit1Mark t.bitTolerance ∧
        MatchTiming bitSpace t.bit1Space t.bitTolerance ∧
        MatchTiming stop t.bit1Mark t.bitTolerance then
      (.ready, { decoder with timings := [] })
    else
      (.error, decoder)
  | _ => (.ok, decoder)

def infraredProtocolSamsung32 : InfraredCommonProtocolSpec where
  toInfraredCommonProtocol := infraredSamsung32
  decode := infraredCommonDecodePdwm infraredSamsung32
  interpret := infraredDecoderSamsung32Interpret
  decodeRepeat := some infraredDecoderSamsung32DecodeRepeat

end Samsung

section Rc5

def infraredRc5 : InfraredCommonProtocol where
  timings :=
    { minSplitTime := 2700
      silenceTime := 2700 * 10
      preambleMark := 0
      preambleSpace := 0
      bit1Mark := 888
      bit1Space := 0
      bit0Mark := 0
      bit0Space := 0
      preambleTolerance := 0
      bitTolerance := 120 }
  databitLen := [1 + 1 + 1 + 5 + 6]
  manchesterStartFromSpace := true

/-- RC5 and RC6 tell a repetition from a message like the one before by a bit that is toggled. -/
def InfraredCommonDecoder.withToggledMessage (decoder : InfraredCommonDecoder)
    (protocol : InfraredProtocol) (address command : BitVec 8) (toggle : Bool) :
    InfraredCommonDecoder :=
  let message := decoder.message
  let same := message.address = address.setWidth 32 ∧ message.command = command.setWidth 32 ∧
    message.protocol = protocol
  { decoder with
    toggle := toggle
    message :=
      { protocol := protocol
        address := address.setWidth 32
        command := command.setWidth 32
        repeated := same ∧ toggle = decoder.toggle } }

/-- The bits are inverted, and the first of address and command is the highest. -/
def infraredDecoderRc5Interpret (decoder : InfraredCommonDecoder) : Bool × InfraredCommonDecoder :=
  let decoder := { decoder with
    data := (decoder.data.set 0 (~~~decoder.byte 0)).set 1 (~~~decoder.byte 1) }
  let address := infraredReverse (decoder.byte 0) &&& 0x1F
  let command := infraredReverse (decoder.byte 1) >>> 2 &&& 0x3F
  let startBit1 := (decoder.word 0).getLsbD 0
  let startBit2 := (decoder.word 0).getLsbD 1
  let toggle := (decoder.word 0).getLsbD 2
  if startBit1 then
    let protocol := if startBit2 then .rc5 else .rc5x
    (true, decoder.withToggledMessage protocol address command toggle)
  else
    (false, decoder)

def infraredProtocolRc5 : InfraredCommonProtocolSpec where
  toInfraredCommonProtocol := infraredRc5
  decode := infraredCommonDecodeManchester infraredRc5
  interpret := infraredDecoderRc5Interpret
  decodeRepeat := none

end Rc5

section Rc6

def infraredRc6 : InfraredCommonProtocol where
  timings :=
    { minSplitTime := 2700
      silenceTime := 2700 * 10
      preambleMark := 2666
      preambleSpace := 889
      bit1Mark := 444
      bit1Space := 0
      bit0Mark := 0
      bit0Space := 0
      preambleTolerance := 200
      bitTolerance := 120 }
  databitLen := [1 + 3 + 1 + 8 + 8]
  manchesterStartFromSpace := false

def infraredDecoderRc6Interpret (decoder : InfraredCommonDecoder) : Bool × InfraredCommonDecoder :=
  let data := decoder.word 0
  let address := infraredReverse ((data >>> 5).setWidth 8)
  let command := infraredReverse ((data >>> 13).setWidth 8)
  let startBit := data.getLsbD 0
  let toggle := data.getLsbD 4
  let mode := (data >>> 1).setWidth 8 &&& 0x7
  if startBit ∧ mode = 0 then
    (true, decoder.withToggledMessage .rc6 address command toggle)
  else
    (false, decoder)

def rc6ToggleBit (decoder : InfraredCommonDecoder) (bit : Bool) :
    Except InfraredFault InfraredCommonDecoder :=
  if 0 < decoder.data.length then
    .ok { decoder with
      databitCnt := decoder.databitCnt + 1
      data := decoder.data.set 0 (decoder.byte 0 ||| (BitVec.ofBool bit).setWidth 8 <<< 4) }
  else
    .error .dataIndex

/-- The time-quant of the fourth bit is twice as long. -/
def infraredDecoderRc6DecodeManchester : InfraredDecode := fun decoder level timing =>
  let bit := infraredRc6.timings.bit1Mark
  let tolerance := infraredRc6.timings.bitTolerance
  let singleTiming : Bool := MatchTiming timing bit tolerance
  let doubleTiming : Bool := MatchTiming timing (2 * bit) tolerance
  let tripleTiming : Bool := MatchTiming timing (3 * bit) tolerance
  if decoder.databitCnt = 4 then
    if singleTiming ^^ tripleTiming then
      (rc6ToggleBit decoder (if singleTiming then !level else level)).map fun decoder =>
        (.ok, decoder)
    else
      .ok (.error, decoder)
  else if decoder.databitCnt = 5 then
    if singleTiming || tripleTiming then
      infraredCommonDecodeManchester infraredRc6 { decoder with switchDetect := false } level
        (if tripleTiming then bit else timing)
    else if doubleTiming then
      .ok (.ok, decoder)
    else
      .ok (.error, decoder)
  else
    infraredCommonDecodeManchester infraredRc6 decoder level timing

def infraredProtocolRc6 : InfraredCommonProtocolSpec where
  toInfraredCommonProtocol := infraredRc6
  decode := infraredDecoderRc6DecodeManchester
  interpret := infraredDecoderRc6Interpret
  decodeRepeat := none

end Rc6

section Sirc

def infraredSirc : InfraredCommonProtocol where
  timings :=
    { minSplitTime := 10000 - 1000
      silenceTime := 10000
      preambleMark := 2400
      preambleSpace := 600
      bit1Mark := 1200
      bit1Space := 600
      bit0Mark := 600
      bit0Space := 600
      preambleTolerance := 200
      bitTolerance := 120 }
  databitLen := [20, 15, 12]
  manchesterStartFromSpace := false

def infraredDecoderSircInterpret (decoder : InfraredCommonDecoder) :
    Bool × InfraredCommonDecoder :=
  let data := decoder.word 0
  if decoder.databitCnt = 12 then
    (true, decoder.withMessage .sirc (data >>> 7 &&& 0x1F) (data &&& 0x7F))
  else if decoder.databitCnt = 15 then
    (true, decoder.withMessage .sirc15 (data >>> 7 &&& 0xFF) (data &&& 0x7F))
  else if decoder.databitCnt = 20 then
    (true, decoder.withMessage .sirc20 (data >>> 7 &&& 0x1FFF) (data &&& 0x7F))
  else
    (false, decoder)

def infraredProtocolSirc : InfraredCommonProtocolSpec where
  toInfraredCommonProtocol := infraredSirc
  decode := infraredCommonDecodePdwm infraredSirc
  interpret := infraredDecoderSircInterpret
  decodeRepeat := none

end Sirc

section Pioneer

def infraredPioneer : InfraredCommonProtocol where
  timings :=
    { minSplitTime := 26000
      silenceTime := 26000
      preambleMark := 8500
      preambleSpace := 4225
      bit1Mark := 500
      bit1Space := 1500
      bit0Mark := 500
      bit0Space := 500
      preambleTolerance := 200
      bitTolerance := 120 }
  databitLen := [33, 32]
  manchesterStartFromSpace := false

def infraredDecoderPioneerInterpret (decoder : InfraredCommonDecoder) :
    Bool × InfraredCommonDecoder :=
  if decoder.databitCnt = 33 ∨ decoder.databitCnt = 32 then
    let data := decoder.word 0
    let address := data.setWidth 8
    let addressChecksum := (data >>> 8).setWidth 8
    let command := (data >>> 16).setWidth 8
    let commandChecksum := (data >>> 24).setWidth 8
    if addressChecksum ≠ ~~~address then
      (false, decoder)
    else if commandChecksum ≠ ~~~command then
      (false, decoder)
    else
      (true, decoder.withMessage .pioneer (address.setWidth 32) (command.setWidth 32))
  else
    (false, decoder)

def infraredProtocolPioneer : InfraredCommonProtocolSpec where
  toInfraredCommonProtocol := infraredPioneer
  decode := infraredCommonDecodePdwm infraredPioneer
  interpret := infraredDecoderPioneerInterpret
  decodeRepeat := none

end Pioneer

section Kaseikyo

def INFRARED_KASEIKYO_UNIT : ℕ := 432

def infraredKaseikyo : InfraredCommonProtocol where
  timings :=
    { minSplitTime := 4000
      silenceTime := 130000
      preambleMark := 8 * INFRARED_KASEIKYO_UNIT
      preambleSpace := 4 * INFRARED_KASEIKYO_UNIT
      bit1Mark := INFRARED_KASEIKYO_UNIT
      bit1Space := 3 * INFRARED_KASEIKYO_UNIT
      bit0Mark := INFRARED_KASEIKYO_UNIT
      bit0Space := INFRARED_KASEIKYO_UNIT
      preambleTolerance := 200
      bitTolerance := 120 }
  databitLen := [48]
  manchesterStartFromSpace := false

def infraredDecoderKaseikyoInterpret (decoder : InfraredCommonDecoder) :
    Bool × InfraredCommonDecoder :=
  let vendorId := decoder.byte 1 ++ decoder.byte 0
  let vendorParity := decoder.byte 2 &&& 0x0F
  let genre1 := decoder.byte 2 >>> 4
  let genre2 := decoder.byte 3 &&& 0x0F
  let data := (decoder.byte 3 >>> 4).setWidth 16 ||| (decoder.byte 4 &&& 0x3F).setWidth 16 <<< 4
  let id := decoder.byte 4 >>> 6
  let parity := decoder.byte 5
  let vendorParityCheck := decoder.byte 0 ^^^ decoder.byte 1
  let vendorParityCheck := (vendorParityCheck &&& 0xF) ^^^ vendorParityCheck >>> 4
  let parityCheck := decoder.byte 2 ^^^ decoder.byte 3 ^^^ decoder.byte 4
  if vendorParity = vendorParityCheck ∧ parity = parityCheck then
    (true, decoder.withMessage .kaseikyo
      (id.setWidth 32 <<< 24 ||| vendorId.setWidth 32 <<< 8 ||| genre1.setWidth 32 <<< 4 |||
        genre2.setWidth 32)
      (data.setWidth 32))
  else
    (false, decoder)

def infraredProtocolKaseikyo : InfraredCommonProtocolSpec where
  toInfraredCommonProtocol := infraredKaseikyo
  decode := infraredCommonDecodePdwm infraredKaseikyo
  interpret := infraredDecoderKaseikyoInterpret
  decodeRepeat := none

end Kaseikyo

section Rca

def infraredRca : InfraredCommonProtocol where
  timings :=
    { minSplitTime := 4000
      silenceTime := 8000
      preambleMark := 4000
      preambleSpace := 4000
      bit1Mark := 500
      bit1Space := 2000
      bit0Mark := 500
      bit0Space := 1000
      preambleTolerance := 200
      bitTolerance := 120 }
  databitLen := [24]
  manchesterStartFromSpace := false

def infraredDecoderRcaInterpret (decoder : InfraredCommonDecoder) : Bool × InfraredCommonDecoder :=
  let data := decoder.word 0
  let address := data.setWidth 8 &&& 0xF
  let command := (data >>> 4).setWidth 8
  let addressInverse := (data >>> 12).setWidth 8 &&& 0xF
  let commandInverse := (data >>> 16).setWidth 8
  if command = ~~~commandInverse ∧ address = ~~~addressInverse &&& 0xF then
    (true, decoder.withMessage .rca (address.setWidth 32) (command.setWidth 32))
  else
    (false, decoder)

def infraredProtocolRca : InfraredCommonProtocolSpec where
  toInfraredCommonProtocol := infraredRca
  decode := infraredCommonDecodePdwm infraredRca
  interpret := infraredDecoderRcaInterpret
  decodeRepeat := none

end Rca

/-- The entries of `infrared_encoder_decoder`. -/
inductive InfraredDecoderKind
  | nec
  | samsung32
  | rc5
  | rc6
  | sirc
  | pioneer
  | kaseikyo
  | rca
  deriving DecidableEq, Repr

def infraredDecoder : InfraredDecoderKind → InfraredCommonProtocolSpec
  | .nec => infraredProtocolNec
  | .samsung32 => infraredProtocolSamsung32
  | .rc5 => infraredProtocolRc5
  | .rc6 => infraredProtocolRc6
  | .sirc => infraredProtocolSirc
  | .pioneer => infraredProtocolPioneer
  | .kaseikyo => infraredProtocolKaseikyo
  | .rca => infraredProtocolRca

end KiisuFirmware
