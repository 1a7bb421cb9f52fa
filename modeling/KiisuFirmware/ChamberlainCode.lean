import KiisuFirmware.BinRaw

/-!
# Chamberlain codes

The protocol `chamberlain_code.c`.
-/

namespace KiisuFirmware

/-! ## The encoder -/

def CHAMBERLAIN_CODE_BIT_STOP : BitVec 64 := 0b0001
def CHAMBERLAIN_CODE_BIT_1 : BitVec 64 := 0b0011
def CHAMBERLAIN_CODE_BIT_0 : BitVec 64 := 0b0111

def CHAMBERLAIN_7_CODE_MASK : BitVec 64 := 0xF000000FF0F
def CHAMBERLAIN_8_CODE_MASK : BitVec 64 := 0xF00000F00F
def CHAMBERLAIN_9_CODE_MASK : BitVec 64 := 0xF000000000F

def CHAMBERLAIN_7_CODE_MASK_CHECK : BitVec 64 := 0x10000001101
def CHAMBERLAIN_8_CODE_MASK_CHECK : BitVec 64 := 0x1000001001
def CHAMBERLAIN_9_CODE_MASK_CHECK : BitVec 64 := 0x10000000001

def CHAMB_CODE_TE_SHORT : ℕ := 1000
def CHAMB_CODE_TE_DELTA : ℕ := 200
def CHAMB_CODE_MIN_COUNT_BIT_FOR_FOUND : ℕ := 10

def chambBitToCode (data : BitVec 64) (size : ℕ) : BitVec 64 :=
  (keyBits data size).foldl (fun dataRes bit =>
    dataRes <<< 4 ||| if bit then CHAMBERLAIN_CODE_BIT_1 else CHAMBERLAIN_CODE_BIT_0) 0

structure SubGhzProtocolEncoderChambCode where
  encoder : SubGhzProtocolBlockEncoder
  generic : SubGhzBlockGeneric
  deriving DecidableEq

namespace SubGhzProtocolEncoderChambCode

def CHAMB_CODE_SIZE_UPLOAD : ℕ := 24

def alloc : SubGhzProtocolEncoderChambCode where
  encoder :=
    { isRunning := false, repeats := 10, front := 0, sizeUpload := CHAMB_CODE_SIZE_UPLOAD,
      upload := [] }
  generic := { data := 0, serial := 0, dataCountBit := 0, btn := 0, cnt := 0 }

/-- The nibbles that are sent of so many bits, and how many bits these are. -/
def code (data : BitVec 64) (dataCountBit : ℕ) : Option (BitVec 64 × ℕ) :=
  let data := chambBitToCode data dataCountBit
  match dataCountBit with
  | 7 => some (data >>> 4 <<< 16 ||| (data &&& 0xF) <<< 4 ||| CHAMBERLAIN_7_CODE_MASK_CHECK, 44)
  | 8 => some (data >>> 12 <<< 16 ||| (data &&& 0xFF) <<< 4 ||| CHAMBERLAIN_8_CODE_MASK_CHECK, 40)
  | 9 => some (data <<< 4 ||| CHAMBERLAIN_9_CODE_MASK_CHECK, 44)
  | _ => none

def UPLOAD_HEX_DATA_SIZE : ℕ := 10

/-- The array with these bits from this one on, and the one behind them. -/
def insertBits {n : ℕ} : List Bool → Vector UInt8 n → ℕ → Except BinRawError (Vector UInt8 n × ℕ)
  | [], uploadHexData, uploadHexCountBit => .ok (uploadHexData, uploadHexCountBit)
  | bit :: bits, uploadHexData, uploadHexCountBit => do
    let uploadHexData ← subghzProtocolBlocksSetBitArray bit uploadHexData uploadHexCountBit
      UPLOAD_HEX_DATA_SIZE
    insertBits bits uploadHexData (uploadHexCountBit + 1)

/-- The array that is sent of so many bits, and its bits. -/
def uploadHexData (data : BitVec 64) (countBit : ℕ) :
    Except BinRawError (Vector UInt8 UPLOAD_HEX_DATA_SIZE × ℕ) := do
  let (uploadHexData, uploadHexCountBit) ←
    insertBits (List.replicate 36 false) (Vector.replicate UPLOAD_HEX_DATA_SIZE 0) 0
  insertBits (keyBits data countBit) uploadHexData uploadHexCountBit

variable (inst : SubGhzProtocolEncoderChambCode)

def getUpload : Except BinRawError (Option SubGhzProtocolEncoderChambCode) :=
  match code inst.generic.data inst.generic.dataCountBit with
  | none => .ok none
  | some (data, countBit) => do
    let (uploadHexData, uploadHexCountBit) ← uploadHexData data countBit
    let upload ← subghzProtocolBlocksGetUploadFromBitArray uploadHexData uploadHexCountBit
      CHAMB_CODE_SIZE_UPLOAD inst.encoder.sizeUpload CHAMB_CODE_TE_SHORT .left
    return some { inst with
      encoder := { inst.encoder with sizeUpload := upload.length, upload := upload } }

/-- How the call returns, with the encoder if it is `Ok`. -/
def deserialize (file : SubGhzKeyFile) :
    Except BinRawError (Except SubGhzProtocolStatus SubGhzProtocolEncoderChambCode) :=
  match inst.generic.deserialize file with
  | .error status => .ok (.error status)
  | .ok generic =>
    if CHAMB_CODE_MIN_COUNT_BIT_FOR_FOUND < generic.dataCountBit then
      .ok (.error .errorValueBitCount)
    else do
      let repeats := (file.repeats.map BitVec.toNat).getD inst.encoder.repeats
      let inst ← getUpload
        { generic := generic
          encoder := { inst.encoder with repeats := repeats } }
      match inst with
      | none => return .error .errorEncoderGetUpload
      | some inst => return .ok { inst with encoder := { inst.encoder with isRunning := true } }

/-- A new encoder with a file, if it takes it. -/
def load (file : SubGhzKeyFile) : Option SubGhzProtocolBlockEncoder :=
  match alloc.deserialize file with
  | .ok (.ok inst) => some inst.encoder
  | _ => none

end SubGhzProtocolEncoderChambCode

/-! ## The decoder -/

inductive ChambCodeDecoderStep
  | reset
  | foundStartBit
  | saveDuration
  | checkDuration
  deriving DecidableEq, Repr

structure SubGhzProtocolDecoderChambCode where
  decoder : SubGhzBlockDecoder ChambCodeDecoderStep
  generic : SubGhzBlockGeneric
  deriving DecidableEq

/-- The bits of the nibbles that are left. -/
def chambCodeToBitLoop : ℕ → ℕ → BitVec 64 → BitVec 64 → Option (BitVec 64)
  | 0, _, _, dataRes => some dataRes
  | left + 1, i, dataTmp, dataRes =>
    if dataTmp &&& 0xF = CHAMBERLAIN_CODE_BIT_0 then
      chambCodeToBitLoop left (i + 1) (dataTmp >>> 4) (dataRes &&& ~~~((1 : BitVec 64) <<< i))
    else if dataTmp &&& 0xF = CHAMBERLAIN_CODE_BIT_1 then
      chambCodeToBitLoop left (i + 1) (dataTmp >>> 4) (dataRes ||| (1 : BitVec 64) <<< i)
    else none

def chambCodeToBit (data : BitVec 64) (size : ℕ) : Option (BitVec 64) :=
  chambCodeToBitLoop size 0 data 0

/-- The nibbles of the bits, and how many bits these are. -/
def chambCodeParse (decodeData : BitVec 64) : Option (BitVec 64 × ℕ) :=
  if decodeData &&& CHAMBERLAIN_7_CODE_MASK = CHAMBERLAIN_7_CODE_MASK_CHECK then
    let decodeData := decodeData &&& ~~~CHAMBERLAIN_7_CODE_MASK
    some (decodeData >>> 12 ||| (decodeData >>> 4 &&& 0xF), 7)
  else if decodeData &&& CHAMBERLAIN_8_CODE_MASK = CHAMBERLAIN_8_CODE_MASK_CHECK then
    let decodeData := decodeData &&& ~~~CHAMBERLAIN_8_CODE_MASK
    some (decodeData >>> 4 ||| CHAMBERLAIN_CODE_BIT_0 <<< 8, 8)
  else if decodeData &&& CHAMBERLAIN_9_CODE_MASK = CHAMBERLAIN_9_CODE_MASK_CHECK then
    let decodeData := decodeData &&& ~~~CHAMBERLAIN_9_CODE_MASK
    some (decodeData >>> 4, 9)
  else none

namespace SubGhzProtocolDecoderChambCode

/-- A level of so many short ones. -/
def Near (duration count : ℕ) : Prop :=
  durationDiff duration (CHAMB_CODE_TE_SHORT * count) < CHAMB_CODE_TE_DELTA

instance (duration count : ℕ) : Decidable (Near duration count) :=
  inferInstanceAs (Decidable (_ < _))

variable (inst : SubGhzProtocolDecoderChambCode)

def setStep (step : ChambCodeDecoderStep) : SubGhzProtocolDecoderChambCode :=
  { inst with decoder := { inst.decoder with parserStep := step } }

def reset : SubGhzProtocolDecoderChambCode := inst.setStep .reset

/-- One more nibble. -/
def addCode (code : BitVec 64) : SubGhzProtocolDecoderChambCode :=
  { inst with decoder := { inst.decoder with
    decodeData := inst.decoder.decodeData <<< 4 ||| code
    decodeCountBit := inst.decoder.decodeCountBit + 1
    parserStep := .saveDuration } }

def checkMaskAndParse : Bool × SubGhzProtocolDecoderChambCode :=
  if CHAMB_CODE_MIN_COUNT_BIT_FOR_FOUND + 1 < inst.decoder.decodeCountBit.toNat then (false, inst)
  else
    match chambCodeParse inst.decoder.decodeData with
    | none => (false, inst)
    | some (decodeData, decodeCountBit) =>
      let inst := { inst with decoder := { inst.decoder with
        decodeData := decodeData, decodeCountBit := BitVec.ofNat 8 decodeCountBit } }
      match chambCodeToBit decodeData decodeCountBit with
      | none => (false, inst)
      | some decodeData =>
        (true, { inst with decoder := { inst.decoder with decodeData := decodeData } })

/-- Whether a key has been read, and the decoder afterwards. -/
def feed (pulse : LevelDuration) : Bool × SubGhzProtocolDecoderChambCode :=
  match inst.decoder.parserStep with
  | .reset =>
    if pulse.level = false ∧
        durationDiff pulse.duration (CHAMB_CODE_TE_SHORT * 39) < CHAMB_CODE_TE_DELTA * 20 then
      (false, inst.setStep .foundStartBit)
    else (false, inst)
  | .foundStartBit =>
    if pulse.level = true ∧ Near pulse.duration 1 then
      (false, { inst with decoder := { inst.decoder with
        decodeData := 0, decodeCountBit := 0 } }.addCode CHAMBERLAIN_CODE_BIT_STOP)
    else (false, inst.setStep .reset)
  | .saveDuration =>
    if pulse.level = false then
      if CHAMB_CODE_TE_SHORT * 5 < pulse.duration then
        if CHAMB_CODE_MIN_COUNT_BIT_FOR_FOUND ≤ inst.decoder.decodeCountBit.toNat then
          let inst := { inst with generic := { inst.generic with serial := 0, btn := 0 } }
          let (parsed, inst) := inst.checkMaskAndParse
          if parsed then
            let inst := { inst with generic := { inst.generic with
              data := inst.decoder.decodeData
              dataCountBit := inst.decoder.decodeCountBit.toNat } }
            (true, inst.setStep .reset)
          else (false, inst.setStep .reset)
        else (false, inst.setStep .reset)
      else
        (false, { inst with decoder := { inst.decoder with
          teLast := pulse.duration
          parserStep := .checkDuration } })
    else (false, inst.setStep .reset)
  | .checkDuration =>
    if pulse.level then
      if Near inst.decoder.teLast 3 ∧ Near pulse.duration 1 then
        (false, inst.addCode CHAMBERLAIN_CODE_BIT_STOP)
      else if Near inst.decoder.teLast 2 ∧ Near pulse.duration 2 then
        (false, inst.addCode CHAMBERLAIN_CODE_BIT_1)
      else if Near inst.decoder.teLast 1 ∧ Near pulse.duration 3 then
        (false, inst.addCode CHAMBERLAIN_CODE_BIT_0)
      else (false, inst.setStep .reset)
    else (false, inst.setStep .reset)

end SubGhzProtocolDecoderChambCode

def subghzProtocolChambCode : SubGhzProtocol SubGhzProtocolDecoderChambCode SubGhzKeyFile where
  reset := SubGhzProtocolDecoderChambCode.reset
  feed := SubGhzProtocolDecoderChambCode.feed
  generic := SubGhzProtocolDecoderChambCode.generic
  serialize inst := inst.generic.serialize
  load := SubGhzProtocolEncoderChambCode.load

end KiisuFirmware
