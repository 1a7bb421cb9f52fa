import KiisuFirmware.BitLib
import KiisuFirmware.FlipperFormat
import KiisuFirmware.RunLength
import KiisuFirmware.SubGhzBlocks

/-!
# Binary captures

The encoder of `bin_raw.c`, with what it uses of `blocks/encoder.c`. A file is a number of lines
here, each of a key and words.
-/

namespace KiisuFirmware

def BIN_RAW_BUF_DATA_SIZE : ℕ := 512

def BIN_RAW_MAX_MARKUP_COUNT : ℕ := 20

/-- What is allocated for the levels, and as many bytes for the data. -/
def BIN_RAW_SIZE_UPLOAD : ℕ := BIN_RAW_BUF_DATA_SIZE * 5

/-- How a call does not return: it is stopped by a check, or stores behind the end of a buffer. -/
inductive BinRawError
  | crash
  | outOfBounds
  deriving DecidableEq, Repr

/-! ## Files -/

/-- Without a delimiter in the words, a key is found at the beginning of a line only. -/
structure FlipperLine where
  key : List UInt8
  words : List (List UInt8)
  noDelimiter : ∀ word ∈ words, flipperFormatDelimiter ∉ word
  deriving DecidableEq

namespace BinRaw

/-- `Bit` -/
def bitKey : List UInt8 := [66, 105, 116]

/-- `TE` -/
def teKey : List UInt8 := [84, 69]

/-- `Bit_RAW` -/
def bitRawKey : List UInt8 := [66, 105, 116, 95, 82, 65, 87]

/-- `Data_RAW` -/
def dataRawKey : List UInt8 := [68, 97, 116, 97, 95, 82, 65, 87]

/-- `Repeat` -/
def repeatKey : List UInt8 := [82, 101, 112, 101, 97, 116]

/-- The words behind a key, and the lines after them. -/
def readLine (key : List UInt8) : List FlipperLine → Option (List (List UInt8) × List FlipperLine)
  | [] => none
  | line :: lines => if line.key = key then some (line.words, lines) else readLine key lines

/-- The first word as a number. -/
def uint32Word (words : List (List UInt8)) : Option ℕ :=
  words.head?.bind fun word => (FlipperStreamValue.uint32.scan word).map UInt32.toNat

def readUint32 (key : List UInt8) (lines : List FlipperLine) : Option (ℕ × List FlipperLine) :=
  match readLine key lines with
  | none => none
  | some (words, lines) => (uint32Word words).map (·, lines)

/-- So many words as bytes: those that are stored, and whether these are all of them. -/
def hexWords : ℕ → List (List UInt8) → List UInt8 × Bool
  | 0, _ => ([], true)
  | _ + 1, [] => ([], false)
  | size + 1, word :: words =>
    match FlipperStreamValue.hex.scan word with
    | none => ([], false)
    | some byte => (byte :: (hexWords size words).1, (hexWords size words).2)

/-- What is stored, and where the file is read on if this is all of it. -/
def readHex (key : List UInt8) (size : ℕ) (lines : List FlipperLine) :
    List UInt8 × Option (List FlipperLine) :=
  match readLine key lines with
  | none => ([], none)
  | some (words, lines) =>
    ((hexWords size words).1, if (hexWords size words).2 then some lines else none)

end BinRaw

/-! ## Levels of bits -/

inductive SubGhzProtocolBlockAlignBit
  | left
  | right
  deriving DecidableEq, Repr

/-- The duration has thirty bits. -/
def levelDurationMake (level : Bool) (duration : ℕ) : LevelDuration := ⟨level, duration % 2 ^ 30⟩

variable {n : ℕ}

def subghzProtocolBlocksSetBitArray (bitValue : Bool) (dataArray : Vector UInt8 n)
    (setIndexBit maxSizeArray : ℕ) : Except BinRawError (Vector UInt8 n) :=
  if setIndexBit < maxSizeArray * 8 then .ok (bitLibSetBit dataArray setIndexBit bitValue)
  else .error .crash

def subghzProtocolBlocksGetBitArray (dataArray : Vector UInt8 n) (readIndexBit : ℕ) : Bool :=
  bitLibGetBit dataArray readIndexBit

/-- One more level in a buffer that has room for `capacity`. -/
def pushLevel (capacity : ℕ) (upload : List LevelDuration) (levelDuration : LevelDuration) :
    Except BinRawError (List LevelDuration) :=
  if upload.length < capacity then .ok (upload ++ [levelDuration]) else .error .outOfBounds

/-- The loop over the bits behind the first one, of which so many are left. -/
def uploadLoop (dataArray : Vector UInt8 n) (capacity maxSizeUpload durationBit : ℕ) :
    ℕ → ℕ → Bool → ℕ → List LevelDuration → Except BinRawError (List LevelDuration)
  | 0, indexBit, _, duration, upload =>
    pushLevel capacity upload
      (levelDurationMake (subghzProtocolBlocksGetBitArray dataArray (indexBit - 1)) duration)
  | left + 1, indexBit, lastBit, duration, upload =>
    if lastBit = subghzProtocolBlocksGetBitArray dataArray indexBit then
      uploadLoop dataArray capacity maxSizeUpload durationBit left (indexBit + 1) lastBit
        ((duration + durationBit) % 2 ^ 32) upload
    else if maxSizeUpload < upload.length then .error .crash
    else do
      let upload ← pushLevel capacity upload
        (levelDurationMake (subghzProtocolBlocksGetBitArray dataArray (indexBit - 1)) duration)
      uploadLoop dataArray capacity maxSizeUpload durationBit left (indexBit + 1) (!lastBit)
        durationBit upload

def subghzProtocolBlocksGetUploadFromBitArray (dataArray : Vector UInt8 n)
    (countBitDataArray capacity maxSizeUpload durationBit : ℕ)
    (alignBit : SubGhzProtocolBlockAlignBit) : Except BinRawError (List LevelDuration) :=
  let biasBit :=
    if alignBit = .right ∧ countBitDataArray % 8 ≠ 0 then 8 - countBitDataArray % 8 else 0
  uploadLoop dataArray capacity maxSizeUpload durationBit (countBitDataArray - 1) (biasBit + 1)
    (subghzProtocolBlocksGetBitArray dataArray biasBit) durationBit []

/-! ## The encoder -/

structure BinRawMarkup where
  byteBias : ℕ
  bitCount : ℕ
  deriving DecidableEq

structure SubGhzProtocolEncoderBinRaw where
  encoder : SubGhzProtocolBlockEncoder
  generic : SubGhzBlockGeneric
  data : Vector UInt8 BIN_RAW_SIZE_UPLOAD
  dataMarkup : List BinRawMarkup
  te : ℕ
  deriving DecidableEq

/-- The bytes of so many bits, which are counted in sixteen bits. -/
def subghzProtocolBinRawGetFullByte (bitCount : ℕ) : ℕ :=
  if bitCount % 2 ^ 16 % 8 ≠ 0 then bitCount % 2 ^ 16 / 8 + 1 else bitCount % 2 ^ 16 / 8

/-- The pieces that have been read. -/
structure BinRawPieces where
  data : Vector UInt8 BIN_RAW_SIZE_UPLOAD
  dataMarkup : List BinRawMarkup
  ind : ℕ
  byteBias : ℕ
  byteCount : ℕ
  deriving DecidableEq

namespace BinRawPieces

def start (data : Vector UInt8 BIN_RAW_SIZE_UPLOAD) : BinRawPieces where
  data := data
  dataMarkup := List.replicate BIN_RAW_MAX_MARKUP_COUNT ⟨0, 0⟩
  ind := 0
  byteBias := 0
  byteCount := 0

/-- Bytes stored one after the other. -/
def storeBytes (data : Vector UInt8 BIN_RAW_SIZE_UPLOAD) (position : ℕ) (bytes : List UInt8) :
    Except BinRawError (Vector UInt8 BIN_RAW_SIZE_UPLOAD) :=
  if position + bytes.length ≤ BIN_RAW_SIZE_UPLOAD then
    .ok (Vector.ofFn fun i =>
      if position ≤ i.val ∧ i.val < position + bytes.length then bytes.getD (i.val - position) 0
      else data.getD i.val 0)
  else .error .outOfBounds

variable (pieces : BinRawPieces)

/-- One more piece of `tempData` bits, and where the file is read on after it. Whatever is wrong
with it only ends the loop. -/
def readPiece (tempData : ℕ) (lines : List FlipperLine) :
    Except BinRawError (BinRawPieces × Option (List FlipperLine)) :=
  if BIN_RAW_MAX_MARKUP_COUNT ≤ pieces.ind then .ok (pieces, none)
  else
    let fullByte := subghzProtocolBinRawGetFullByte tempData
    let byteCount := (pieces.byteCount + fullByte) % 2 ^ 16
    if BIN_RAW_BUF_DATA_SIZE < byteCount then .ok ({ pieces with byteCount := byteCount }, none)
    else
      let read := BinRaw.readHex BinRaw.dataRawKey fullByte lines
      let byteBias := (pieces.byteBias + fullByte) % 2 ^ 16
      match storeBytes pieces.data pieces.byteBias read.1, read.2 with
      | .error e, _ => .error e
      | .ok data, none =>
        .ok (⟨data, pieces.dataMarkup.set pieces.ind ⟨pieces.byteBias, 0⟩, pieces.ind, byteBias,
          byteCount⟩, none)
      | .ok data, some lines =>
        .ok (⟨data, pieces.dataMarkup.set pieces.ind ⟨pieces.byteBias, tempData % 2 ^ 16⟩,
          pieces.ind + 1, byteBias, byteCount⟩, some lines)

/-- Every round but the last one takes a markup. -/
def readPieces : ℕ → BinRawPieces → List FlipperLine → Except BinRawError BinRawPieces
  | 0, pieces, _ => .ok pieces
  | rounds + 1, pieces, lines =>
    match BinRaw.readUint32 BinRaw.bitRawKey lines with
    | none => .ok pieces
    | some (tempData, lines) =>
      match pieces.readPiece tempData lines with
      | .error e => .error e
      | .ok (pieces, none) => .ok pieces
      | .ok (pieces, some lines) => readPieces rounds pieces lines

end BinRawPieces

namespace SubGhzProtocolEncoderBinRaw

/-- The loop over the bits of a piece, of which so many are left. -/
def restoreBits (bitBias : ℕ) : ℕ → ℕ → Vector UInt8 BIN_RAW_SIZE_UPLOAD → ℕ →
    Except BinRawError (Vector UInt8 BIN_RAW_SIZE_UPLOAD × ℕ)
  | 0, _, data, ind => .ok (data, ind)
  | left + 1, y, data, ind => do
    let data ← subghzProtocolBlocksSetBitArray
      (subghzProtocolBlocksGetBitArray data (y + bitBias)) data ind BIN_RAW_BUF_DATA_SIZE
    restoreBits bitBias left (y + 1) data (ind + 1)

/-- All pieces glued together in the buffer they are in, up to the first one without bits. -/
def restore : List BinRawMarkup → Vector UInt8 BIN_RAW_SIZE_UPLOAD → ℕ →
    Except BinRawError (Vector UInt8 BIN_RAW_SIZE_UPLOAD × ℕ)
  | [], data, ind => .ok (data, ind)
  | markup :: dataMarkup, data, ind =>
    if markup.bitCount = 0 then .ok (data, ind)
    else do
      let bitBias := subghzProtocolBinRawGetFullByte markup.bitCount * 8 - markup.bitCount
      let (data, ind) ← restoreBits bitBias markup.bitCount (markup.byteBias * 8) data ind
      restore dataMarkup data ind

variable (inst : SubGhzProtocolEncoderBinRaw)

def alloc : SubGhzProtocolEncoderBinRaw where
  encoder :=
    { isRunning := false, repeats := 10, front := 0, sizeUpload := BIN_RAW_SIZE_UPLOAD, upload := [] }
  generic := { data := 0, serial := 0, dataCountBit := 0, btn := 0, cnt := 0 }
  data := Vector.replicate BIN_RAW_SIZE_UPLOAD 0
  dataMarkup := List.replicate BIN_RAW_MAX_MARKUP_COUNT ⟨0, 0⟩
  te := 0

def getUpload : Except BinRawError SubGhzProtocolEncoderBinRaw := do
  let (data, ind) ← restore inst.dataMarkup inst.data 0
  let upload ← subghzProtocolBlocksGetUploadFromBitArray data ind BIN_RAW_SIZE_UPLOAD
    inst.encoder.sizeUpload inst.te .left
  return { inst with
    data := data
    encoder := { inst.encoder with sizeUpload := upload.length, upload := upload } }

/-- How the call returns, with the encoder if it is `Ok`. -/
def deserialize (lines : List FlipperLine) :
    Except BinRawError (Except SubGhzProtocolStatus SubGhzProtocolEncoderBinRaw) :=
  match BinRaw.readUint32 BinRaw.bitKey lines with
  | none => .ok (.error .errorParserBitCount)
  | some (tempData, lines') =>
    match BinRaw.readUint32 BinRaw.teKey lines' with
    | none => .ok (.error .errorParserTe)
    | some (te, lines') => do
      let pieces ← BinRawPieces.readPieces (BIN_RAW_MAX_MARKUP_COUNT + 1) (.start inst.data) lines'
      let repeats :=
        match BinRaw.readUint32 BinRaw.repeatKey lines with
        | none => inst.encoder.repeats
        | some (repeats, _) => repeats
      let inst ← getUpload
        { encoder := { inst.encoder with repeats := repeats }
          generic := { inst.generic with dataCountBit := tempData % 2 ^ 16 }
          data := pieces.data
          dataMarkup := pieces.dataMarkup
          te := te }
      return .ok { inst with encoder := { inst.encoder with isRunning := true } }

end SubGhzProtocolEncoderBinRaw

end KiisuFirmware
