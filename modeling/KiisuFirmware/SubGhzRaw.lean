import KiisuFirmware.Run
import KiisuFirmware.Word

/-!
# Raw captures

The decoder of `raw.c`, which only stores what it is fed. How a write to the file ends is told with
the call that makes it.
-/

namespace KiisuFirmware

def SUBGHZ_DOWNLOAD_MAX_SIZE : ℕ := 512

/-- `te_short` of the protocol. -/
def RAW_TE_SHORT : UInt32 := 50

inductive RawFileIsOpen
  | close
  | write
  | read
  deriving DecidableEq, Repr

/-- The decoder, and of each file that it has opened the arrays written under `RAW_Data`, the last
file at the end. -/
structure SubGhzProtocolDecoderRaw where
  uploadRaw : Option (Vector Int32 SUBGHZ_DOWNLOAD_MAX_SIZE)
  indWrite : ℕ
  fileIsOpen : RawFileIsOpen
  sampleWrite : ℕ
  lastLevel : Bool
  pause : Bool
  files : List (List (List Int32))
  deriving DecidableEq

/-- What the decoder is told to do, and how it ends for a file. -/
inductive RawInput
  | saveToFileInit (init : Bool)
  | feed (level : Bool) (duration : UInt32) (isWrite : Bool)
  | saveToFilePause (pause : Bool)
  | reset
  | saveToFileStop (isWrite : Bool)
  deriving DecidableEq, Repr

/-- A store behind the end of the buffer. -/
inductive RawError
  | outOfBounds
  deriving DecidableEq, Repr

namespace SubGhzProtocolDecoderRaw

def alloc : SubGhzProtocolDecoderRaw where
  uploadRaw := none
  indWrite := 0
  fileIsOpen := .close
  sampleWrite := 0
  lastLevel := false
  pause := false
  files := []

variable (decoder : SubGhzProtocolDecoderRaw)

def saveToFileInit (init : Bool) : SubGhzProtocolDecoderRaw :=
  if init then
    { decoder with
      uploadRaw := some (Vector.replicate SUBGHZ_DOWNLOAD_MAX_SIZE 0)
      fileIsOpen := .write
      sampleWrite := 0
      lastLevel := false
      pause := false
      files := decoder.files ++ [[]] }
  else decoder

/-- The files with one more array in the last one. -/
def appendRawData (files : List (List (List Int32))) (array : List Int32) :
    List (List (List Int32)) :=
  files.modifyLast (· ++ [array])

def saveToFileWrite (isWrite : Bool) : SubGhzProtocolDecoderRaw :=
  match decoder.fileIsOpen, decoder.uploadRaw with
  | .write, some uploadRaw =>
    if isWrite then
      { decoder with
        files := appendRawData decoder.files (uploadRaw.toList.take decoder.indWrite)
        sampleWrite := uint32 (decoder.sampleWrite + decoder.indWrite)
        indWrite := 0 }
    else decoder
  | _, _ => decoder

def saveToFileStop (isWrite : Bool) : SubGhzProtocolDecoderRaw :=
  let decoder :=
    if decoder.fileIsOpen = .write ∧ decoder.indWrite ≠ 0 then
      decoder.saveToFileWrite isWrite
    else decoder
  let uploadRaw := if decoder.fileIsOpen ≠ .close then none else decoder.uploadRaw
  { decoder with uploadRaw := uploadRaw, fileIsOpen := .close }

def saveToFilePause (pause : Bool) : SubGhzProtocolDecoderRaw :=
  if decoder.pause ≠ pause then { decoder with pause := pause } else decoder

def getSampleWrite : ℕ := uint32 (decoder.sampleWrite + decoder.indWrite)

def reset : SubGhzProtocolDecoderRaw := { decoder with indWrite := 0, lastLevel := false }

/-- What is stored for a level and how long it has lasted. -/
def sample (level : Bool) (duration : UInt32) : Int32 :=
  (if level then duration else -duration).toInt32

def store (uploadRaw : Vector Int32 SUBGHZ_DOWNLOAD_MAX_SIZE) (level : Bool) (duration : UInt32) :
    Except RawError SubGhzProtocolDecoderRaw :=
  if h : decoder.indWrite < SUBGHZ_DOWNLOAD_MAX_SIZE then
    .ok { decoder with
      lastLevel := level
      uploadRaw := some (uploadRaw.set decoder.indWrite (sample level duration))
      indWrite := decoder.indWrite + 1 }
  else .error .outOfBounds

/-- The full buffer is written. -/
def flush (isWrite : Bool) : SubGhzProtocolDecoderRaw :=
  if decoder.indWrite = SUBGHZ_DOWNLOAD_MAX_SIZE then decoder.saveToFileWrite isWrite
  else decoder

def feed (level : Bool) (duration : UInt32) (isWrite : Bool) :
    Except RawError SubGhzProtocolDecoderRaw :=
  match decoder.pause, decoder.uploadRaw with
  | false, some uploadRaw =>
    if duration < 1000000 then
      if RAW_TE_SHORT < duration ∧ decoder.lastLevel ≠ level then
        (decoder.store uploadRaw level duration).map (flush · isWrite)
      else .ok (decoder.flush isWrite)
    else .ok decoder
  | _, _ => .ok decoder

def step : RawInput → Except RawError SubGhzProtocolDecoderRaw
  | .saveToFileInit init => .ok (decoder.saveToFileInit init)
  | .feed level duration isWrite => decoder.feed level duration isWrite
  | .saveToFilePause pause => .ok (decoder.saveToFilePause pause)
  | .reset => .ok decoder.reset
  | .saveToFileStop isWrite => .ok (decoder.saveToFileStop isWrite)

end SubGhzProtocolDecoderRaw

end KiisuFirmware
