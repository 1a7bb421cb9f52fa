import KiisuFirmware.BufferedFileStream
import KiisuFirmware.StreamClient
import KiisuFirmware.Strint

/-!
# Dictionaries of keys

`keys_dict.c` on a file that was opened, and `stream_read_line`. A key is a line of hexadecimal
digits; `totalKeys` counts them. What the local byte of `keys_dict_str_to_int` holds before a pair
of digits was read into it is not known: it is a function of the text (`junk`).
-/

namespace KiisuFirmware

def BufferedFileStream.vtable : StreamVTable BufferedFileStream where
  eof := BufferedFileStream.eof
  seek := BufferedFileStream.seek
  tell := BufferedFileStream.tell
  size := BufferedFileStream.size
  write stream data := some (stream.write data)
  read := BufferedFileStream.read
  deleteAndInsert stream deleteSize writeCallback :=
    some (stream.deleteAndInsert deleteSize (writeCallback.map FileStream.runWriteCB))

def LF : UInt8 := 10

def CR : UInt8 := 13

def COMMENT : UInt8 := 35

/-! ## Lines -/

def lineScanner : Scanner (List UInt8) where
  stops _ data := data == LF
  step str data := if data = CR then str else str ++ [data]

namespace StreamVTable

variable {σ : Type} (v : StreamVTable σ)

def readLineLoop : ℕ → List UInt8 → StreamM σ (List UInt8)
  | 0, _ => fun _ => none
  | rounds + 1, str => do
    let buffer ← v.streamRead SCAN_BUFFER_SIZE
    if buffer.length = 0 then
      return str
    else
      let r := lineScanner.scan str buffer
      match r.2 with
      | none => readLineLoop rounds r.1
      | some i =>
        let seeked ← v.streamSeek ((i : ℤ) - buffer.length + 1) .fromCurrent
        return if seeked then r.1 ++ [LF] else r.1

def streamReadLine : StreamM σ (Bool × List UInt8) := do
  let size ← v.streamSize
  let str ← v.readLineLoop (size + 1) []
  return (decide (str.length ≠ 0), str)

def streamInsertString (string : List UInt8) : StreamM σ Bool :=
  v.streamDeleteAndInsert 0 (some (.write string fun written => .done (written == string.length)))

def streamDelete (size : ℕ) : StreamM σ Bool := v.streamDeleteAndInsert size none

end StreamVTable

/-! ## Dictionaries -/

structure KeysDict where
  stream : BufferedFileStream
  keySize : ℕ
  totalKeys : ℕ

namespace KeysDict

abbrev Key := List UInt8

/-- What is done with the stream of a dictionary. -/
abbrev KeysM (α : Type) := StreamM BufferedFileStream α

/-- Two symbols for each byte and the end of the line. -/
def keySizeSymbols (keySize : ℕ) : ℕ := sizeT (keySize * 2 + 1)

def intToStr (key : Key) : List UInt8 := key.flatMap fun byte => printHex 2 byte.toNat

/-- The bytes of a text, where the last that could be read stands in for one that cannot. -/
def strToIntLoop : UInt8 → List UInt8 → Key
  | keyByteTmp, h :: l :: keyStr =>
    let keyByteTmp := (hexCharToUint8 h l).getD keyByteTmp
    keyByteTmp :: strToIntLoop keyByteTmp keyStr
  | _, _ => []

section Reading

variable (v : StreamVTable BufferedFileStream) (junk : List UInt8 → UInt8) (keySize : ℕ)

def strToInt (keyStr : List UInt8) : Key := strToIntLoop (junk keyStr) keyStr

def addEndingNewLine : KeysM Unit := do
  if ← v.streamSeek (-1) .fromEnd then
    let lastChar ← v.streamRead 1
    if lastChar.length = 1 ∧ lastChar ≠ [LF] then
      let _ ← v.streamWrite [LF]
    let _ ← v.streamRewind

/-- What a line comes to. -/
inductive KeyLine
  | key (line : List UInt8)
  | other
  | endFile

def readKeyLine : KeysM KeyLine := do
  let read ← v.streamReadLine
  if !read.1 then return .endFile
  else if read.2.head? = some COMMENT then return .other
  else
    let line := read.2.take (keySizeSymbols keySize - 1)
    return if line.length = keySizeSymbols keySize - 1 then .key line else .other

def countKeys : ℕ → ℕ → KeysM ℕ
  | 0, _ => fun _ => none
  | rounds + 1, totalKeys => do
    match ← readKeyLine v keySize with
    | .key _ => countKeys rounds (sizeT (totalKeys + 1))
    | .other => countKeys rounds totalKeys
    | .endFile => return totalKeys

/-- Each line but the last takes a byte. -/
def getNextKeyLoop : ℕ → KeysM (Option (List UInt8))
  | 0 => fun _ => none
  | rounds + 1 => do
    match ← readKeyLine v keySize with
    | .key line => return some line
    | .other => getNextKeyLoop rounds
    | .endFile => return none

def getNextKeyStr : KeysM (Option (List UInt8)) := do
  let size ← v.streamSize
  getNextKeyLoop v keySize (size + 1)

def nextKey : KeysM (Option Key) := do
  let line ← getNextKeyStr v keySize
  return line.map (strToInt junk)

/-- Whether the key was removed. -/
def deleteKeyLoop (key : Key) : ℕ → KeysM Bool
  | 0 => fun _ => none
  | rounds + 1 => do
    match ← nextKey v junk keySize with
    | none => return false
    | some tempKey =>
      if tempKey = key then
        let _ ← v.streamSeek (int32 (sizeT (-keySizeSymbols keySize))) .fromCurrent
        v.streamDelete (keySizeSymbols keySize)
      else deleteKeyLoop key rounds

/-- What `keys_dict_alloc` does with the file it opened. -/
def loadKeys : KeysM ℕ := do
  addEndingNewLine v
  let size ← v.streamSize
  let totalKeys ← countKeys v keySize (size + 1) 0
  let _ ← v.streamRewind
  return totalKeys

def addKeyStr (key : List UInt8) : KeysM Bool := do
  let actualPos ← v.streamTell
  let seeked ← v.streamSeek 0 .fromEnd
  let keyAdded ← if seeked then v.streamInsertString (key ++ [LF]) else pure false
  let _ ← v.streamSeek (int32 actualPos) .fromStart
  return keyAdded

def removeKey (key : Key) : KeysM Bool := do
  let _ ← v.streamRewind
  let size ← v.streamSize
  let keyRemoved ← deleteKeyLoop v junk keySize key (size + 1)
  let _ ← v.streamRewind
  return keyRemoved

end Reading

def alloc (file : File) (keySize : ℕ) : Option KeysDict :=
  if keySize = 0 then none
  else (loadKeys BufferedFileStream.vtable keySize (.ofFile file)).map fun r => ⟨r.2, keySize, r.1⟩

variable (junk : List UInt8 → UInt8) (dict : KeysDict)

def getTotalKeys : ℕ := dict.totalKeys

def rewind : Option (Bool × KeysDict) :=
  (BufferedFileStream.vtable.streamRewind dict.stream).map fun r => (r.1, { dict with stream := r.2 })

/-- The next key, if there is one. -/
def getNextKey : Option (Option Key × KeysDict) :=
  (nextKey BufferedFileStream.vtable junk dict.keySize dict.stream).map fun r =>
    (r.1, { dict with stream := r.2 })

def addKey (key : Key) : Option (Bool × KeysDict) :=
  if key.length = dict.keySize then
    (addKeyStr BufferedFileStream.vtable (intToStr key) dict.stream).map fun r =>
      (r.1, { dict with
        stream := r.2
        totalKeys := if r.1 then sizeT (dict.totalKeys + 1) else dict.totalKeys })
  else none

def deleteKey (key : Key) : Option (Bool × KeysDict) :=
  if key.length = dict.keySize then
    (removeKey BufferedFileStream.vtable junk dict.keySize key dict.stream).map fun r =>
      (r.1, { dict with
        stream := r.2
        totalKeys := if r.1 then sizeT (dict.totalKeys - 1) else dict.totalKeys })
  else none

inductive Call
  | addKey (key : Key)
  | deleteKey (key : Key)
  | getNextKey
  | rewind
  deriving DecidableEq, Repr

inductive Result
  | bool (b : Bool)
  | key (key : Option Key)
  deriving DecidableEq, Repr

def step : Call → Option (Result × KeysDict)
  | .addKey key => (dict.addKey key).map fun r => (.bool r.1, r.2)
  | .deleteKey key => (dict.deleteKey junk key).map fun r => (.bool r.1, r.2)
  | .getNextKey => (dict.getNextKey junk).map fun r => (.key r.1, r.2)
  | .rewind => dict.rewind.map fun r => (.bool r.1, r.2)

/-- The keys that are still to come. -/
def keysLeft : ℕ → KeysDict → Option (List Key)
  | 0, _ => none
  | rounds + 1, dict => do
    match ← dict.getNextKey junk with
    | (none, _) => return []
    | (some key, dict) => return key :: (← keysLeft rounds dict)

/-- All that a pass over the file from its start yields. -/
def pass : Option (List Key) := do
  let rewound ← dict.rewind
  keysLeft junk (dict.stream.size + 1) rewound.2

end KeysDict

/-! ## What a dictionary is for -/

/-- Keys in an order, and how many of them were given out since the last rewind. -/
structure KeyList where
  keys : List KeysDict.Key
  next : ℕ

def KeyList.step (list : KeyList) : KeysDict.Call → KeysDict.Result × KeyList
  | .addKey key => (.bool true, { list with keys := list.keys ++ [key] })
  | .deleteKey key => (.bool (decide (key ∈ list.keys)), ⟨list.keys.erase key, 0⟩)
  | .getNextKey =>
    (.key list.keys[list.next]?, { list with next := min (list.next + 1) list.keys.length })
  | .rewind => (.bool true, { list with next := 0 })

end KiisuFirmware
