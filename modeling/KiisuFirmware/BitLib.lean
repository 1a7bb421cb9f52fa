import Mathlib.Tactic

/-!
# Arrays of bits

`bit_lib.c`: bits of an array of bytes, the highest one of the first byte first. All positions that
are read or written are inside of the array.
-/

namespace KiisuFirmware

variable {n m : ℕ}

def bitLibPushBit (data : Vector UInt8 n) (bit : Bool) : Vector UInt8 n :=
  Vector.ofFn fun i => if i + 1 < n then data.getD i 0 <<< 1 ||| (data.getD (i + 1) 0 >>> 7 &&& 1)
    else data.getD i 0 <<< 1 ||| bit.toUInt8

def bitLibSetBit (data : Vector UInt8 n) (position : ℕ) (bit : Bool) : Vector UInt8 n :=
  let mask : UInt8 := 1 <<< (7 - position % 8).toUInt8
  Vector.ofFn fun i =>
    if i.val = position / 8 then if bit then data.getD i 0 ||| mask else data.getD i 0 &&& ~~~mask
    else data.getD i 0

/-- The bits of a byte, of which there is at least one and not more than eight. -/
def bitLibSetBits (data : Vector UInt8 n) (position : ℕ) (byte : UInt8) (length : ℕ) :
    Vector UInt8 n :=
  (List.range length).foldl (fun data i =>
    bitLibSetBit data (position + i) (byte >>> (length - 1 - i).toUInt8 &&& 1 == 1)) data

def bitLibGetBit (data : Vector UInt8 n) (position : ℕ) : Bool :=
  data.getD (position / 8) 0 >>> (7 - position % 8).toUInt8 &&& 1 == 1

/-- At least one and not more than eight bits. -/
def bitLibGetBits (data : Vector UInt8 n) (position length : ℕ) : UInt8 :=
  let shift := position % 8
  if shift = 0 then data.getD (position / 8) 0 >>> (8 - length).toUInt8
  else if shift + length ≤ 8 then
    data.getD (position / 8) 0 <<< shift.toUInt8 >>> (8 - length).toUInt8
  else
    let value := data.getD (position / 8) 0 <<< shift.toUInt8
    let value := value ||| data.getD (position / 8 + 1) 0 >>> (8 - shift).toUInt8
    value >>> (8 - length).toUInt8

def bitLibGetBits16 (data : Vector UInt8 n) (position length : ℕ) : UInt16 :=
  if length ≤ 8 then (bitLibGetBits data position length).toUInt16
  else (bitLibGetBits data position 8).toUInt16 <<< (length - 8).toUInt16 |||
    (bitLibGetBits data (position + 8) (length - 8)).toUInt16

def bitLibGetBits32 (data : Vector UInt8 n) (position length : ℕ) : UInt32 :=
  if length ≤ 8 then (bitLibGetBits data position length).toUInt32
  else if length ≤ 16 then
    (bitLibGetBits data position 8).toUInt32 <<< (length - 8).toUInt32 |||
      (bitLibGetBits data (position + 8) (length - 8)).toUInt32
  else if length ≤ 24 then
    (bitLibGetBits data position 8).toUInt32 <<< (length - 8).toUInt32 |||
      (bitLibGetBits data (position + 8) 8).toUInt32 <<< (length - 16).toUInt32 |||
      (bitLibGetBits data (position + 16) (length - 16)).toUInt32
  else
    (bitLibGetBits data position 8).toUInt32 <<< (length - 8).toUInt32 |||
      (bitLibGetBits data (position + 8) 8).toUInt32 <<< (length - 16).toUInt32 |||
      (bitLibGetBits data (position + 16) 8).toUInt32 <<< (length - 24).toUInt32 |||
      (bitLibGetBits data (position + 24) (length - 24)).toUInt32

/-- Byte by byte, the last one with the bits that are left. -/
def bitLibGetBits64 (data : Vector UInt8 n) (position length : ℕ) : UInt64 :=
  let bytes := (length - 1) / 8
  (List.range (bytes + 1)).foldl (fun value i =>
    let left := length - 8 * i
    if i = bytes then value ||| (bitLibGetBits data (position + 8 * i) left).toUInt64
    else value ||| (bitLibGetBits data (position + 8 * i) 8).toUInt64 <<< (left - 8).toUInt64) 0

inductive BitLibParity
  | even
  | odd
  | always0
  | always1
  deriving DecidableEq, Repr

/-- Whether the number of ones is odd. -/
def builtinParity (bits : UInt32) : Bool :=
  (List.range 32).foldl (fun parity i => parity ^^ bits.toNat.testBit i) false

/-- Only an even or an odd parity is tested like this. -/
def bitLibTestParity32 (bits : UInt32) (parity : BitLibParity) : Bool :=
  match parity with
  | .even => builtinParity bits
  | _ => !builtinParity bits

def bitLibTestParity (bits : Vector UInt8 n) (position length : ℕ) (parity : BitLibParity)
    (parityLength : ℕ) : Bool :=
  (List.range (length / parityLength)).all fun i =>
    match parity with
    | .always0 => !bitLibGetBit bits (position + i * parityLength + parityLength - 1)
    | .always1 => bitLibGetBit bits (position + i * parityLength + parityLength - 1)
    | parity => bitLibTestParity32
        (bitLibGetBits32 bits (position + i * parityLength) parityLength) parity

def bitLibCopyBits (data : Vector UInt8 n) (position length : ℕ) (source : Vector UInt8 m)
    (sourcePosition : ℕ) : Vector UInt8 n :=
  (List.range length).foldl (fun data i =>
    bitLibSetBit data (position + i) (bitLibGetBit source (sourcePosition + i))) data

/-- How far bits have been written together with their parities. -/
structure BitLibAddition (n : ℕ) where
  dest : Vector UInt8 n
  parityWord : UInt32
  j : ℕ
  bitCount : ℕ

/-- The next bit of a group is written. -/
def BitLibAddition.addBit (destPosition : ℕ) (bit : Bool) (addition : BitLibAddition m) :
    BitLibAddition m :=
  { addition with
    parityWord := addition.parityWord <<< 1 ||| bit.toUInt32
    dest := bitLibSetBit addition.dest (destPosition + addition.j) bit
    j := addition.j + 1 }

/-- What is written behind a group of bits. -/
def BitLibAddition.parityBit (parity : BitLibParity) (addition : BitLibAddition m) : Bool :=
  match parity with
  | .always0 => false
  | .always1 => true
  | .even => bitLibTestParity32 addition.parityWord .odd ^^ false ^^ true
  | .odd => bitLibTestParity32 addition.parityWord .odd ^^ true ^^ true

/-- The bits of a group and their parity. -/
def BitLibAddition.addGroup (data : Vector UInt8 n) (position destPosition parityLength word : ℕ)
    (parity : BitLibParity) (addition : BitLibAddition m) : BitLibAddition m :=
  let addition := (List.range (parityLength - 1)).foldl (fun addition bit =>
    addition.addBit destPosition (bitLibGetBit data (position + word + bit))) addition
  { dest := bitLibSetBit addition.dest (destPosition + addition.j) (addition.parityBit parity)
    parityWord := 0
    j := addition.j + 1
    bitCount := addition.bitCount + parityLength }

/-- The destination and how many bits are written to it. A parity is that of at least one bit: with
a parity length of one this would not come to an end. -/
def bitLibAddParity (data : Vector UInt8 n) (position : ℕ) (dest : Vector UInt8 m)
    (destPosition sourceLength parityLength : ℕ) (parity : BitLibParity) : Vector UInt8 m × ℕ :=
  let words := (sourceLength + (parityLength - 2)) / (parityLength - 1)
  let addition := (List.range words).foldl (fun addition i =>
    addition.addGroup data position destPosition parityLength (i * (parityLength - 1)) parity)
    (⟨dest, 0, 0, 0⟩ : BitLibAddition m)
  (addition.dest, addition.bitCount)

/-- How far the bits that are kept have been moved to the front. -/
structure BitLibRemoval (n : ℕ) where
  data : Vector UInt8 n
  resultCounter : ℕ
  bitBuffer : UInt8
  bitCounter : ℕ

/-- The array in which the bits between the removed ones have been moved together, and how many
there are of them. -/
def bitLibRemoveBitEveryNth (data : Vector UInt8 n) (position length nth : ℕ) :
    Vector UInt8 n × ℕ :=
  let removal := (List.range length).foldl (fun (removal : BitLibRemoval n) counter =>
    let removal :=
      if (counter + 1) % nth ≠ 0 then
        { removal with
          bitBuffer := removal.bitBuffer <<< 1 |||
            (bitLibGetBit removal.data (position + counter)).toUInt8
          bitCounter := removal.bitCounter + 1 }
      else removal
    if removal.bitCounter = 8 then
      { data := bitLibSetBits removal.data (position + removal.resultCounter) removal.bitBuffer 8
        resultCounter := removal.resultCounter + 8
        bitBuffer := 0
        bitCounter := 0 }
    else removal) ⟨data, 0, 0, 0⟩
  if removal.bitCounter ≠ 0 then
    (bitLibSetBits removal.data (position + removal.resultCounter) removal.bitBuffer
      removal.bitCounter, removal.resultCounter + removal.bitCounter)
  else (removal.data, removal.resultCounter)

/-- Without anything reflected. -/
def bitLibCrc16 (data : List UInt8) (polynom init xorOut : UInt16) : UInt16 :=
  data.foldl (fun (crc : UInt16) (byte : UInt8) =>
    (List.range 8).foldl (fun (crc : UInt16) j =>
      let c15 := crc >>> 15 &&& 1 == 1
      let bit := byte >>> (7 - j).toUInt8 &&& 1 == 1
      let crc := crc <<< 1
      if c15 ^^ bit then crc ^^^ polynom else crc) crc) init ^^^ xorOut

def bitLibReverse16Fast (data : UInt16) : UInt16 :=
  (data &&& 0x8000) >>> 15 ||| (data &&& 0x4000) >>> 13 ||| (data &&& 0x2000) >>> 11 |||
    (data &&& 0x1000) >>> 9 ||| (data &&& 0x0800) >>> 7 ||| (data &&& 0x0400) >>> 5 |||
    (data &&& 0x0200) >>> 3 ||| (data &&& 0x0100) >>> 1 ||| (data &&& 0x0080) <<< 1 |||
    (data &&& 0x0040) <<< 3 ||| (data &&& 0x0020) <<< 5 ||| (data &&& 0x0010) <<< 7 |||
    (data &&& 0x0008) <<< 9 ||| (data &&& 0x0004) <<< 11 ||| (data &&& 0x0002) <<< 13 |||
    (data &&& 0x0001) <<< 15

/-- With both the bytes and the result reflected. -/
def bitLibCrc16Reflected (data : List UInt8) (polynom init xorOut : UInt16) : UInt16 :=
  bitLibReverse16Fast (bitLibCrc16
    (data.map fun byte => (bitLibReverse16Fast byte.toUInt16 >>> 8).toUInt8) polynom init 0) ^^^ xorOut

/-- The lowest byte first. -/
def bitLibNumToBytesLe (value length : ℕ) : List UInt8 :=
  (List.range length).map fun i => (value >>> (8 * i)).toUInt8

/-- At most eight bytes, the lowest one first. -/
def bitLibBytesToNumLe (bytes : List UInt8) : ℕ :=
  bytes.foldr (fun byte value => byte.toNat + 256 * value) 0

end KiisuFirmware
