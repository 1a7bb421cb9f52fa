import KiisuFirmware.Cursor

/-!
# Bit buffers

`bit_buffer.c`, but for the parity bits. A buffer has all the bytes of its capacity, also those
behind its size. A failed `furi_check` is `none`.
-/

namespace KiisuFirmware

def BITS_IN_BYTE : ℕ := 8

@[ext] structure BitBuffer where
  data : List UInt8
  sizeBits : ℕ
  fits : sizeBits ≤ data.length * BITS_IN_BYTE
  deriving DecidableEq

namespace BitBuffer

variable (buf other : BitBuffer)

def capacityBytes : ℕ := buf.data.length

def sizeBytes : ℕ := buf.sizeBits / BITS_IN_BYTE + if buf.sizeBits % BITS_IN_BYTE ≠ 0 then 1 else 0

/-- The bytes inside the size. -/
def bytes : List UInt8 := buf.data.take buf.sizeBytes

/-- Bytes copied into the buffer, and a new size if there is room for it. -/
def put (offset : ℕ) (bytes : List UInt8) (sizeBits : ℕ) : Option BitBuffer :=
  if h : sizeBits ≤ (overwrite buf.data offset bytes).length * BITS_IN_BYTE then
    some ⟨overwrite buf.data offset bytes, sizeBits, h⟩
  else none

/-- A buffer that was just allocated. -/
def alloc (capacityBytes : ℕ) : BitBuffer := ⟨List.replicate capacityBytes 0, 0, Nat.zero_le _⟩

def hasPartialByte : Bool := buf.sizeBits % BITS_IN_BYTE ≠ 0

def reset : BitBuffer := ⟨List.replicate buf.capacityBytes 0, 0, Nat.zero_le _⟩

def copy : Option BitBuffer :=
  if other.sizeBits ≤ buf.capacityBytes * BITS_IN_BYTE then buf.put 0 other.bytes other.sizeBits
  else none

def copyRight (startIndex : ℕ) : Option BitBuffer :=
  if other.sizeBytes ≤ startIndex then none
  else if buf.capacityBytes < other.sizeBytes - startIndex then none
  else buf.put 0 ((other.data.drop startIndex).take (other.sizeBytes - startIndex))
    (other.sizeBits - startIndex * BITS_IN_BYTE)

def copyLeft (endIndex : ℕ) : Option BitBuffer :=
  if buf.capacityBytes < endIndex then none
  else if other.sizeBytes < endIndex then none
  else buf.put 0 (other.data.take endIndex) (endIndex * BITS_IN_BYTE)

def startsWithByte (byte : UInt8) : Bool := buf.sizeBytes ≠ 0 && buf.data.head? == some byte

def getByte (index : ℕ) : Option UInt8 := buf.data[index]?

def append : Option BitBuffer :=
  if buf.capacityBytes < buf.sizeBytes + other.sizeBytes then none
  else buf.put buf.sizeBytes other.bytes (buf.sizeBits + other.sizeBits)

def appendByte (byte : UInt8) : Option BitBuffer :=
  if buf.sizeBytes + 1 ≤ buf.capacityBytes then
    buf.put buf.sizeBytes [byte] ((buf.sizeBytes + 1) * BITS_IN_BYTE)
  else none

def setByte (index : ℕ) (byte : UInt8) : Option BitBuffer :=
  if index < buf.sizeBytes then buf.put index [byte] buf.sizeBits else none

def copyBytes (data : List UInt8) : Option BitBuffer :=
  if data.length ≤ buf.capacityBytes then buf.put 0 data (data.length * BITS_IN_BYTE) else none

/-- The last byte is copied whole. Reading behind the data has no meaning. -/
def copyBits (data : List UInt8) (sizeBits : ℕ) : Option BitBuffer :=
  let sizeBytes := (sizeBits + BITS_IN_BYTE - 1) / BITS_IN_BYTE
  if sizeBits ≤ buf.capacityBytes * BITS_IN_BYTE ∧ sizeBytes ≤ data.length then
    buf.put 0 (data.take sizeBytes) sizeBits
  else none

def appendBytes (data : List UInt8) : Option BitBuffer :=
  if buf.sizeBytes + data.length ≤ buf.capacityBytes then
    buf.put buf.sizeBytes data (buf.sizeBits + data.length * BITS_IN_BYTE)
  else none

/-- A zero is not written. -/
def appendBit (bit : Bool) : Option BitBuffer :=
  if buf.sizeBytes ≤ buf.capacityBytes - if buf.hasPartialByte then 0 else 1 then
    if bit then
      let byteIndex := buf.sizeBits / BITS_IN_BYTE
      let bitOffset := buf.sizeBits % BITS_IN_BYTE
      buf.put byteIndex [buf.data.getD byteIndex 0 ||| 1 <<< bitOffset.toUInt8] (buf.sizeBits + 1)
    else buf.put 0 [] (buf.sizeBits + 1)
  else none

/-- What `bit_buffer_write_bytes_mid` copies out of the buffer. -/
def writeBytesMid (startIndex sizeBytes : ℕ) : Option (List UInt8) :=
  if startIndex + sizeBytes ≤ buf.sizeBytes then some ((buf.data.drop startIndex).take sizeBytes)
  else none

def setSize (newSize : ℕ) : Option BitBuffer := buf.put 0 [] newSize

def setSizeBytes (newSizeBytes : ℕ) : Option BitBuffer := buf.setSize (newSizeBytes * BITS_IN_BYTE)

end BitBuffer

/-! ## Checksums: `iso14443_crc.c`, type A -/

def ISO14443_CRC_SIZE : ℕ := 2

def iso14443CrcCalculate (data : List UInt8) : UInt16 :=
  data.foldl (fun crc byte =>
    let byte := byte ^^^ crc.toUInt8
    let byte := byte ^^^ (byte <<< 4)
    (crc >>> 8) ^^^ (byte.toUInt16 <<< 8) ^^^ (byte.toUInt16 <<< 3) ^^^ (byte.toUInt16 >>> 4))
    0x6363

def iso14443CrcAppend (buf : BitBuffer) : Option BitBuffer :=
  let crc := iso14443CrcCalculate buf.bytes
  buf.appendBytes [crc.toUInt8, (crc >>> 8).toUInt8]

def iso14443CrcCheck (buf : BitBuffer) : Bool :=
  let dataSize := buf.sizeBytes - ISO14443_CRC_SIZE
  let crc := iso14443CrcCalculate (buf.bytes.take dataSize)
  decide (ISO14443_CRC_SIZE < buf.sizeBytes) &&
    buf.bytes.drop dataSize == [crc.toUInt8, (crc >>> 8).toUInt8]

def iso14443CrcTrim (buf : BitBuffer) : Option BitBuffer :=
  if ISO14443_CRC_SIZE < buf.sizeBytes then buf.setSizeBytes (buf.sizeBytes - ISO14443_CRC_SIZE)
  else none

/-!
## Bit buffers with parity bits

What `bit_buffer.c` does with the parity bits of the bytes of a buffer, eight of which share a byte.
Reading or writing outside an array has no meaning, so it is `none`, as is a failed `furi_check`.
-/

/-- `FURI_BIT`. -/
def furiBit (x : UInt8) (n : ℕ) : UInt8 := UInt8.ofNat ((x.toNat >>> n) % 2)

def storeByte (bytes : List UInt8) (index : ℕ) (byte : UInt8) : Option (List UInt8) :=
  if index < bytes.length then some (bytes.set index byte) else none

structure ParityBuffer extends BitBuffer where
  parity : List UInt8
  paritySize : parity.length = (data.length + BITS_IN_BYTE - 1) / BITS_IN_BYTE

namespace ParityBuffer

variable (buf : ParityBuffer)

/-- A buffer of these parts. -/
def ofParts (data : List UInt8) (sizeBits : ℕ) (parity : List UInt8) : Option ParityBuffer :=
  if h : sizeBits ≤ data.length * BITS_IN_BYTE ∧
      parity.length = (data.length + BITS_IN_BYTE - 1) / BITS_IN_BYTE then
    some ⟨⟨data, sizeBits, h.1⟩, parity, h.2⟩
  else none

/-- The first parity bit of a byte replaces all of it, the others are added. -/
def setByteWithParity (index : ℕ) (byte : UInt8) (parity : Bool) : Option ParityBuffer :=
  if index < buf.sizeBits / BITS_IN_BYTE then do
    let data ← storeByte buf.data index byte
    let cell ← buf.parity[index / BITS_IN_BYTE]?
    let parity ← storeByte buf.parity (index / BITS_IN_BYTE)
      (if index % BITS_IN_BYTE = 0 then parity.toUInt8
      else cell ||| UInt8.ofNat (parity.toUInt8.toNat <<< (index % BITS_IN_BYTE)))
    ofParts data buf.sizeBits parity
  else none

/-- The loop over so many groups of nine bits. -/
def copyGroups (source : List UInt8) : ℕ → ℕ → ℕ → List UInt8 → List UInt8 →
    Option (ℕ × List UInt8 × List UInt8)
  | 0, _, currByte, data, parity => some (currByte, data, parity)
  | groups + 1, bitsProcessed, currByte, data, parity => do
    let offset := bitsProcessed % BITS_IN_BYTE
    let low ← source[bitsProcessed / BITS_IN_BYTE]?
    let high ← source[bitsProcessed / BITS_IN_BYTE + 1]?
    let data ← storeByte data currByte (UInt8.ofNat (low.toNat >>> offset) |||
      UInt8.ofNat (high.toNat <<< (BITS_IN_BYTE - offset)))
    let bit := furiBit high offset
    let cell ← parity[currByte / BITS_IN_BYTE]?
    let parity ← storeByte parity (currByte / BITS_IN_BYTE)
      (if offset = 0 then bit else cell ||| UInt8.ofNat (bit.toNat <<< offset))
    copyGroups source groups (bitsProcessed + (BITS_IN_BYTE + 1)) (currByte + 1) data parity

def copyBytesWithParity (source : List UInt8) (sizeBits : ℕ) : Option ParityBuffer :=
  if sizeBits < BITS_IN_BYTE + 1 then do
    let data ← storeByte buf.data 0 (← source[0]?)
    ofParts data sizeBits buf.parity
  else if sizeBits % (BITS_IN_BYTE + 1) ≠ 0 then none
  else do
    let (currByte, data, parity) ←
      copyGroups source (sizeBits / (BITS_IN_BYTE + 1)) 0 0 buf.data buf.parity
    ofParts data (currByte * BITS_IN_BYTE) parity

/-- The loop over the bytes, so many of which are left. -/
def writeGroups : ℕ → ℕ → UInt16 → List UInt8 → Option (List UInt8 × UInt16)
  | 0, _, currBitPos, bitstream => some (bitstream, currBitPos)
  | left + 1, i, currBitPos, bitstream => do
    let cell ← buf.parity[i / BITS_IN_BYTE]?
    let nextParBit := furiBit cell (i % BITS_IN_BYTE)
    let byte ← buf.data[i]?
    let offset := currBitPos.toNat % BITS_IN_BYTE
    if offset = 0 then
      let bitstream ← storeByte bitstream (currBitPos.toNat / BITS_IN_BYTE) byte
      let currBitPos := currBitPos + 8
      let bitstream ← storeByte bitstream (currBitPos.toNat / BITS_IN_BYTE) nextParBit
      writeGroups left (i + 1) (currBitPos + 1) bitstream
    else
      let index := currBitPos.toNat / BITS_IN_BYTE
      let old ← bitstream[index]?
      let bitstream ← storeByte bitstream index (old ||| UInt8.ofNat (byte.toNat <<< offset))
      let bitstream ← storeByte bitstream (index + 1)
        (UInt8.ofNat (byte.toNat >>> (BITS_IN_BYTE - offset)) |||
          UInt8.ofNat (nextParBit.toNat <<< offset))
      writeGroups left (i + 1) (currBitPos + 9) bitstream

/-- The bytes at the destination, and how many bits were written. -/
def writeBytesWithParity (dest : List UInt8) : Option (List UInt8 × ℕ) :=
  if (buf.sizeBytes * (BITS_IN_BYTE + 1) + BITS_IN_BYTE) / BITS_IN_BYTE ≤ dest.length then do
    let (bitstream, currBitPos) ← buf.writeGroups buf.sizeBytes 0 0 dest
    return (bitstream, currBitPos.toNat)
  else none

end ParityBuffer

end KiisuFirmware
