import KiisuFirmware.BitLib

/-!
# Numbers read from bits

The readers of `bit_lib.c` with each byte that they read. There is no number if a byte is read that
the array does not have.
-/

namespace KiisuFirmware

namespace BitReader

variable (data : List UInt8) (position : ℕ)

def getBit : Option Bool := do
  let byte ← data[position / 8]?
  some (byte >>> (7 - position % 8).toUInt8 &&& 1 == 1)

def getBits (length : ℕ) : Option UInt8 :=
  let shift := position % 8
  if shift = 0 then do
    let byte ← data[position / 8]?
    some (byte >>> (8 - length).toUInt8)
  else if shift + length ≤ 8 then do
    let byte ← data[position / 8]?
    some (byte <<< shift.toUInt8 >>> (8 - length).toUInt8)
  else do
    let byte ← data[position / 8]?
    let next ← data[position / 8 + 1]?
    let value := byte <<< shift.toUInt8
    let value := value ||| next >>> (8 - shift).toUInt8
    some (value >>> (8 - length).toUInt8)

/-- None of the shifts is too long for the type it is done in, which is `int` where the code has no
cast. -/
def getBits16 (length : ℕ) : Option UInt16 :=
  if length ≤ 8 then do
    let value ← getBits data position length
    some value.toUInt16
  else do
    let value ← getBits data position 8
    let last ← getBits data (position + 8) (length - 8)
    some (value.toUInt16 <<< (length - 8).toUInt16 ||| last.toUInt16)

def getBits32 (length : ℕ) : Option UInt32 :=
  if length ≤ 8 then do
    let value ← getBits data position length
    some value.toUInt32
  else if length ≤ 16 then do
    let value ← getBits data position 8
    let last ← getBits data (position + 8) (length - 8)
    some (value.toUInt32 <<< (length - 8).toUInt32 ||| last.toUInt32)
  else if length ≤ 24 then do
    let value ← getBits data position 8
    let value₁ ← getBits data (position + 8) 8
    let last ← getBits data (position + 16) (length - 16)
    some (value.toUInt32 <<< (length - 8).toUInt32 |||
      value₁.toUInt32 <<< (length - 16).toUInt32 ||| last.toUInt32)
  else do
    let value ← getBits data position 8
    let value₁ ← getBits data (position + 8) 8
    let value₂ ← getBits data (position + 16) 8
    let last ← getBits data (position + 24) (length - 24)
    some (value.toUInt32 <<< (length - 8).toUInt32 |||
      value₁.toUInt32 <<< (length - 16).toUInt32 |||
      value₂.toUInt32 <<< (length - 24).toUInt32 ||| last.toUInt32)

def getBits64 (length : ℕ) : Option UInt64 :=
  if length ≤ 8 then do
    let value ← getBits data position length
    some value.toUInt64
  else if length ≤ 16 then do
    let value ← getBits data position 8
    let last ← getBits data (position + 8) (length - 8)
    some (value.toUInt64 <<< (length - 8).toUInt64 ||| last.toUInt64)
  else if length ≤ 24 then do
    let value ← getBits data position 8
    let value₁ ← getBits data (position + 8) 8
    let last ← getBits data (position + 16) (length - 16)
    some (value.toUInt64 <<< (length - 8).toUInt64 |||
      value₁.toUInt64 <<< (length - 16).toUInt64 ||| last.toUInt64)
  else if length ≤ 32 then do
    let value ← getBits data position 8
    let value₁ ← getBits data (position + 8) 8
    let value₂ ← getBits data (position + 16) 8
    let last ← getBits data (position + 24) (length - 24)
    some (value.toUInt64 <<< (length - 8).toUInt64 |||
      value₁.toUInt64 <<< (length - 16).toUInt64 |||
      value₂.toUInt64 <<< (length - 24).toUInt64 ||| last.toUInt64)
  else if length ≤ 40 then do
    let value ← getBits data position 8
    let value₁ ← getBits data (position + 8) 8
    let value₂ ← getBits data (position + 16) 8
    let value₃ ← getBits data (position + 24) 8
    let last ← getBits data (position + 32) (length - 32)
    some (value.toUInt64 <<< (length - 8).toUInt64 |||
      value₁.toUInt64 <<< (length - 16).toUInt64 |||
      value₂.toUInt64 <<< (length - 24).toUInt64 |||
      value₃.toUInt64 <<< (length - 32).toUInt64 ||| last.toUInt64)
  else if length ≤ 48 then do
    let value ← getBits data position 8
    let value₁ ← getBits data (position + 8) 8
    let value₂ ← getBits data (position + 16) 8
    let value₃ ← getBits data (position + 24) 8
    let value₄ ← getBits data (position + 32) 8
    let last ← getBits data (position + 40) (length - 40)
    some (value.toUInt64 <<< (length - 8).toUInt64 |||
      value₁.toUInt64 <<< (length - 16).toUInt64 |||
      value₂.toUInt64 <<< (length - 24).toUInt64 |||
      value₃.toUInt64 <<< (length - 32).toUInt64 |||
      value₄.toUInt64 <<< (length - 40).toUInt64 ||| last.toUInt64)
  else if length ≤ 56 then do
    let value ← getBits data position 8
    let value₁ ← getBits data (position + 8) 8
    let value₂ ← getBits data (position + 16) 8
    let value₃ ← getBits data (position + 24) 8
    let value₄ ← getBits data (position + 32) 8
    let value₅ ← getBits data (position + 40) 8
    let last ← getBits data (position + 48) (length - 48)
    some (value.toUInt64 <<< (length - 8).toUInt64 |||
      value₁.toUInt64 <<< (length - 16).toUInt64 |||
      value₂.toUInt64 <<< (length - 24).toUInt64 |||
      value₃.toUInt64 <<< (length - 32).toUInt64 |||
      value₄.toUInt64 <<< (length - 40).toUInt64 |||
      value₅.toUInt64 <<< (length - 48).toUInt64 ||| last.toUInt64)
  else do
    let value ← getBits data position 8
    let value₁ ← getBits data (position + 8) 8
    let value₂ ← getBits data (position + 16) 8
    let value₃ ← getBits data (position + 24) 8
    let value₄ ← getBits data (position + 32) 8
    let value₅ ← getBits data (position + 40) 8
    let value₆ ← getBits data (position + 48) 8
    let last ← getBits data (position + 56) (length - 56)
    some (value.toUInt64 <<< (length - 8).toUInt64 |||
      value₁.toUInt64 <<< (length - 16).toUInt64 |||
      value₂.toUInt64 <<< (length - 24).toUInt64 |||
      value₃.toUInt64 <<< (length - 32).toUInt64 |||
      value₄.toUInt64 <<< (length - 40).toUInt64 |||
      value₅.toUInt64 <<< (length - 48).toUInt64 |||
      value₆.toUInt64 <<< (length - 56).toUInt64 ||| last.toUInt64)

/-- The number with these binary digits, the most significant one first. -/
def number (bits : List Bool) : ℕ := bits.foldl (fun value bit => 2 * value + bit.toNat) 0

end BitReader

end KiisuFirmware
