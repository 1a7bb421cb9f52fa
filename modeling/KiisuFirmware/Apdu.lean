import Mathlib.Tactic

/-!
# The bodies of command APDUs

What follows the header of a command of ISO 7816-4: the data, behind their length, and the length
that is expected of the answer. A length has one byte, or two behind a zero.
-/

namespace KiisuFirmware

/-- A length in which all bits are zero is the largest one. -/
def expected (le most : ℕ) : ℕ := if le = 0 then most else le

/-- Two bytes as a number, the higher one first. -/
def uint16Be (high low : UInt8) : ℕ := high.toNat * 256 + low.toNat

/-- A body with these data, and with the length that is expected. -/
inductive ApduBody : List UInt8 → List UInt8 → ℕ → Prop
  | empty : ApduBody [] [] 0
  | short (le : UInt8) : ApduBody [le] [] (expected le.toNat 256)
  | extended (high low : UInt8) : ApduBody [0, high, low] [] (expected (uint16Be high low) 65536)
  | data {lc : UInt8} {data : List UInt8} (hpos : 0 < data.length) (hlc : lc.toNat = data.length) :
      ApduBody (lc :: data) data 0
  | dataShort {lc : UInt8} {data : List UInt8} (hpos : 0 < data.length)
      (hlc : lc.toNat = data.length) (le : UInt8) :
      ApduBody (lc :: (data ++ [le])) data (expected le.toNat 256)
  | extendedData {high low : UInt8} {data : List UInt8} (hpos : 0 < data.length)
      (hlc : uint16Be high low = data.length) : ApduBody (0 :: high :: low :: data) data 0
  | extendedDataExtended {high low : UInt8} {data : List UInt8} (hpos : 0 < data.length)
      (hlc : uint16Be high low = data.length) (high' low' : UInt8) :
      ApduBody (0 :: high :: low :: (data ++ [high', low'])) data
        (expected (uint16Be high' low') 65536)

/-- An instruction of the class zero with its two parameters and a body. -/
structure IsApdu (frame : List UInt8) (ins p1 p2 : UInt8) (data : List UInt8) (le : ℕ) : Prop where
  body : ∃ body, frame = 0x00 :: ins :: p1 :: p2 :: body ∧ ApduBody body data le

theorem uint16Be_lt (high low : UInt8) : uint16Be high low < 2 ^ 16 := by
  have hhigh := high.toNat_lt
  have hlow := low.toNat_lt
  unfold uint16Be
  omega

end KiisuFirmware
