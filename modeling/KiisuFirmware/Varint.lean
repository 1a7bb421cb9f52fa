import KiisuFirmware.Cursor

/-!
# Numbers of a variable length

`varint.c` and `varint_pair.c`: a number as bytes with seven bits each, the lowest first, and two
of them one after the other, the first for a high level and the second for a low one.
-/

namespace KiisuFirmware

theorem toNat_shiftRight_seven_lt {value : UInt32} (h : 0x80 ≤ value) :
    (value >>> 7).toNat < value.toNat := by
  have hvalue : 128 ≤ value.toNat := UInt32.le_iff_toNat_le.1 h
  rw [UInt32.toNat_shiftRight, Nat.shiftRight_eq_div_pow]
  exact Nat.div_lt_self (by omega) (by decide)

def varintUint32Pack (value : UInt32) : List UInt8 :=
  if 0x80 ≤ value then (value ||| 0x80).toUInt8 :: varintUint32Pack (value >>> 7)
  else [value.toUInt8]
termination_by value.toNat
decreasing_by
  rename_i hle
  exact toNat_shiftRight_seven_lt hle

def varintUint32Length (value : UInt32) : ℕ :=
  if 0x80 ≤ value then varintUint32Length (value >>> 7) + 1 else 1
termination_by value.toNat
decreasing_by
  rename_i hle
  exact toNat_shiftRight_seven_lt hle

/-- The bits of a byte at the `i`-th place; those that are shifted out are lost. -/
def varintBits (byte : UInt8) (i : ℕ) : UInt32 :=
  UInt32.ofNat ((byte &&& 0x7F).toNat <<< (7 * i))

/-- The loop, with what was parsed before the `i`-th byte. -/
def varintUint32UnpackLoop (parsed : UInt32) (i : ℕ) : List UInt8 → UInt32 × ℕ
  | [] => (parsed, i)
  | byte :: input =>
    let parsed := parsed ||| varintBits byte i
    if byte &&& 0x80 = 0 then (parsed, i) else varintUint32UnpackLoop parsed (i + 1) input

/-- The value, and how long it is; one more than there is if it does not end. -/
def varintUint32Unpack (input : List UInt8) : UInt32 × ℕ :=
  let (parsed, i) := varintUint32UnpackLoop 0 0 input
  (parsed, i + 1)

/-! ## Signed numbers -/

/-- The number that is packed for a signed one. -/
def varintZigZag (value : Int32) : UInt32 :=
  if 0 ≤ value then (value * 2).toUInt32 else (value * -2 - 1).toUInt32

def varintInt32Pack (value : Int32) : List UInt8 := varintUint32Pack (varintZigZag value)

def varintInt32Length (value : Int32) : ℕ := varintUint32Length (varintZigZag value)

/-- The cast comes before the division: half of `2 ^ 31` has the wrong sign. -/
def varintUnZigZag (v : UInt32) : Int32 :=
  if v &&& 1 ≠ 0 then (v + 1).toInt32 / -2 else (v / 2).toInt32

def varintInt32Unpack (input : List UInt8) : Int32 × ℕ :=
  let (v, size) := varintUint32Unpack input
  (varintUnZigZag v, size)

/-! ## Pairs -/

def varintPairSize : ℕ := 10

structure VarintPair where
  dataLength : ℕ
  data : List UInt8
  deriving DecidableEq

namespace VarintPair

def alloc : VarintPair := ⟨0, List.replicate varintPairSize 0⟩

variable (pair : VarintPair)

/-- A first value that comes after a first value drops both. -/
def pack (first : Bool) (value : UInt32) : Bool × VarintPair :=
  let packed := varintUint32Pack value
  if first then
    if pair.dataLength = 0 then (false, ⟨packed.length, overwrite pair.data 0 packed⟩)
    else (false, { pair with dataLength := 0 })
  else
    if pair.dataLength ≠ 0 then
      (true, ⟨pair.dataLength + packed.length, overwrite pair.data pair.dataLength packed⟩)
    else (false, pair)

def reset : VarintPair := { pair with dataLength := 0 }

def getData : List UInt8 := pair.data.take pair.dataLength

end VarintPair

/-- Two values and how long they are, if there is something behind the first. -/
def varintPairUnpack (data : List UInt8) : Option (UInt32 × UInt32 × ℕ) :=
  let (value1, size) := varintUint32Unpack data
  if data.length ≤ size then none
  else
    let (value2, size2) := varintUint32Unpack (data.drop size)
    some (value1, value2, size + size2)

end KiisuFirmware
