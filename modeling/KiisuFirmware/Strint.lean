import Mathlib.Tactic

/-!
# Numbers as text

`strint.c` and `hex.c` read numbers, the formats of `printf` write them. A C string is the list of
the bytes before its terminator.
-/

namespace KiisuFirmware

/-! ## Writing -/

/-- The digits of `%u`. -/
def printDecimal (n : ℕ) : List UInt8 :=
  if n = 0 then [48] else ((Nat.digits 10 n).reverse.map fun d => 48 + UInt8.ofNat d)

/-- `%d`. -/
def printInt (n : ℤ) : List UInt8 :=
  if n < 0 then 45 :: printDecimal n.natAbs else printDecimal n.natAbs

def hexDigit (d : ℕ) : UInt8 := if d < 10 then 48 + UInt8.ofNat d else 55 + UInt8.ofNat d

/-- `%X` with leading zeros, of a number that has no more digits. -/
def printHex : ℕ → ℕ → List UInt8
  | 0, _ => []
  | width + 1, n => printHex width (n / 16) ++ [hexDigit (n % 16)]

/-! ## Reading: `strint.c` -/

inductive StrintParseError
  | sign
  | overflow
  | absent
  deriving DecidableEq, Repr

def strintIsSpace (c : UInt8) : Bool := decide (9 ≤ c ∧ c ≤ 13) || c == 32

def strintDigitValue (c : UInt8) : Option ℕ :=
  if 48 ≤ c ∧ c ≤ 57 then some (c.toNat - 48)
  else if 65 ≤ c ∧ c ≤ 90 then some (c.toNat - 65 + 10)
  else if 97 ≤ c ∧ c ≤ 122 then some (c.toNat - 97 + 10)
  else none

/-- The loop over the digits: the result, how many were read and what is after them. -/
def strintDigits (base limit : ℕ) :
    List UInt8 → ℕ → ℕ → Except StrintParseError (ℕ × ℕ × List UInt8)
  | [], result, readTotal => .ok (result, readTotal, [])
  | c :: str, result, readTotal =>
    match strintDigitValue c with
    | none => .ok (result, readTotal, c :: str)
    | some digitValue =>
      if base ≤ digitValue then .ok (result, readTotal, c :: str)
      else if limit / base < result then .error .overflow
      else if limit - digitValue < result * base then .error .overflow
      else strintDigits base limit str (result * base + digitValue) (readTotal + 1)

/-- The base a prefix stands for, and what is after the prefix. -/
def strintInferBase : List UInt8 → ℕ × List UInt8
  | 48 :: c :: str =>
    if c = 120 ∨ c = 88 then (16, str)
    else if c = 98 ∨ c = 66 then (2, str)
    else (8, c :: str)
  | [48] => (8, [])
  | str => (10, str)

def strintIsSign (str : List UInt8) : Bool := str.head? == some 43 || str.head? == some 45

/-- The absolute part, the sign (set for a negative number) and what is after the number. -/
def strintToUint64Internal (str : List UInt8) (base maxAbsNegative maxPositive : ℕ) :
    Except StrintParseError (ℕ × Bool × List UInt8) :=
  let str := str.dropWhile strintIsSpace
  let negative := str.head? == some 45
  let str := if strintIsSign str then str.tail else str
  if strintIsSign str then .error .sign
  else if maxAbsNegative = 0 ∧ negative = true then .error .sign
  else
    let inferred := strintInferBase str
    let base := if base = 0 then inferred.1 else base
    let limit := if negative then maxAbsNegative else maxPositive
    (strintDigits base limit inferred.2 0 0).bind fun r =>
    if r.2.1 = 0 then
      if inferred.1 = 8 then .ok (0, negative, r.2.2) else .error .absent
    else .ok (r.1, negative, r.2.2)

def strintToUint32 (str : List UInt8) (base : ℕ) : Except StrintParseError UInt32 :=
  (strintToUint64Internal str base 0 (2 ^ 32 - 1)).map fun r =>
    if r.2.1 then -UInt32.ofNat r.1 else UInt32.ofNat r.1

def strintToInt32 (str : List UInt8) (base : ℕ) : Except StrintParseError Int32 :=
  (strintToUint64Internal str base (2 ^ 31) (2 ^ 31 - 1)).map fun r =>
    if r.2.1 then -Int32.ofNat r.1 else Int32.ofNat r.1

/-! ## Reading: `hex.c` -/

def hexCharToHexNibble (c : UInt8) : Option UInt8 :=
  if 48 ≤ c ∧ c ≤ 57 then some (c - 48)
  else if 65 ≤ c ∧ c ≤ 70 then some (c - 65 + 10)
  else if 97 ≤ c ∧ c ≤ 102 then some (c - 97 + 10)
  else none

def hexCharToUint8 (hi low : UInt8) : Option UInt8 := do
  let hiNibbleValue ← hexCharToHexNibble hi
  let lowNibbleValue ← hexCharToHexNibble low
  return hiNibbleValue <<< 4 ||| lowNibbleValue

/-- The bytes of a number, the highest first, of which `value` is what was read so far. -/
def hexCharsToUint64Loop (value : ℕ) : ℕ → List UInt8 → Option ℕ
  | 0, _ => some value
  | bytes + 1, hi :: low :: valueStr => do
    let byte ← hexCharToUint8 hi low
    hexCharsToUint64Loop (value * 256 + byte.toNat) bytes valueStr
  | _ + 1, _ => none

def hexCharsToUint64 (valueStr : List UInt8) : Option UInt64 :=
  (hexCharsToUint64Loop 0 8 valueStr).map UInt64.ofNat

/-! ## Case -/

def toLower (c : UInt8) : UInt8 := if 65 ≤ c ∧ c ≤ 90 then c + 32 else c

/-- Whether `furi_string_cmpi` finds no difference. -/
def equalIgnoringCase (a b : List UInt8) : Bool := a.map toLower == b.map toLower

/-!
## Numbers of a type as text

The functions that `strint.c` makes of its parser, one for each type. A call writes behind its
pointers `end` and `out` if they are given and there is no error. A negative number is negated in
its type, where the absolute part of the lowest one is that number itself.
-/

/-- What is behind `end`, the string that it points to, and behind `out`. -/
structure StrintCells (α : Type) where
  tail : Option (List UInt8)
  out : Option α
  deriving DecidableEq

/-- `STRINT_MONO`. -/
structure StrintMono (α : Type) where
  negAbsLimit : ℕ
  posLimit : ℕ
  cast : ℕ → α
  neg : α → α

def StrintMono.parse {α : Type} (mono : StrintMono α) (str : List UInt8) (cells : StrintCells α)
    (base : ℕ) : Option StrintParseError × StrintCells α :=
  match strintToUint64Internal str base mono.negAbsLimit mono.posLimit with
  | .error err => (some err, cells)
  | .ok (absolute, negative, tail) =>
    (none, ⟨cells.tail.map fun _ => tail,
      cells.out.map fun _ => if negative then mono.neg (mono.cast absolute) else mono.cast absolute⟩)

namespace StrintMono

def uint64 : StrintMono UInt64 := ⟨0, 2 ^ 64 - 1, UInt64.ofNat, (-·)⟩
def int64 : StrintMono Int64 := ⟨2 ^ 63 - 1 + 1, 2 ^ 63 - 1, Int64.ofNat, (-·)⟩
def uint32 : StrintMono UInt32 := ⟨0, 2 ^ 32 - 1, UInt32.ofNat, (-·)⟩
def int32 : StrintMono Int32 := ⟨2 ^ 31 - 1 + 1, 2 ^ 31 - 1, Int32.ofNat, (-·)⟩
def uint16 : StrintMono UInt16 := ⟨0, 2 ^ 16 - 1, UInt16.ofNat, (-·)⟩
def int16 : StrintMono Int16 := ⟨2 ^ 15 - 1 + 1, 2 ^ 15 - 1, Int16.ofNat, (-·)⟩

end StrintMono

end KiisuFirmware
