import Mathlib.Tactic

/-!
# Relocation of Thumb instructions

The relocation of branches and of moves of `elf_file.c`. An `int` is an integer that is wrapped to 32
bits, and its bits are those of its two's complement. Trampolines are what the heap has at their
addresses, and where `malloc` finds room for one is told with the call.
-/

namespace KiisuFirmware

inductive ElfRelocationType
  | R_ARM_THM_PC22
  | R_ARM_CALL
  | R_ARM_THM_JUMP24
  | R_ARM_THM_MOVW_ABS_NC
  | R_ARM_THM_MOVT_ABS
  deriving DecidableEq

/-- `ldr r12, [pc, #2]`, `bx r12`. -/
def trampolineCodeLittleEndian : List UInt8 := [0xdf, 0xf8, 0x02, 0xc0, 0x60, 0x47]

structure JMPTrampoline where
  code : List UInt8
  addr : UInt32
  deriving DecidableEq

structure ElfFile where
  trampolineCache : UInt32 → Option UInt32
  heap : UInt32 → Option JMPTrampoline

namespace ElfFile

open ElfRelocationType

variable (elf : ElfFile)

/-! ## Branches -/

/-- A result of `int` arithmetic. -/
def int32 (value : ℤ) : ℤ := (value + 2 ^ 31) % 2 ^ 32 - 2 ^ 31

/-- The initial offset of a branch. -/
def initialOffset (hi lo : UInt16) : ℤ :=
  let s := hi.toNat >>> 10 &&& 1
  let j1 := lo.toNat >>> 13 &&& 1
  let j2 := lo.toNat >>> 11 &&& 1
  let i1 := (j1 ^^^ s) ^^^ 1
  let i2 := (j2 ^^^ s) ^^^ 1
  let imm10 := hi.toNat &&& 0x3ff
  let imm11 := lo.toNat &&& 0x7ff
  let offset := s <<< 24 ||| i1 <<< 23 ||| i2 <<< 22 ||| imm10 <<< 12 ||| imm11 <<< 1
  if offset &&& 0x01000000 ≠ 0 then (offset : ℤ) - 0x02000000 else offset

/-- The offset to an address, with the bit that is clear in a call of ARM code. -/
def finalOffset (offset : ℤ) (addr relAddr : UInt32) (toThumb isCall : Bool) : ℤ × ℕ :=
  let offset := int32 (offset + addr.toNat - relAddr.toNat)
  if !toThumb && isCall then (int32 (offset + 3) / 4 * 4, 0) else (offset, 1 <<< 12)

/-- The instruction with an offset. -/
def storeOffset (hi lo : UInt16) (offset : ℤ) (blxBit : ℕ) : UInt16 × UInt16 :=
  let offset := (offset % 2 ^ 32).toNat
  let s := offset >>> 24 &&& 1
  let i1 := offset >>> 23 &&& 1
  let i2 := offset >>> 22 &&& 1
  let j1 := s ^^^ (i1 ^^^ 1)
  let j2 := s ^^^ (i2 ^^^ 1)
  let imm10 := offset >>> 12 &&& 0x3ff
  let imm11 := offset >>> 1 &&& 0x7ff
  (UInt16.ofNat ((hi.toNat &&& 0xf800) ||| s <<< 10 ||| imm10),
    UInt16.ofNat ((lo.toNat &&& 0xc000) ||| j1 <<< 13 ||| blxBit ||| j2 <<< 11 ||| imm11))

def createTrampoline (symAddr : UInt32) : JMPTrampoline := ⟨trampolineCodeLittleEndian, symAddr⟩

/-- The trampoline for a symbol, from the cache or a new one. -/
def trampolineFor (malloc symAddr : UInt32) : UInt32 × ElfFile :=
  match elf.trampolineCache symAddr with
  | some addr => (addr, elf)
  | none =>
    (malloc,
      { trampolineCache := Function.update elf.trampolineCache symAddr (some malloc)
        heap := Function.update elf.heap malloc (some (createTrampoline symAddr)) })

def relocateJmpCall (malloc : UInt32) (hi lo : UInt16) (relAddr : UInt32)
    (type : ElfRelocationType) (symAddr : UInt32) : (UInt16 × UInt16) × ElfFile :=
  let toThumb := symAddr.toNat % 2 = 1
  let isCall := type = R_ARM_THM_PC22
  let direct := finalOffset (initialOffset hi lo) symAddr relAddr toThumb isCall
  if (¬toThumb ∨ 0x1000000 ≤ direct.1 ∨ direct.1 < -0x1000000) ∧
      (toThumb ∨ symAddr.toNat &&& 2 ≠ 0 ∨ ¬isCall) then
    let trampoline := elf.trampolineFor malloc symAddr
    let jump := finalOffset (initialOffset hi lo) trampoline.1 relAddr toThumb isCall
    (storeOffset hi lo jump.1 jump.2, trampoline.2)
  else (storeOffset hi lo direct.1 direct.2, elf)

/-! ## Moves -/

def relocateMov (upperInsn lowerInsn : UInt16) (type : ElfRelocationType) (symAddr : UInt32) :
    UInt16 × UInt16 :=
  let i := upperInsn.toNat >>> 10 &&& 1
  let imm4 := upperInsn.toNat &&& 0x000F
  let imm3 := lowerInsn.toNat >>> 12 &&& 0x7
  let imm8 := lowerInsn.toNat &&& 0x00FF
  let addend := imm4 <<< 12 ||| i <<< 11 ||| imm3 <<< 8 ||| imm8
  let addr := (symAddr.toNat + addend) % 2 ^ 32
  let addr := if type = R_ARM_THM_MOVT_ABS then addr >>> 16 else addr &&& 0x0000FFFF
  (UInt16.ofNat ((upperInsn.toNat &&& 0xFBF0) ||| (addr >>> 11 &&& 1) <<< 10 |||
      (addr >>> 12 &&& 0x000F)),
    UInt16.ofNat ((lowerInsn.toNat &&& 0x8F00) ||| (addr >>> 8 &&& 0x7) <<< 12 |||
      (addr &&& 0x00FF)))

end ElfFile

end KiisuFirmware
