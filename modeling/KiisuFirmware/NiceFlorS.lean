import KiisuFirmware.SubGhzBlocks

/-!
# Nice FLOR-S

The cipher of `nice_flor_s.c`. The file it looks bytes up in is a function from addresses to bytes.
-/

namespace KiisuFirmware

/-- The bytes of a word in memory, the lowest one first. -/
structure NiceFlorSBytes where
  p0 : BitVec 8
  p1 : BitVec 8
  p2 : BitVec 8
  p3 : BitVec 8
  p4 : BitVec 8
  p5 : BitVec 8
  /-- The last two bytes, which are left as they are. -/
  rest : BitVec 16
  deriving DecidableEq

namespace NiceFlorSBytes

def ofData (data : BitVec 64) : NiceFlorSBytes where
  p0 := data.extractLsb' 0 8
  p1 := data.extractLsb' 8 8
  p2 := data.extractLsb' 16 8
  p3 := data.extractLsb' 24 8
  p4 := data.extractLsb' 32 8
  p5 := data.extractLsb' 40 8
  rest := data.extractLsb' 48 16

variable (p : NiceFlorSBytes)

def toData : BitVec 64 := p.rest ++ p.p5 ++ p.p4 ++ p.p3 ++ p.p2 ++ p.p1 ++ p.p0

def magicXor (k : BitVec 8) : NiceFlorSBytes :=
  { p with
    p1 := p.p1 ^^^ k
    p2 := p.p2 ^^^ k
    p3 := p.p3 ^^^ k
    p4 := p.p4 ^^^ k
    p5 := p.p5 ^^^ k }

/-- What is looked up at the first byte goes into the others, and into some bits of the first. -/
def lookup (key : BitVec 8 → BitVec 8) (mask : BitVec 8) : NiceFlorSBytes :=
  let k := key p.p0
  let p := p.magicXor k
  { p with
    p5 := p.p5 &&& 0x0f
    p0 := p.p0 ^^^ (k &&& mask) }

variable (getByteInFile : BitVec 32 → BitVec 8)

def lookupLow : NiceFlorSBytes :=
  p.lookup (fun p0 => getByteInFile ((p0 &&& 0x1f).setWidth 32)) 0xe0

def lookupHigh : NiceFlorSBytes :=
  p.lookup (fun p0 => getByteInFile ((p0 >>> 3).setWidth 32) + 0x25) 0x7

/-- The first two bytes change places. -/
def exchange : NiceFlorSBytes := { p with p0 := p.p1, p1 := p.p0 }

/-- The bytes are exchanged after the first of the two rounds. -/
def encryptRounds : NiceFlorSBytes :=
  let p := ((p.lookupLow getByteInFile).lookupHigh getByteInFile).exchange
  (p.lookupLow getByteInFile).lookupHigh getByteInFile

def decryptRounds : NiceFlorSBytes :=
  let p := ((p.lookupHigh getByteInFile).lookupLow getByteInFile).exchange
  (p.lookupHigh getByteInFile).lookupLow getByteInFile

/-- How the bytes are complemented and permuted after the rounds. -/
def encryptPermute : NiceFlorSBytes :=
  { p with
    p5 := ~~~p.p5 &&& 0x0f
    p4 := ~~~p.p0
    p0 := ~~~p.p2
    p2 := ~~~p.p4
    p3 := ~~~p.p1
    p1 := ~~~p.p3 }

/-- How they are before the rounds. -/
def decryptPermute : NiceFlorSBytes :=
  { p with
    p5 := ~~~p.p5
    p4 := ~~~p.p2
    p2 := ~~~p.p0
    p0 := ~~~p.p4
    p3 := ~~~p.p1
    p1 := ~~~p.p3 }

end NiceFlorSBytes

open NiceFlorSBytes

def subghzProtocolNiceFlorSEncrypt (data : BitVec 64) (getByteInFile : BitVec 32 → BitVec 8) :
    BitVec 64 :=
  ((ofData data).encryptRounds getByteInFile).encryptPermute.toData

/-- Of the instance it takes the data. -/
def subghzProtocolNiceFlorSDecrypt (data : BitVec 64) (getByteInFile : BitVec 32 → BitVec 8) :
    BitVec 64 :=
  ((ofData data).decryptPermute.decryptRounds getByteInFile).toData

end KiisuFirmware
