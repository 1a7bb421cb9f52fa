import KiisuFirmware.Separation

/-!
# Arrays without types

The arrays of `simple_array.c`, for elements that are plain bytes and for elements that point to
arrays of their own. Memory holds the arrays and the storage of their elements, with the address of
each. A program that fails a check, finds no memory or asks for more than a `size_t` has bytes does
not go on.
-/

namespace KiisuFirmware

namespace SimpleArray

/-- An element: the bytes that are no pointers, and the arrays that the pointers are of. -/
structure Element where
  bytes : List UInt8
  members : List UInt32

/-- An array itself, without its elements. No data is the address zero. -/
structure Header where
  config : UInt32
  data : UInt32
  count : UInt32

inductive Cell
  | header (header : Header)
  | data (elements : List Element)

abbrev Mem := StateT (Heap UInt32 Cell) Option

end SimpleArray

/-- A configuration: where it is, the size of an element, one of which all bytes are zero, how the
bytes of one lie in memory, and the callbacks. -/
structure SimpleArrayConfig where
  address : UInt32
  typeSize : ℕ
  zero : SimpleArray.Element
  raw : SimpleArray.Element → List UInt8
  init : Option (SimpleArray.Element → SimpleArray.Mem SimpleArray.Element)
  reset : Option (SimpleArray.Element → SimpleArray.Mem Unit)
  copy : Option (SimpleArray.Element → SimpleArray.Element → SimpleArray.Mem SimpleArray.Element)

namespace SimpleArray

def getHeader (instance' : UInt32) : Mem Header := do
  match ← Heap.read instance' with
  | .header header => pure header
  | .data _ => failure

def getElements (data : UInt32) : Mem (List Element) := do
  match ← Heap.read data with
  | .header _ => failure
  | .data elements => pure elements

section Operations

variable (malloc : Heap.Allocator UInt32 Cell 0) (config : SimpleArrayConfig)

def alloc : Mem UInt32 := Heap.alloc malloc (.header ⟨config.address, 0, 0⟩)

def resetElements (elements : List Element) : Mem Unit :=
  match config.reset with
  | none => pure ()
  | some reset => ForM.forM elements reset

def reset (instance' : UInt32) : Mem Unit := do
  let header ← getHeader instance'
  if header.data = 0 then pure ()
  else do
    let elements ← getElements header.data
    resetElements config elements
    Heap.free header.data
    Heap.write instance' (.header ⟨header.config, 0, 0⟩)

def free (instance' : UInt32) : Mem Unit := do
  reset config instance'
  Heap.free instance'

def initElements (elements : List Element) : Mem (List Element) :=
  match config.init with
  | none => pure elements
  | some init => elements.mapM init

def init (instance' : UInt32) (count : UInt32) : Mem Unit := do
  guard (0 < count)
  reset config instance'
  guard (count.toNat * config.typeSize < 2 ^ 32)
  let data ← Heap.alloc malloc (.data (List.replicate count.toNat config.zero))
  let header ← getHeader instance'
  Heap.write instance' (.header ⟨header.config, data, count⟩)
  let elements ← getElements data
  let elements ← initElements config elements
  Heap.write data (.data elements)

/-- The elements of the copy, from its own elements and those of the other array. -/
def copyElements (elements other : List Element) : Mem (List Element) :=
  match config.copy with
  | none => pure other
  | some copy => (elements.zip other).mapM fun pair => copy pair.1 pair.2

def copy (instance' other : UInt32) : Mem Unit := do
  let header ← getHeader instance'
  let otherHeader ← getHeader other
  guard (header.config = otherHeader.config)
  reset config instance'
  let otherHeader ← getHeader other
  if otherHeader.count = 0 then pure ()
  else do
    init malloc config instance' otherHeader.count
    let header ← getHeader instance'
    let elements ← getElements header.data
    let otherElements ← getElements otherHeader.data
    let elements ← copyElements config elements otherElements
    Heap.write header.data (.data elements)

/-- The first bytes are compared, as many of them as there are elements. -/
def isEqual (instance' other : UInt32) : Mem Bool :=
  if instance' = other then pure true
  else do
    let header ← getHeader instance'
    let otherHeader ← getHeader other
    if header.config ≠ otherHeader.config ∨ header.count ≠ otherHeader.count then pure false
    else if header.data = otherHeader.data ∨ header.data = 0 ∨ otherHeader.data = 0 then pure true
    else do
      let elements ← getElements header.data
      let otherElements ← getElements otherHeader.data
      pure ((elements.flatMap config.raw).take otherHeader.count.toNat ==
        (otherElements.flatMap config.raw).take otherHeader.count.toNat)

/-- What is done to the element with an index, by a pointer to it. -/
def update (instance' : UInt32) (index : ℕ) (change : Element → Mem Element) : Mem Unit := do
  let header ← getHeader instance'
  guard (index < header.count.toNat)
  let elements ← getElements header.data
  match elements[index]? with
  | none => failure
  | some element =>
    let element ← change element
    Heap.write header.data (.data (elements.set index element))

end Operations

end SimpleArray

open SimpleArray

/-! ## Plain elements -/

def SimpleArrayConfig.plain (address : UInt32) (typeSize : ℕ) : SimpleArrayConfig where
  address := address
  typeSize := typeSize
  zero := ⟨List.replicate typeSize 0, []⟩
  raw element := element.bytes
  init := none
  reset := none
  copy := none

/-! ## Elements with arrays -/

namespace SimpleArray

section Record

variable (malloc : Heap.Allocator UInt32 Cell 0) (configs : List SimpleArrayConfig)

def recordInit (element : Element) : Mem Element := do
  let members ← configs.mapM (alloc malloc)
  pure { element with members := members }

def recordReset (element : Element) : Mem Unit :=
  ForM.forM (configs.zip element.members) fun member => free member.1 member.2

def recordCopy (element other : Element) : Mem Element := do
  ForM.forM ((configs.zip element.members).zip other.members) fun member =>
    copy malloc member.1.1 member.1.2 member.2
  pure { element with bytes := other.bytes }

/-- The bytes with those of the padding between them, that are the ones that are not of a field. -/
def place : List Bool → List UInt8 → List UInt8
  | [], _ => []
  | true :: layout, byte :: bytes => byte :: place layout bytes
  | true :: layout, [] => 0 :: place layout []
  | false :: layout, bytes => 0 :: place layout bytes

def pointer (address : UInt32) : List UInt8 :=
  [address.toUInt8, (address >>> 8).toUInt8, (address >>> 16).toUInt8, (address >>> 24).toUInt8]

end Record

end SimpleArray

/-- The fields, of which the layout says which bytes are theirs, then the pointers, then what is
left of the size. -/
def SimpleArrayConfig.record (malloc : Heap.Allocator UInt32 Cell 0) (address : UInt32)
    (layout : List Bool) (configs : List SimpleArrayConfig) (rest : ℕ) : SimpleArrayConfig where
  address := address
  typeSize := layout.length + 4 * configs.length + rest
  zero := ⟨List.replicate (layout.count true) 0, List.replicate configs.length 0⟩
  raw element :=
    place layout element.bytes ++ element.members.flatMap pointer ++ List.replicate rest 0
  init := some (recordInit malloc configs)
  reset := some (recordReset configs)
  copy := some (recordCopy malloc configs)

/-! ## Configurations

Where a configuration is does not matter, as long as no two are at one place. -/

def simpleArrayConfigUint8 : SimpleArrayConfig := .plain 1 1

def mfDesfireKeyVersionArrayConfig : SimpleArrayConfig := .plain 2 1

def mfDesfireAppIdArrayConfig : SimpleArrayConfig := .plain 3 3

def mfDesfireFileIdArrayConfig : SimpleArrayConfig := .plain 4 1

def mfDesfireFileSettingsArrayConfig : SimpleArrayConfig := .plain 5 48

def felicaServiceArrayCfg : SimpleArrayConfig := .plain 8 6

def felicaAreaArrayCfg : SimpleArrayConfig := .plain 9 10

def felicaPublicBlockArrayCfg : SimpleArrayConfig := .plain 10 22

section Callbacks

variable (malloc : Heap.Allocator UInt32 Cell 0)

/-- The size is that of the data of a card, of which an element only uses the first pointer. -/
def mfDesfireFileDataArrayConfig : SimpleArrayConfig :=
  .record malloc 6 [] [simpleArrayConfigUint8] 60

/-- The settings of the keys are seven bytes, with one byte of padding behind them. -/
def mfDesfireApplicationArrayConfig : SimpleArrayConfig :=
  .record malloc 7 [true, true, true, true, true, true, true, false]
    [mfDesfireKeyVersionArrayConfig, mfDesfireFileIdArrayConfig, mfDesfireFileSettingsArrayConfig,
      mfDesfireFileDataArrayConfig malloc] 0

/-- The index and the code of a system and the version of its key. -/
def felicaSystemArrayCfg : SimpleArrayConfig :=
  .record malloc 11 [true, false, true, true, true, true, false, false]
    [felicaServiceArrayCfg, felicaAreaArrayCfg, felicaPublicBlockArrayCfg] 0

end Callbacks

/-! ## Cards -/

/-- The data of a card, without the array: what is compared of it, byte by byte. -/
structure FelicaArrayData where
  idm : List UInt8
  pmm : List UInt8
  blocksTotal : UInt8
  blocksRead : UInt8
  dump : List UInt8
  systems : UInt32

/-- `felica_is_equal`. -/
def FelicaArrayData.isEqual (malloc : Heap.Allocator UInt32 Cell 0) (data other : FelicaArrayData) :
    Mem Bool :=
  if data.idm = other.idm ∧ data.pmm = other.pmm ∧ data.blocksTotal = other.blocksTotal ∧
      data.blocksRead = other.blocksRead ∧ data.dump = other.dump then
    SimpleArray.isEqual (felicaSystemArrayCfg malloc) data.systems other.systems
  else pure false

end KiisuFirmware
