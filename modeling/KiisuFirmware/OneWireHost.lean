import KiisuFirmware.ByteBits

/-!
# The search of the 1-Wire host

`onewire_host_reset_search` and `onewire_host_search` of `one_wire_host.c`, on a bus where a bit is
low as soon as one device pulls it down. A device that is searched for sends a bit of its ROM and the
complement of it, and goes on if the bit that it then receives is its own.
-/

namespace KiisuFirmware

/-- A ROM code, the family first. -/
abbrev OneWireRom : Type := Vector UInt8 8

/-- A bit of a ROM code, the first one being the lowest of the family. -/
def OneWireRom.bit (rom : OneWireRom) (position : ℕ) : Bool :=
  bitAt rom.toList position

/-! ## The bus -/

/-- What a device that is searched for does next with a bit of its ROM. -/
inductive OneWireSearchPhase
  | bit
  | complement
  | direction

inductive OneWireDeviceState
  | idle
  | command
  | search (position : ℕ) (phase : OneWireSearchPhase)

structure OneWireDevice where
  rom : OneWireRom
  alarm : Bool
  state : OneWireDeviceState

inductive OneWireHostSearchMode
  | conditional
  | normal
  deriving DecidableEq

namespace OneWireDevice

variable (device : OneWireDevice)

def setState (state : OneWireDeviceState) : OneWireDevice := { device with state := state }

/-- What the device lets the bus be. -/
def output : Bool :=
  match device.state with
  | .search position .bit => device.rom.bit position
  | .search position .complement => !device.rom.bit position
  | _ => true

/-- The device after a bit has been on the bus. -/
def slot (bit : Bool) : OneWireDevice :=
  match device.state with
  | .search position .bit => device.setState (.search position .complement)
  | .search position .complement => device.setState (.search position .direction)
  | .search position .direction =>
    if device.rom.bit position = bit ∧ position + 1 < 64 then
      device.setState (.search (position + 1) .bit)
    else device.setState .idle
  | _ => device

/-- A conditional search is for devices with an alarm. -/
def answers (mode : OneWireHostSearchMode) : Bool := mode = .normal || device.alarm

def commandOf (mode : OneWireHostSearchMode) : UInt8 :=
  match mode with
  | .conditional => 0xEC
  | .normal => 0xF0

/-- The device after a byte has been written. -/
def receive (byte : UInt8) : OneWireDevice :=
  match device.state with
  | .command =>
    if byte = commandOf .normal ∨ byte = commandOf .conditional ∧ device.alarm = true then
      device.setState (.search 0 .bit)
    else device.setState .idle
  | _ => device

end OneWireDevice

/-- All devices on a bus. -/
abbrev OneWireBus : Type := List OneWireDevice

namespace OneWireBus

variable (bus : OneWireBus)

/-- A reset, and whether a device is present. -/
def reset : Bool × OneWireBus := (!bus.isEmpty, bus.map (·.setState .command))

def write (byte : UInt8) : OneWireBus := bus.map (·.receive byte)

def readBit : Bool × OneWireBus := (bus.all (·.output), bus.map (·.slot (bus.all (·.output))))

def writeBit (bit : Bool) : OneWireBus := bus.map (·.slot bit)

end OneWireBus

/-! ## The host -/

structure OneWireHost where
  savedRom : OneWireRom
  lastDiscrepancy : ℕ
  lastFamilyDiscrepancy : ℕ
  lastDeviceFlag : Bool
  bus : OneWireBus

namespace OneWireHost

variable (host : OneWireHost)

def resetSearch : OneWireHost :=
  { host with
    savedRom := Vector.replicate 8 0
    lastDiscrepancy := 0
    lastFamilyDiscrepancy := 0
    lastDeviceFlag := false }

/-- What a search keeps from bit to bit. -/
structure SearchLoop where
  host : OneWireHost
  idBitNumber : ℕ
  lastZero : ℕ
  romByteNumber : ℕ
  romByteMask : UInt8

namespace SearchLoop

variable (s : SearchLoop)

def savedByte : UInt8 := s.host.savedRom.toList.getD s.romByteNumber 0

def setBus (bus : OneWireBus) : SearchLoop := { s with host := { s.host with bus := bus } }

/-- The direction where devices differ. -/
def discrepancyDirection : Bool :=
  if s.idBitNumber < s.host.lastDiscrepancy then decide (0 < s.savedByte &&& s.romByteMask)
  else decide (s.idBitNumber = s.host.lastDiscrepancy)

/-- A zero that is picked is recorded. -/
def recordZero : SearchLoop :=
  { s with
    lastZero := s.idBitNumber
    host := { s.host with
      lastFamilyDiscrepancy :=
        if s.idBitNumber < 9 then s.idBitNumber else s.host.lastFamilyDiscrepancy } }

/-- A direction is saved and written, and the next bit is the one of the mask. -/
def advance (direction : Bool) : SearchLoop :=
  let byte := if direction then s.savedByte ||| s.romByteMask else s.savedByte &&& ~~~s.romByteMask
  let mask := s.romByteMask <<< 1
  { host := { s.host with
      savedRom := s.host.savedRom.setIfInBounds s.romByteNumber byte
      bus := s.host.bus.writeBit direction }
    idBitNumber := s.idBitNumber + 1
    lastZero := s.lastZero
    romByteNumber := if mask = 0 then s.romByteNumber + 1 else s.romByteNumber
    romByteMask := if mask = 0 then 1 else mask }

end SearchLoop

/-- The loop over the bits. It ends early when there is no device. -/
def searchLoop : ℕ → SearchLoop → SearchLoop
  | 0, s => s
  | rounds + 1, s =>
    let idBit := s.host.bus.readBit.1
    let cmpIdBit := s.host.bus.readBit.2.readBit.1
    let s := s.setBus s.host.bus.readBit.2.readBit.2
    if idBit && cmpIdBit then s
    else
      let s :=
        if idBit ≠ cmpIdBit then s.advance idBit
        else if s.discrepancyDirection then s.advance true
        else s.recordZero.advance false
      if s.romByteNumber < 8 then searchLoop rounds s else s

/-- The counters as for a first search. -/
def resetCounters : OneWireHost :=
  { host with lastDiscrepancy := 0, lastDeviceFlag := false, lastFamilyDiscrepancy := 0 }

/-- The address that is found, if the search was successful, and if the family is not zero. -/
def finish (searchResult : Bool) : Option OneWireRom × OneWireHost :=
  if !searchResult || host.savedRom.toList.getD 0 0 = 0 then (none, host.resetCounters)
  else (some host.savedRom, host)

def search (mode : OneWireHostSearchMode) : Option OneWireRom × OneWireHost :=
  if host.lastDeviceFlag then host.finish false
  else
    let presence := host.bus.reset.1
    let host := { host with bus := host.bus.reset.2 }
    if !presence then (none, host.resetCounters)
    else
      let host := { host with bus := host.bus.write (OneWireDevice.commandOf mode) }
      let s := searchLoop 64
        { host := host, idBitNumber := 1, lastZero := 0, romByteNumber := 0, romByteMask := 1 }
      if s.idBitNumber < 65 then s.host.finish false
      else
        { s.host with
          lastDiscrepancy := s.lastZero
          lastDeviceFlag := s.host.lastDeviceFlag || decide (s.lastZero = 0) }.finish true

/-- What a number of searches give, one after the other. -/
def searches (mode : OneWireHostSearchMode) : ℕ → OneWireHost → List (Option OneWireRom)
  | 0, _ => []
  | calls + 1, host => (host.search mode).1 :: searches mode calls (host.search mode).2

end OneWireHost

end KiisuFirmware
