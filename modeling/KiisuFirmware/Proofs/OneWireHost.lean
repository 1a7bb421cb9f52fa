import KiisuFirmware.BitSearch
import KiisuFirmware.OneWireHost

/-!
# The search of the 1-Wire host finds all devices

The bits of the ROM codes are words (`OneWireRom.bits`), and while the loop is at a bit, the devices
that are still searched for are the words that begin with the bits so far (`words`). So a search is
one of `BitSearch`, and the searches after a reset give all ROM codes (`searches_eq`).
-/

namespace KiisuFirmware

/-! ## Bits of ROM codes -/

namespace OneWireRom

def bits (rom : OneWireRom) : List Bool := firstBits rom.toList 64

theorem length_bits (rom : OneWireRom) : rom.bits.length = 64 := by
  rw [bits, firstBits, List.length_map, List.length_range]

theorem getElem?_bits (rom : OneWireRom) {i : ℕ} (h : i < 64) : rom.bits[i]? = some (rom.bit i) := by
  rw [bits, firstBits, List.getElem?_map, List.getElem?_range h]
  rfl

theorem drop_bits (rom : OneWireRom) {i : ℕ} (h : i < 64) :
    rom.bits.drop i = rom.bit i :: rom.bits.drop (i + 1) := by
  have hlt : i < rom.bits.length := by rwa [length_bits]
  have hget := getElem?_bits rom h
  rw [List.getElem?_eq_getElem hlt, Option.some_inj] at hget
  rw [List.drop_eq_getElem_cons hlt, hget]

theorem length_toList (rom : OneWireRom) : rom.toList.length = 8 := by simp

theorem bits_injective : Function.Injective bits := by
  intro rom rom' heq
  have hbit (i : ℕ) (hi : i < 8 * 8) : rom.bit i = rom'.bit i := by
    have hget := getElem?_bits rom hi
    rw [heq, getElem?_bits rom' hi] at hget
    exact (Option.some_inj.1 hget).symm
  have htake := take_eq_of_bitAt (length_toList rom).ge (length_toList rom').ge hbit
  rw [List.take_of_length_le (length_toList rom).le,
    List.take_of_length_le (length_toList rom').le] at htake
  exact Vector.toList_inj.1 htake

theorem testBit_direction (byte : UInt8) {k : ℕ} (hk : k < 8) (direction : Bool) {j : ℕ}
    (hj : j < 8) :
    (if direction then byte ||| (1 : UInt8) <<< k.toUInt8
      else byte &&& ~~~((1 : UInt8) <<< k.toUInt8)).toNat.testBit j =
      if j = k then direction else byte.toNat.testBit j := by
  rcases direction with _ | _
  · rw [if_neg Bool.false_ne_true, UInt8.toNat_and, Nat.testBit_and, testBit_not _ hj,
      testBit_mask hk hj]
    by_cases h : j = k <;> simp [h]
  · rw [if_pos rfl, UInt8.toNat_or, Nat.testBit_or, testBit_mask hk hj]
    by_cases h : j = k <;> simp [h]

theorem bit_set (rom : OneWireRom) {i : ℕ} (hi : i < 64) (direction : Bool) (j : ℕ) :
    OneWireRom.bit (rom.setIfInBounds (i / 8)
      (if direction then rom.toList.getD (i / 8) 0 ||| (1 : UInt8) <<< (i % 8).toUInt8
        else rom.toList.getD (i / 8) 0 &&& ~~~((1 : UInt8) <<< (i % 8).toUInt8))) j =
      if j = i then direction else rom.bit j := by
  have hlength := length_toList rom
  rw [bit, Vector.toList_setIfInBounds, bitAt_set (by omega)]
  by_cases hbyte : j / 8 = i / 8
  · rw [if_pos hbyte, testBit_direction _ (Nat.mod_lt _ (by norm_num)) _ (Nat.mod_lt _ (by norm_num))]
    by_cases hj : j = i
    · rw [if_pos (by rw [hj]), if_pos hj]
    · rw [if_neg (by omega), if_neg hj, bit, bitAt, hbyte]
  · rw [if_neg hbyte, if_neg fun hj => hbyte (by rw [hj]), bit]

theorem take_drop_bits_set {rom rom' : OneWireRom} {i : ℕ} (hi : i < 64) {direction : Bool}
    (h : ∀ j, rom'.bit j = if j = i then direction else rom.bit j) :
    rom'.bits.take (i + 1) = rom.bits.take i ++ [direction] ∧
      rom'.bits.drop (i + 1) = rom.bits.drop (i + 1) := by
  have hget (j : ℕ) (hj : j ≠ i) : rom'.bits[j]? = rom.bits[j]? := by
    by_cases hlt : j < 64
    · rw [getElem?_bits _ hlt, getElem?_bits _ hlt, h, if_neg hj]
    · rw [List.getElem?_eq_none (by rw [length_bits]; omega),
        List.getElem?_eq_none (by rw [length_bits]; omega)]
  constructor
  · rw [List.take_add_one, getElem?_bits _ hi, h, if_pos rfl]
    congr 1
    refine List.ext_getElem? fun j => ?_
    rw [List.getElem?_take, List.getElem?_take]
    split_ifs with hlt
    · exact hget j (by omega)
    · rfl
  · refine List.ext_getElem? fun j => ?_
    rw [List.getElem?_drop, List.getElem?_drop]
    exact hget _ (by omega)

end OneWireRom

/-! ## The bus while it is searched -/

namespace OneWireDevice

/-- The device is not searched for any more, or it is about to send a bit. -/
def Searching (position : ℕ) (device : OneWireDevice) : Prop :=
  device.state = .idle ∨ device.state = .search position .bit

/-- The bits of a device from a position on, if it is about to send the first of them. -/
def word (position : ℕ) (device : OneWireDevice) : Option (List Bool) :=
  match device.state with
  | .search position' .bit =>
    if position' = position then some (device.rom.bits.drop position) else none
  | _ => none

/-- The device after a bit, its complement and the direction. -/
def answer (first second direction : Bool) (device : OneWireDevice) : OneWireDevice :=
  ((device.slot first).slot second).slot direction

/-- What does not change. -/
def code (device : OneWireDevice) : OneWireRom × Bool := (device.rom, device.alarm)

section Device

variable {position : ℕ} {device : OneWireDevice}

theorem code_slot (bit : Bool) : (device.slot bit).code = device.code := by
  obtain ⟨rom, alarm, _ | _ | ⟨position, _ | _ | _⟩⟩ := device
  · rfl
  · rfl
  · rfl
  · rfl
  · rw [slot]
    dsimp only
    split_ifs <;> rfl

theorem word_of_idle (h : device.state = .idle) : device.word position = none := by
  rw [word, h]

theorem word_of_search (h : device.state = .search position .bit) :
    device.word position = some (device.rom.bits.drop position) := by
  rw [word, h]
  exact if_pos rfl

theorem answer_of_idle (h : device.state = .idle) (first second direction : Bool) :
    device.answer first second direction = device := by
  have hslot (bit : Bool) : device.slot bit = device := by rw [slot, h]
  rw [answer, hslot, hslot, hslot]

theorem answer_of_search (h : device.state = .search position .bit)
    (first second direction : Bool) :
    device.answer first second direction =
      if device.rom.bit position = direction ∧ position + 1 < 64 then
        device.setState (.search (position + 1) .bit)
      else device.setState .idle := by
  obtain ⟨rom, alarm, state⟩ := device
  change state = _ at h
  subst h
  rfl

theorem searching_answer (h : device.Searching position) (first second direction : Bool) :
    (device.answer first second direction).Searching (position + 1) := by
  rcases h with h | h
  · rw [answer_of_idle h]
    exact .inl h
  · rw [answer_of_search h]
    split_ifs
    · exact .inr rfl
    · exact .inl rfl

theorem word_answer (hlt : position + 1 < 64) (h : device.Searching position)
    (first second direction : Bool) :
    (device.answer first second direction).word (position + 1) =
      (device.word position).bind fun word =>
        if word.head? = some direction then some word.tail else none := by
  rcases h with h | h
  · rw [answer_of_idle h, word_of_idle h, word_of_idle h]
    rfl
  · rw [answer_of_search h, word_of_search h, OneWireRom.drop_bits _ (by omega)]
    by_cases hbit : device.rom.bit position = direction
    · rw [if_pos ⟨hbit, hlt⟩, word_of_search rfl]
      simp [hbit, setState]
    · rw [if_neg fun h => hbit h.1, word_of_idle rfl]
      simp [hbit]

end Device

end OneWireDevice

namespace OneWireBus

open BitSearch

/-- The words of the devices that are about to send a bit. -/
def words (position : ℕ) (bus : OneWireBus) : List (List Bool) :=
  bus.filterMap (OneWireDevice.word position)

def Searching (position : ℕ) (bus : OneWireBus) : Prop :=
  ∀ device ∈ bus, OneWireDevice.Searching position device

section Bus

variable {position : ℕ} {bus : OneWireBus}

theorem all_eq_true_iff (hlt : position < 64) (h : Searching position bus)
    {output : OneWireDevice → Bool} {bit : Bool}
    (hidle : ∀ device, device.state = .idle → output device = true)
    (hsearch : ∀ device, device.state = .search position .bit →
      (output device = true ↔ device.rom.bit position = bit)) :
    bus.all output = true ↔ tails (!bit) (words position bus) = [] := by
  rw [List.all_eq_true, List.eq_nil_iff_forall_not_mem]
  constructor
  · intro hall rest hmem
    rw [mem_tails, words, List.mem_filterMap] at hmem
    obtain ⟨device, hdevice, hword⟩ := hmem
    rcases h device hdevice with hstate | hstate
    · rw [OneWireDevice.word_of_idle hstate] at hword
      cases hword
    · rw [OneWireDevice.word_of_search hstate, OneWireRom.drop_bits _ hlt, Option.some_inj,
        List.cons.injEq] at hword
      rw [(hsearch device hstate).1 (hall device hdevice)] at hword
      simp at hword
  · intro hnone device hdevice
    rcases h device hdevice with hstate | hstate
    · exact hidle device hstate
    · rw [hsearch device hstate]
      by_contra hbit
      refine hnone (device.rom.bits.drop (position + 1)) (mem_tails.2 ?_)
      rw [← Bool.eq_not_of_ne hbit, ← OneWireRom.drop_bits _ hlt]
      exact List.mem_filterMap.2 ⟨device, hdevice, OneWireDevice.word_of_search hstate⟩

theorem readBit_eq_true_iff (hlt : position < 64) (h : Searching position bus) :
    bus.readBit.1 = true ↔ tails false (words position bus) = [] := by
  refine @all_eq_true_iff position bus hlt h (·.output) true (fun device hstate => ?_)
    fun device hstate => ?_
  · rw [OneWireDevice.output, hstate]
  · rw [OneWireDevice.output, hstate]

theorem readBit_readBit_eq_true_iff (hlt : position < 64) (h : Searching position bus) :
    bus.readBit.2.readBit.1 = true ↔ tails true (words position bus) = [] := by
  show (bus.map _).all _ = true ↔ _
  rw [List.all_map]
  refine @all_eq_true_iff position bus hlt h _ false (fun device hstate => ?_)
    fun device hstate => ?_
  · rw [Function.comp_apply, OneWireDevice.slot, hstate]
    show device.output = true
    rw [OneWireDevice.output, hstate]
  · rw [Function.comp_apply, OneWireDevice.slot, hstate]
    show (!device.rom.bit position) = true ↔ _
    rw [Bool.not_eq_true']

theorem writeBit_readBit_readBit (direction : Bool) :
    bus.readBit.2.readBit.2.writeBit direction =
      bus.map (OneWireDevice.answer bus.readBit.1 bus.readBit.2.readBit.1 direction) := by
  show ((bus.map _).map _).map _ = _
  rw [List.map_map, List.map_map]
  rfl

theorem searching_writeBit (h : Searching position bus) (direction : Bool) :
    Searching (position + 1) (bus.readBit.2.readBit.2.writeBit direction) := by
  rw [writeBit_readBit_readBit]
  intro device hmem
  obtain ⟨before, hbefore, rfl⟩ := List.mem_map.1 hmem
  exact OneWireDevice.searching_answer (h before hbefore) _ _ _

theorem words_writeBit (hlt : position + 1 < 64) (h : Searching position bus) (direction : Bool) :
    words (position + 1) (bus.readBit.2.readBit.2.writeBit direction) =
      tails direction (words position bus) := by
  rw [writeBit_readBit_readBit, words, words, tails, List.filterMap_map, List.filterMap_filterMap]
  exact List.filterMap_congr fun device hmem => OneWireDevice.word_answer hlt (h device hmem) _ _ _

theorem codes_writeBit (direction : Bool) :
    (bus.readBit.2.readBit.2.writeBit direction).map OneWireDevice.code =
      bus.map OneWireDevice.code := by
  rw [writeBit_readBit_readBit, List.map_map]
  refine List.map_congr_left fun device _ => ?_
  show OneWireDevice.code (((device.slot _).slot _).slot _) = _
  rw [OneWireDevice.code_slot, OneWireDevice.code_slot, OneWireDevice.code_slot]

end Bus

end OneWireBus

/-! ## The loop over the bits -/

theorem and_mask_pos (byte : UInt8) {k : ℕ} (hk : k < 8) :
    decide (0 < byte &&& (1 : UInt8) <<< k.toUInt8) = byte.toNat.testBit k := by
  have hbit : (byte &&& (1 : UInt8) <<< k.toUInt8).toNat.testBit k = byte.toNat.testBit k := by
    rw [UInt8.toNat_and, Nat.testBit_and, testBit_mask hk hk]
    simp
  rcases hbyte : byte.toNat.testBit k with _ | _
  · have hzero : byte &&& (1 : UInt8) <<< k.toUInt8 = 0 := by
      refine UInt8.toNat_inj.1 (Nat.eq_of_testBit_eq fun j => ?_)
      rw [UInt8.toNat_and, Nat.testBit_and]
      show _ = Nat.testBit 0 j
      rw [Nat.zero_testBit]
      rcases Nat.lt_or_ge j 8 with hj | hj
      · rw [testBit_mask hk hj]
        by_cases heq : j = k
        · rw [heq, hbyte, Bool.false_and]
        · rw [decide_eq_false heq, Bool.and_false]
      · rw [testBit_of_le _ hj, Bool.false_and]
    rw [hzero]
    rfl
  · rw [decide_eq_true_iff, UInt8.pos_iff_ne_zero]
    intro hzero
    have hfalse : (0 : UInt8).toNat.testBit k = false := Nat.zero_testBit k
    rw [hzero, hbyte, hfalse] at hbit
    exact Bool.false_ne_true hbit

theorem mask_shiftLeft {k : ℕ} (hk : k < 8) :
    (1 : UInt8) <<< k.toUInt8 <<< 1 = if k = 7 then 0 else (1 : UInt8) <<< (k + 1).toUInt8 := by
  have hall : ∀ k : Fin 8, (1 : UInt8) <<< k.val.toUInt8 <<< 1 =
      if k.val = 7 then 0 else (1 : UInt8) <<< (k.val + 1).toUInt8 := by decide
  exact hall ⟨k, hk⟩

theorem mask_ne_zero {k : ℕ} (hk : k < 8) : (1 : UInt8) <<< k.toUInt8 ≠ 0 := by
  have hall : ∀ k : Fin 8, (1 : UInt8) <<< k.val.toUInt8 ≠ 0 := by decide
  exact hall ⟨k, hk⟩

namespace OneWireHost

open BitSearch OneWireBus

/-- The loop is at a bit. -/
structure SearchLoop.At (position : ℕ) (s : SearchLoop) : Prop where
  idBitNumber : s.idBitNumber = position + 1
  romByteNumber : s.romByteNumber = position / 8
  romByteMask : s.romByteMask = (1 : UInt8) <<< (position % 8).toUInt8
  searching : Searching position s.host.bus

namespace SearchLoop

variable {position : ℕ} {s : SearchLoop}

/-- The direction that a search takes at a bit. -/
def taken (position : ℕ) (s : SearchLoop) : Bool :=
  direction (words position s.host.bus) (s.host.lastDiscrepancy - position)
    (s.host.savedRom.bits.drop position)

theorem At.discrepancyDirection (h : s.At position) (hlt : position < 64)
    (hmixed : Mixed (words position s.host.bus)) (bus : OneWireBus) :
    (s.setBus bus).discrepancyDirection = s.taken position := by
  have hk : position % 8 < 8 := Nat.mod_lt _ (by norm_num)
  have hnumber : (s.setBus bus).idBitNumber = position + 1 := h.idBitNumber
  have hlast : (s.setBus bus).host.lastDiscrepancy = s.host.lastDiscrepancy := rfl
  have hmask : (s.setBus bus).romByteMask = (1 : UInt8) <<< (position % 8).toUInt8 := h.romByteMask
  have hbyte : (s.setBus bus).savedByte = s.host.savedRom.toList.getD (position / 8) 0 := by
    rw [← h.romByteNumber]
    rfl
  rw [SearchLoop.discrepancyDirection, taken, direction, if_pos hmixed, hnumber, hlast, hmask, hbyte]
  by_cases hbefore : position + 1 < s.host.lastDiscrepancy
  · rw [if_pos hbefore, if_pos (by omega), OneWireRom.drop_bits _ hlt, List.headD_cons,
      and_mask_pos _ hk]
    rfl
  · rw [if_neg hbefore, if_neg (by omega), decide_eq_decide]
    omega

/-- The loop at the next bit. -/
def next (s : SearchLoop) (mixed direction : Bool) : SearchLoop :=
  let s := s.setBus s.host.bus.readBit.2.readBit.2
  if mixed && !direction then s.recordZero.advance direction else s.advance direction

theorem searchLoop_succ (h : s.At position) (hlt : position < 64)
    (hne : words position s.host.bus ≠ [])
    (hlength : ∀ word ∈ words position s.host.bus, word.length = 63 - position + 1) (rounds : ℕ) :
    searchLoop (rounds + 1) s =
      if (s.next (decide (Mixed (words position s.host.bus))) (s.taken position)).romByteNumber < 8
      then searchLoop rounds
        (s.next (decide (Mixed (words position s.host.bus))) (s.taken position))
      else s.next (decide (Mixed (words position s.host.bus))) (s.taken position) := by
  have hbit := readBit_eq_true_iff hlt h.searching
  have hcmp := readBit_readBit_eq_true_iff hlt h.searching
  rw [searchLoop]
  dsimp only
  by_cases hzeros : tails false (words position s.host.bus) = []
  · have hones := tails_ne_nil hne hlength hzeros
    have hmixed : ¬Mixed (words position s.host.bus) := fun hm => hm.1 hzeros
    have htaken : s.taken position = true := (if_neg hmixed).trans (decide_eq_true hzeros)
    rw [hbit.2 hzeros, Bool.eq_false_of_not_eq_true fun h => hones (hcmp.1 h), htaken,
      decide_eq_false hmixed]
    rfl
  have hbit' := Bool.eq_false_of_not_eq_true fun h => hzeros (hbit.1 h)
  by_cases hones : tails true (words position s.host.bus) = []
  · have hmixed : ¬Mixed (words position s.host.bus) := fun hm => hm.2 hones
    have htaken : s.taken position = false := (if_neg hmixed).trans (decide_eq_false hzeros)
    rw [hbit', hcmp.2 hones, htaken, decide_eq_false hmixed]
    rfl
  · have hmixed : Mixed (words position s.host.bus) := ⟨hzeros, hones⟩
    have hdirection := h.discrepancyDirection hlt hmixed s.host.bus.readBit.2.readBit.2
    rw [hbit', Bool.eq_false_of_not_eq_true fun h => hones (hcmp.1 h), hdirection,
      decide_eq_true hmixed]
    rcases s.taken position with _ | _ <;> rfl

theorem bus_next (mixed direction : Bool) :
    (s.next mixed direction).host.bus = s.host.bus.readBit.2.readBit.2.writeBit direction := by
  rw [SearchLoop.next]
  split_ifs <;> rfl

theorem At.next (h : s.At position) (mixed direction : Bool) :
    (s.next mixed direction).At (position + 1) := by
  have hk : position % 8 < 8 := Nat.mod_lt _ (by norm_num)
  have hmask := mask_shiftLeft hk
  rw [← h.romByteMask] at hmask
  have hnumber : (s.next mixed direction).romByteNumber =
      if s.romByteMask <<< 1 = 0 then s.romByteNumber + 1 else s.romByteNumber := by
    rw [SearchLoop.next]
    rcases mixed && !direction with _ | _ <;> rfl
  have hnext : (s.next mixed direction).romByteMask =
      if s.romByteMask <<< 1 = 0 then (1 : UInt8) else s.romByteMask <<< 1 := by
    rw [SearchLoop.next]
    rcases mixed && !direction with _ | _ <;> rfl
  constructor
  · rw [SearchLoop.next, ← h.idBitNumber]
    rcases mixed && !direction with _ | _ <;> rfl
  · rw [hnumber, hmask, h.romByteNumber]
    by_cases hseven : position % 8 = 7
    · rw [if_pos hseven, if_pos rfl]
      omega
    · rw [if_neg hseven, if_neg (mask_ne_zero (by omega))]
      omega
  · rw [hnext, hmask]
    by_cases hseven : position % 8 = 7
    · rw [if_pos hseven, if_pos rfl, show (position + 1) % 8 = 0 by omega]
      rfl
    · rw [if_neg hseven, if_neg (mask_ne_zero (by omega)),
        show (position + 1) % 8 = position % 8 + 1 by omega]
  · rw [bus_next]
    exact searching_writeBit h.searching direction

theorem bits_next (h : s.At position) (hlt : position < 64) (mixed direction : Bool) (j : ℕ) :
    (s.next mixed direction).host.savedRom.bit j =
      if j = position then direction else s.host.savedRom.bit j := by
  have hset := OneWireRom.bit_set s.host.savedRom hlt direction j
  rw [← h.romByteNumber, ← h.romByteMask] at hset
  rw [← hset, SearchLoop.next]
  rcases mixed && !direction with _ | _ <;> rfl

theorem lastZero_next (h : s.At position) (mixed direction : Bool) :
    (s.next mixed direction).lastZero =
      if mixed && !direction then position + 1 else s.lastZero := by
  rw [SearchLoop.next]
  split_ifs
  · exact h.idBitNumber
  · rfl

theorem lastDiscrepancy_next (mixed direction : Bool) :
    (s.next mixed direction).host.lastDiscrepancy = s.host.lastDiscrepancy := by
  rw [SearchLoop.next]
  split_ifs <;> rfl

theorem lastDeviceFlag_next (mixed direction : Bool) :
    (s.next mixed direction).host.lastDeviceFlag = s.host.lastDeviceFlag := by
  rw [SearchLoop.next]
  split_ifs <;> rfl

/-- The loop has gone on from a state, and has found a word. -/
structure Ended (position : ℕ) (s : SearchLoop) (found : List Bool × ℕ) (r : SearchLoop) : Prop where
  idBitNumber : r.idBitNumber = 65
  savedRom : r.host.savedRom.bits = s.host.savedRom.bits.take position ++ found.1
  lastZero : r.lastZero = if found.2 = 0 then s.lastZero else position + found.2
  lastDeviceFlag : r.host.lastDeviceFlag = s.host.lastDeviceFlag
  codes : r.host.bus.map OneWireDevice.code = s.host.bus.map OneWireDevice.code

/-- What the search finds from the bit on. -/
def descent (position : ℕ) (s : SearchLoop) : List Bool × ℕ :=
  descend (64 - position) (words position s.host.bus) (s.host.lastDiscrepancy - position)
    (s.host.savedRom.bits.drop position)

theorem Ended.of_next (h : s.At position) (hlt : position < 64) {found : List Bool × ℕ}
    {r : SearchLoop}
    (hended : Ended (position + 1)
      (s.next (decide (Mixed (words position s.host.bus))) (s.taken position)) found r) :
    Ended position s
      (extend (s.taken position) (decide (Mixed (words position s.host.bus))) found) r := by
  have hbits := (OneWireRom.take_drop_bits_set hlt (bits_next h hlt
    (decide (Mixed (words position s.host.bus))) (s.taken position))).1
  constructor
  · exact hended.idBitNumber
  · rw [hended.savedRom, hbits, List.append_assoc]
    rfl
  · rw [hended.lastZero, lastZero_next h, extend]
    dsimp only
    rcases decide (Mixed (words position s.host.bus)) && !s.taken position with _ | _
    · by_cases hzero : found.2 = 0
      · simp [hzero]
      · simp [hzero]
        omega
    · by_cases hzero : found.2 = 0
      · simp [hzero]
      · simp [hzero]
        omega
  · rw [hended.lastDeviceFlag, lastDeviceFlag_next]
  · rw [hended.codes, bus_next, codes_writeBit]

theorem descent_eq (hlt : position < 64) :
    s.descent position = extend (s.taken position) (decide (Mixed (words position s.host.bus)))
      (descend (63 - position) (tails (s.taken position) (words position s.host.bus))
        (s.host.lastDiscrepancy - position - 1) (s.host.savedRom.bits.drop (position + 1))) := by
  rw [descent, show 64 - position = 63 - position + 1 by omega, descend, List.tail_drop]
  rfl

theorem descent_next (h : s.At position) (hlt : position + 1 < 64) :
    (s.next (decide (Mixed (words position s.host.bus))) (s.taken position)).descent (position + 1) =
      descend (63 - position) (tails (s.taken position) (words position s.host.bus))
        (s.host.lastDiscrepancy - position - 1) (s.host.savedRom.bits.drop (position + 1)) := by
  have hbits := (OneWireRom.take_drop_bits_set (show position < 64 by omega) (bits_next h (by omega)
    (decide (Mixed (words position s.host.bus))) (s.taken position))).2
  rw [descent, hbits, bus_next, words_writeBit hlt h.searching, lastDiscrepancy_next,
    show 64 - (position + 1) = 63 - position by omega, Nat.sub_sub]

theorem ended_searchLoop : ∀ (n : ℕ) {position : ℕ} {s : SearchLoop}, position + (n + 1) = 64 →
    s.At position → words position s.host.bus ≠ [] →
    (∀ word ∈ words position s.host.bus, word.length = 63 - position + 1) →
    Ended position s (s.descent position) (searchLoop (n + 1) s)
  | 0, position, s, hn, h, hne, hlength => by
    have hnext := h.next (decide (Mixed (words position s.host.bus))) (s.taken position)
    rw [searchLoop_succ h (by omega) hne hlength, hnext.romByteNumber, if_neg (by omega),
      descent_eq (by omega), show 63 - position = 0 by omega]
    refine Ended.of_next h (by omega) ⟨?_, ?_, rfl, rfl, rfl⟩
    · rw [hnext.idBitNumber]
      omega
    · rw [List.take_of_length_le (by rw [OneWireRom.length_bits]; omega), descend, List.append_nil]
  | n + 1, position, s, hn, h, hne, hlength => by
    have hnext := h.next (decide (Mixed (words position s.host.bus))) (s.taken position)
    have hwords : words (position + 1)
        (s.next (decide (Mixed (words position s.host.bus))) (s.taken position)).host.bus =
        tails (s.taken position) (words position s.host.bus) := by
      rw [bus_next, words_writeBit (by omega) h.searching]
    rw [searchLoop_succ h (by omega) hne hlength, hnext.romByteNumber, if_pos (by omega),
      descent_eq (by omega), ← descent_next h (by omega)]
    refine Ended.of_next h (by omega) (ended_searchLoop n (by omega) hnext ?_ ?_)
    · rw [hwords]
      exact tails_direction_ne_nil hne hlength _ _
    · rw [hwords, show 63 - (position + 1) + 1 = 63 - position by omega]
      exact length_of_mem_tails hlength

end SearchLoop

/-! ## One search -/

/-- The ROM codes of the devices that a search is for. -/
def answering (mode : OneWireHostSearchMode) (bus : OneWireBus) : List OneWireRom :=
  (bus.filter (·.answers mode)).map (·.rom)

theorem answering_congr {mode : OneWireHostSearchMode} {bus bus' : OneWireBus}
    (h : bus'.map OneWireDevice.code = bus.map OneWireDevice.code) :
    answering mode bus' = answering mode bus := by
  have hcodes (bus : OneWireBus) : answering mode bus =
      ((bus.map OneWireDevice.code).filter fun code => mode = .normal || code.2).map Prod.fst := by
    rw [List.filter_map, List.map_map]
    rfl
  rw [hcodes, hcodes, h]

/-- The devices once they have got the command. -/
def commanded (mode : OneWireHostSearchMode) (bus : OneWireBus) : OneWireBus :=
  bus.reset.2.write (OneWireDevice.commandOf mode)

section Commanded

variable {mode : OneWireHostSearchMode} {bus : OneWireBus}

theorem receive_commandOf (device : OneWireDevice) :
    (device.setState .command).receive (OneWireDevice.commandOf mode) =
      if device.answers mode then device.setState (.search 0 .bit) else device.setState .idle := by
  obtain ⟨rom, alarm, state⟩ := device
  rcases mode with _ | _
  · rcases alarm with _ | _ <;> rfl
  · rfl

theorem commanded_eq : commanded mode bus = bus.map fun device =>
    if device.answers mode then device.setState (.search 0 .bit) else device.setState .idle := by
  show (bus.map _).map _ = _
  rw [List.map_map]
  exact List.map_congr_left fun device _ => receive_commandOf device

theorem searching_commanded : Searching 0 (commanded mode bus) := by
  rw [commanded_eq]
  intro device hmem
  obtain ⟨before, -, rfl⟩ := List.mem_map.1 hmem
  split_ifs
  · exact .inr rfl
  · exact .inl rfl

theorem codes_commanded :
    (commanded mode bus).map OneWireDevice.code = bus.map OneWireDevice.code := by
  rw [commanded_eq, List.map_map]
  refine List.map_congr_left fun device _ => ?_
  show OneWireDevice.code (if _ then _ else _) = _
  split_ifs <;> rfl

theorem words_commanded :
    words 0 (commanded mode bus) = (answering mode bus).map OneWireRom.bits := by
  rw [commanded_eq, words, List.filterMap_map, answering, List.map_map, ← List.filterMap_eq_map,
    List.filterMap_filter]
  refine List.filterMap_congr fun device _ => ?_
  show OneWireDevice.word 0 (if _ then _ else _) = _
  split_ifs
  · exact OneWireDevice.word_of_search rfl
  · exact OneWireDevice.word_of_idle rfl

end Commanded

/-- The loop as a search begins it. -/
def loopStart (host : OneWireHost) (mode : OneWireHostSearchMode) : SearchLoop where
  host := { host with bus := commanded mode host.bus }
  idBitNumber := 1
  lastZero := 0
  romByteNumber := 0
  romByteMask := 1

section Search

variable {host : OneWireHost} {mode : OneWireHostSearchMode}

theorem at_loopStart : (host.loopStart mode).At 0 where
  idBitNumber := rfl
  romByteNumber := rfl
  romByteMask := rfl
  searching := searching_commanded

theorem search_of_lastDevice (h : host.lastDeviceFlag = true) :
    host.search mode = (none, host.resetCounters) := by
  rw [search, h]
  rfl

theorem search_eq (hflag : host.lastDeviceFlag = false) (hne : host.bus ≠ []) :
    host.search mode =
      if (searchLoop 64 (host.loopStart mode)).idBitNumber < 65 then
        (searchLoop 64 (host.loopStart mode)).host.finish false
      else
        { (searchLoop 64 (host.loopStart mode)).host with
          lastDiscrepancy := (searchLoop 64 (host.loopStart mode)).lastZero
          lastDeviceFlag := (searchLoop 64 (host.loopStart mode)).host.lastDeviceFlag ||
            decide ((searchLoop 64 (host.loopStart mode)).lastZero = 0) }.finish true := by
  have hpresence : host.bus.reset.1 = true := by
    show (!host.bus.isEmpty) = true
    rw [Bool.not_eq_true', List.isEmpty_eq_false_iff]
    exact hne
  rw [search]
  dsimp only
  refine (if_neg (by rw [hflag]; simp)).trans ((if_neg (by rw [hpresence]; simp)).trans ?_)
  rfl

theorem search_of_none (hflag : host.lastDeviceFlag = false) (h : answering mode host.bus = []) :
    (host.search mode).1 = none := by
  by_cases hne : host.bus = []
  · rw [search, hflag, hne]
    rfl
  have hwords : words 0 (commanded mode host.bus) = [] := by
    rw [words_commanded, h]
    rfl
  have hbit : (commanded mode host.bus).readBit.1 = true :=
    (readBit_eq_true_iff (by norm_num) searching_commanded).2 (by rw [hwords]; rfl)
  have hcmp : (commanded mode host.bus).readBit.2.readBit.1 = true :=
    (readBit_readBit_eq_true_iff (by norm_num) searching_commanded).2 (by rw [hwords]; rfl)
  have hloop : (searchLoop 64 (host.loopStart mode)).idBitNumber = 1 := by
    have hbits : ((host.loopStart mode).host.bus.readBit.1 &&
        (host.loopStart mode).host.bus.readBit.2.readBit.1) = true := by
      show ((commanded mode host.bus).readBit.1 &&
        (commanded mode host.bus).readBit.2.readBit.1) = true
      rw [hbit, hcmp]
      rfl
    rw [searchLoop]
    dsimp only
    rw [if_pos hbits]
    rfl
  rw [search_eq hflag hne, hloop]
  rfl

theorem search_of_answering (hflag : host.lastDeviceFlag = false)
    (h : answering mode host.bus ≠ []) :
    ∃ rom, rom.bits = (descend 64 ((answering mode host.bus).map OneWireRom.bits)
        host.lastDiscrepancy host.savedRom.bits).1 ∧
      (rom.toList.getD 0 0 ≠ 0 → (host.search mode).1 = some rom ∧
        (host.search mode).2.savedRom = rom ∧
        (host.search mode).2.lastDiscrepancy =
          (descend 64 ((answering mode host.bus).map OneWireRom.bits)
            host.lastDiscrepancy host.savedRom.bits).2 ∧
        (host.search mode).2.lastDeviceFlag =
          decide ((descend 64 ((answering mode host.bus).map OneWireRom.bits)
            host.lastDiscrepancy host.savedRom.bits).2 = 0) ∧
        answering mode (host.search mode).2.bus = answering mode host.bus) := by
  have hwords : words 0 (commanded mode host.bus) = (answering mode host.bus).map OneWireRom.bits :=
    words_commanded
  have hne : host.bus ≠ [] := fun hnil => h (by rw [hnil]; rfl)
  have hended := SearchLoop.ended_searchLoop 63 rfl (@at_loopStart host mode)
    (by
      show words 0 (commanded mode host.bus) ≠ []
      rw [hwords]
      simpa using h)
    (by
      show ∀ word ∈ words 0 (commanded mode host.bus), word.length = 64
      rw [hwords]
      intro word hmem
      obtain ⟨rom, -, rfl⟩ := List.mem_map.1 hmem
      exact rom.length_bits)
  have hdescent : (host.loopStart mode).descent 0 =
      descend 64 ((answering mode host.bus).map OneWireRom.bits) host.lastDiscrepancy
        host.savedRom.bits := by
    rw [← hwords]
    rfl
  rw [hdescent] at hended
  refine ⟨(searchLoop 64 (host.loopStart mode)).host.savedRom, hended.savedRom, fun hfamily => ?_⟩
  have hlast := hended.lastZero
  have hflag' := hended.lastDeviceFlag
  have hzero : (searchLoop 64 (host.loopStart mode)).lastZero =
      (descend 64 ((answering mode host.bus).map OneWireRom.bits) host.lastDiscrepancy
        host.savedRom.bits).2 := by
    rw [hlast]
    split_ifs with hzero
    · exact hzero.symm
    · exact Nat.zero_add _
  have hsearch : host.search mode = (some (searchLoop 64 (host.loopStart mode)).host.savedRom,
      { (searchLoop 64 (host.loopStart mode)).host with
        lastDiscrepancy := (searchLoop 64 (host.loopStart mode)).lastZero
        lastDeviceFlag := (searchLoop 64 (host.loopStart mode)).host.lastDeviceFlag ||
          decide ((searchLoop 64 (host.loopStart mode)).lastZero = 0) }) := by
    rw [search_eq hflag hne, if_neg (by rw [hended.idBitNumber]; simp), finish, if_neg]
    simpa using hfamily
  rw [hsearch, ← hzero]
  refine ⟨rfl, rfl, rfl, ?_, ?_⟩
  · show (_ || _) = _
    rw [hflag']
    show (host.lastDeviceFlag || _) = _
    rw [hflag, Bool.false_or]
  · exact answering_congr (hended.codes.trans codes_commanded)

end Search

/-! ## All searches -/

section Searches

variable {mode : OneWireHostSearchMode} {roms : List OneWireRom}

/-- The host has found a word of ROM codes, with a discrepancy. -/
structure Holds (mode : OneWireHostSearchMode) (roms : List OneWireRom) (found : List Bool × ℕ)
    (host : OneWireHost) : Prop where
  savedRom : host.savedRom.bits = found.1
  lastDiscrepancy : host.lastDiscrepancy = found.2
  lastDeviceFlag : host.lastDeviceFlag = decide (found.2 = 0)
  answering : answering mode host.bus = roms

theorem length_bits_of_mem (roms : List OneWireRom) :
    ∀ word ∈ roms.map OneWireRom.bits, word.length = 64 := by
  intro word hmem
  obtain ⟨rom, -, rfl⟩ := List.mem_map.1 hmem
  exact rom.length_bits

theorem holds_search {host : OneWireHost} (hroms : roms ≠ [])
    (hfamily : ∀ rom ∈ roms, rom.toList.getD 0 0 ≠ 0) (hflag : host.lastDeviceFlag = false)
    (hanswering : OneWireHost.answering mode host.bus = roms) {found : List Bool × ℕ}
    (hfound : found ∈ BitSearch.found 64 (roms.map OneWireRom.bits))
    (hdescend : descend 64 (roms.map OneWireRom.bits) host.lastDiscrepancy host.savedRom.bits =
      found) :
    (host.search mode).1.map OneWireRom.bits = some found.1 ∧
      Holds mode roms found (host.search mode).2 := by
  subst hanswering
  subst hdescend
  obtain ⟨rom, hbits, hsearch⟩ := search_of_answering hflag hroms
  obtain ⟨rom', hmem, hbits'⟩ := List.mem_map.1 ((mem_found (length_bits_of_mem _)).1
    (List.mem_map_of_mem hfound))
  have heq : rom = rom' := OneWireRom.bits_injective (hbits.trans hbits'.symm)
  obtain ⟨hrom, hsaved, hlast, hdevice, hanswering⟩ := hsearch (heq ▸ hfamily rom' hmem)
  refine ⟨?_, ?_, hlast, hdevice, hanswering⟩
  · rw [hrom, ← hbits]
    rfl
  · rw [hsaved, hbits]

theorem searches_of_holds (hroms : roms ≠ []) (hfamily : ∀ rom ∈ roms, rom.toList.getD 0 0 ≠ 0) :
    ∀ (rest : List (List Bool × ℕ)) {found : List Bool × ℕ} {host : OneWireHost},
      (found :: rest).IsChain (Next 64 (roms.map OneWireRom.bits)) →
      (∀ f ∈ rest, f ∈ BitSearch.found 64 (roms.map OneWireRom.bits)) →
      (∀ final ∈ (found :: rest).getLast?, final.2 = 0) → Holds mode roms found host →
      (searches mode (rest.length + 1) host).map (Option.map OneWireRom.bits) =
        rest.map (fun f => some f.1) ++ [none]
  | [], found, host, _, _, hlast, hholds => by
    have hzero : found.2 = 0 := hlast found rfl
    have hflag : host.lastDeviceFlag = true := by
      rw [hholds.lastDeviceFlag, decide_eq_true hzero]
    show [Option.map _ (host.search mode).1] = _
    rw [search_of_lastDevice hflag]
    rfl
  | next :: rest, found, host, hchain, hmem, hlast, hholds => by
    rw [List.isChain_cons_cons] at hchain
    obtain ⟨⟨hne, hdescend⟩, hchain⟩ := hchain
    have hflag : host.lastDeviceFlag = false := by
      rw [hholds.lastDeviceFlag, decide_eq_false hne]
    rw [← hholds.lastDiscrepancy, ← hholds.savedRom] at hdescend
    obtain ⟨hsearch, hholds'⟩ := holds_search hroms hfamily hflag hholds.answering
      (hmem next List.mem_cons_self) hdescend
    have hrest := searches_of_holds hroms hfamily rest hchain
      (fun f hf => hmem f (List.mem_cons_of_mem _ hf)) hlast hholds'
    show Option.map _ (host.search mode).1 :: (searches mode (rest.length + 1) _).map _ = _
    rw [hsearch, hrest]
    rfl

/-- The searches after a reset give the ROM code of each device that is searched for once, and then
none. -/
theorem searches_eq (host : OneWireHost) (mode : OneWireHostSearchMode)
    (hnodup : (answering mode host.bus).Nodup)
    (hfamily : ∀ rom ∈ answering mode host.bus, rom.toList.getD 0 0 ≠ 0) :
    ∃ roms : List OneWireRom, roms.Perm (answering mode host.bus) ∧
      searches mode (roms.length + 1) host.resetSearch = roms.map some ++ [none] := by
  by_cases hroms : answering mode host.bus = []
  · refine ⟨[], by rw [hroms], ?_⟩
    show [(host.resetSearch.search mode).1] = _
    rw [@search_of_none host.resetSearch mode rfl hroms]
    rfl
  have hwords : (answering mode host.bus).map OneWireRom.bits ≠ [] := by simpa using hroms
  have hsearched := searched hwords (length_bits_of_mem _)
  have hperm := found_perm (length_bits_of_mem (answering mode host.bus))
    (hnodup.map OneWireRom.bits_injective)
  -- the ROM codes in the order of the words
  have hinv (roms : List OneWireRom) :
      (roms.map OneWireRom.bits).map (Function.invFun OneWireRom.bits) = roms := by
    rw [List.map_map, Function.invFun_comp OneWireRom.bits_injective, List.map_id]
  obtain ⟨roms, hrperm, hroms'⟩ : ∃ roms : List OneWireRom, roms.Perm (answering mode host.bus) ∧
      roms.map OneWireRom.bits =
        (BitSearch.found 64 ((answering mode host.bus).map OneWireRom.bits)).map Prod.fst := by
    refine ⟨_, (hperm.map (Function.invFun OneWireRom.bits)).trans (by rw [hinv]), ?_⟩
    rw [List.map_map]
    refine (List.map_congr_left fun word hmem => ?_).trans (List.map_id _)
    obtain ⟨rom, -, hrom⟩ := List.mem_map.1 (hperm.mem_iff.1 hmem)
    exact Function.invFun_eq ⟨rom, hrom⟩
  refine ⟨roms, hrperm, ?_⟩
  rcases hfound : BitSearch.found 64 ((answering mode host.bus).map OneWireRom.bits) with
    _ | ⟨first, rest⟩
  · exact absurd hfound hsearched.ne_nil
  have hlength : roms.length = rest.length + 1 := by
    have hlengths := congrArg List.length hroms'
    rwa [hfound, List.length_map, List.length_map, List.length_cons] at hlengths
  have hfirst := hsearched.first host.resetSearch.savedRom.bits
  rw [hfound, List.head?_cons, Option.some_inj] at hfirst
  obtain ⟨hsearch, hholds⟩ := @holds_search mode _ host.resetSearch hroms hfamily rfl rfl first
    (by rw [hfound]; exact List.mem_cons_self) hfirst.symm
  have hrest := searches_of_holds hroms hfamily rest (hfound ▸ hsearched.next)
    (fun f hf => by rw [hfound]; exact List.mem_cons_of_mem _ hf) (hfound ▸ hsearched.last) hholds
  refine List.map_injective_iff.2 (Option.map_injective OneWireRom.bits_injective) ?_
  rw [hlength]
  show Option.map _ (host.resetSearch.search mode).1 :: (searches mode (rest.length + 1) _).map _ = _
  rw [hsearch, hrest, List.map_append, List.map_map]
  have hmap : roms.map (Option.map OneWireRom.bits ∘ some) =
      (roms.map OneWireRom.bits).map some := by
    rw [List.map_map]
    rfl
  rw [hmap, hroms', hfound]
  simp

/-- Two devices of one family. -/
def pair : OneWireBus :=
  [⟨#v[1, 4, 0, 0, 0, 0, 0, 0x2C], false, .idle⟩, ⟨#v[1, 6, 0, 0, 0, 0, 0, 0xF7], false, .idle⟩]

theorem searches_pair : ∃ roms : List OneWireRom, roms.Perm (answering .normal pair) ∧
    searches .normal (roms.length + 1) (resetSearch ⟨#v[0, 0, 0, 0, 0, 0, 0, 0], 0, 0, false, pair⟩) =
      roms.map some ++ [none] := by
  have hroms : answering .normal pair = pair.map OneWireDevice.rom := rfl
  refine searches_eq ⟨#v[0, 0, 0, 0, 0, 0, 0, 0], 0, 0, false, pair⟩ .normal ?_ ?_
  · rw [hroms]
    refine List.nodup_cons.2 ⟨fun hmem => ?_, List.nodup_singleton _⟩
    have hvalue := congrArg (fun rom : OneWireRom => rom.toList.getD 1 0) (List.mem_singleton.1 hmem)
    exact absurd hvalue (by decide)
  · rw [hroms]
    intro rom hmem
    rcases List.mem_pair.1 hmem with rfl | rfl
    · decide
    · decide

end Searches

end OneWireHost

end KiisuFirmware
