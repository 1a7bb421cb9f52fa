import KiisuFirmware.FelicaListener
import Mathlib.Data.List.TakeWhile

/-!
# Writes to an emulated FeliCa Standard card

A write is done as a whole or not at all if its list is in order and can be written as a whole, if
an element is refused before anything is written, or if what is written before a block that is
missing is there already.
-/

namespace KiisuFirmware

open Felica

/-! ## What a write is to do -/

def FelicaPublicBlock.key (pb : FelicaPublicBlock) : UInt16 × UInt8 := (pb.serviceCode, pb.blockIdx)

/-- Blocks to be written, in their order. -/
abbrev FelicaWrites := List ((UInt16 × UInt8) × FelicaBlockData)

/-- Each block that is listed holds the last data listed for it. The block of a service and a number
is the first one that has them. -/
def overwritten (pbs : List FelicaPublicBlock) (writes : FelicaWrites) : List FelicaPublicBlock :=
  pbs.mapIdx fun i pb =>
    { pb with
      data := (if (pbs.map FelicaPublicBlock.key).idxOf pb.key = i then
        writes.reverse.lookup pb.key else none).getD pb.data }

namespace FelicaWrite

def parseCodes : ℕ → List UInt8 → Option (List UInt16 × List UInt8)
  | 0, bytes => some ([], bytes)
  | n + 1, low :: high :: bytes =>
    (parseCodes n bytes).map fun (codes, rest) =>
      ((low.toUInt16 ||| (high.toUInt16 <<< 8)) :: codes, rest)
  | _ + 1, _ => none

/-- The elements of a list: the place of a service in the list of services, and the number of a block
in one byte or in two. -/
def parseElements : ℕ → List UInt8 → Option (List (ℕ × ℕ) × List UInt8)
  | 0, bytes => some ([], bytes)
  | n + 1, first :: low :: bytes =>
    if first >>> 7 ≠ 0 then
      (parseElements n bytes).map fun (elements, rest) =>
        (((first &&& 0x0F).toNat, low.toNat) :: elements, rest)
    else
      match bytes with
      | high :: bytes =>
        (parseElements n bytes).map fun (elements, rest) =>
          (((first &&& 0x0F).toNat, low.toNat + 2 ^ 8 * high.toNat) :: elements, rest)
      | [] => none
  | _ + 1, _ => none

/-- The services, the elements and the data of a request. -/
def parse (request : List UInt8) : Option (List UInt16 × List (ℕ × ℕ) × List UInt8) :=
  match request.drop 10 with
  | serviceNum :: bytes => do
    let (codes, bytes) ← parseCodes serviceNum.toNat bytes
    match bytes with
    | blockCount :: bytes => do
      let (elements, data) ← parseElements blockCount.toNat bytes
      return (codes, elements, data)
    | [] => none
  | [] => none

/-- The block that an element stands for. -/
def Listed (codes : List UInt16) (element : ℕ × ℕ) (key : UInt16 × UInt8) : Prop :=
  codes[element.1]? = some key.1 ∧ element.2 = key.2.toNat

/-- The block is there, and its service can be written without an authentication. -/
def Writable (system : Option FelicaSystem) (key : UInt16 × UInt8) : Prop :=
  ∃ sys svc, system = some sys ∧ key ∈ sys.publicBlocks.map FelicaPublicBlock.key ∧
    sys.findService key.1 = some svc ∧
    svc.attr &&& FELICA_SERVICE_ATTRIBUTE_UNAUTH_READ ≠ 0 ∧
    svc.attr &&& FELICA_SERVICE_ATTRIBUTE_READ_ONLY = 0

def writes : List (UInt16 × UInt8) → List UInt8 → FelicaWrites
  | [], _ => []
  | key :: keys, data => (key, fun j => data.getD j 0) :: writes keys (data.drop 16)

/-- A request is complete: all that it lists can be written, and there are data for it. -/
def Complete (system : Option FelicaSystem) (request : List UInt8) (keys : List (UInt16 × UInt8))
    (data : List UInt8) : Prop :=
  ∃ codes elements, parse request = some (codes, elements, data) ∧
    List.Forall₂ (Listed codes) elements keys ∧ (∀ key ∈ keys, Writable system key) ∧
    16 * keys.length ≤ data.length

end FelicaWrite

namespace FelicaListener

open FelicaWrite

/-- The blocks of the selected system. -/
def publicBlocks (listener : FelicaListener) : List FelicaPublicBlock :=
  listener.getCurrentSystem.elim [] FelicaSystem.publicBlocks

/-- The bytes that the length of a frame counts. -/
def request (frame : List UInt8) : List UInt8 := frame.take (frame.getD 0 0).toNat

/-- An answer that says that all is well. -/
def Succeeded (reply : FelicaReply) : Prop :=
  ∃ answer, reply = .sent answer ∧ answer.getD 10 0 = 0 ∧ answer.getD 11 0 = 0

/-- A write succeeds and all of it is done and nothing else, or no block changes. -/
def AllOrNothing (listener : FelicaListener) (frame : List UInt8) (reply : FelicaReply)
    (after : FelicaListener) : Prop :=
  (Succeeded reply → ∃ keys data, Complete listener.getCurrentSystem (request frame) keys data ∧
    after.data = (listener.setPublicBlocks
      (overwritten listener.publicBlocks (writes keys data))).data) ∧
  (¬Succeeded reply → after.data = listener.data)

end FelicaListener

/-! ## What the list of a request says, whatever is behind it -/

namespace FelicaRx

/-- A frame with something everywhere behind it. -/
def total (frame : List UInt8) (behind : ℕ → UInt8) : FelicaRx :=
  ⟨frame, fun i => some (behind i)⟩

def raw (frame : List UInt8) (behind : ℕ → UInt8) (i : ℕ) : UInt8 :=
  frame[i]?.getD (behind (i - frame.length))

end FelicaRx

namespace FelicaWrite

variable (raw : ℕ → UInt8)

def elementSize (first : UInt8) : ℕ := if first >>> 7 ≠ 0 then 2 else 3

def elements : ℕ → ℕ → List (ℕ × UInt8)
  | 0, _ => []
  | n + 1, ptr => ((raw ptr &&& 0x0F).toNat, raw (ptr + 1)) ::
      elements n (ptr + elementSize (raw ptr))

def listEnd : ℕ → ℕ → ℕ
  | 0, ptr => ptr
  | n + 1, ptr => listEnd n (ptr + elementSize (raw ptr))

def serviceCodes : ℕ → ℕ → List UInt16
  | 0, _ => []
  | n + 1, ptr => ((raw ptr).toUInt16 ||| ((raw (ptr + 1)).toUInt16 <<< 8)) ::
      serviceCodes n (ptr + 2)

def blockAt (ptr : ℕ) : FelicaBlockData := fun j => raw (ptr + j)

def writesAt : List (UInt16 × UInt8) → ℕ → FelicaWrites
  | [], _ => []
  | key :: keys, ptr => (key, blockAt raw ptr) :: writesAt keys (ptr + 16)

/-- An element ends the list with an error, it ends the list, or it is a block to be written. -/
inductive Verdict
  | refused (sf2 : UInt8)
  | unknown
  | target (key : UInt16 × UInt8)

def verdict (codes : List UInt16) (system : Option FelicaSystem) (element : ℕ × UInt8) : Verdict :=
  match codes[element.1]?, system with
  | some code, some system =>
    match system.findService code with
    | none => .unknown
    | some svc =>
      if svc.attr &&& FELICA_SERVICE_ATTRIBUTE_READ_ONLY ≠ 0 then .refused 0xA6
      else .target (code, element.2)
  | _, _ => .refused 0xA8

/-- The blocks before the end of the list. -/
def leading : List Verdict → List (UInt16 × UInt8)
  | .target key :: rest => key :: leading rest
  | _ => []

/-- What ends the list, if something does before it is over. -/
def ending : List Verdict → Option Verdict
  | .target _ :: rest => ending rest
  | verdict :: _ => some verdict
  | [] => none

/-- How many elements are looked at. -/
def looked (verdicts : List Verdict) : ℕ :=
  (leading verdicts).length + if (ending verdicts).isSome then 1 else 0

end FelicaWrite

namespace FelicaListener

open FelicaWrite

/-- The verdicts on the first sixteen elements. -/
def verdicts (listener : FelicaListener) (raw : ℕ → UInt8) : List Verdict :=
  (elements raw (min (raw (11 + (raw 10).toNat * 2)).toNat 16) (12 + (raw 10).toNat * 2)).map
    (verdict (serviceCodes raw (raw 10).toNat 11) listener.getCurrentSystem)

/-- The frame is one for this card, with a number of services that there can be. -/
structure Processed (listener : FelicaListener) (frame : List UInt8) (raw : ℕ → UInt8) : Prop where
  crc : felicaCrcCheck frame = true
  length : raw 0 = UInt8.ofNat (frame.length - 2)
  idm : (List.range' 2 8).map raw = listener.getCurrentIdm
  services : raw 10 ≠ 0 ∧ raw 10 ≤ 16

/-- Where a write is all or nothing: it is not processed, an element is refused, the blocks before the
first one that is missing hold what is written to them, or the request is complete. -/
def WholeWrite (listener : FelicaListener) (frame : List UInt8) (raw : ℕ → UInt8) : Prop :=
  let keys := leading (listener.verdicts raw)
  let there := listener.publicBlocks.map FelicaPublicBlock.key
  ¬Processed listener frame raw ∨
    (∃ sf2, ending (listener.verdicts raw) = some (.refused sf2)) ∨
    ((∃ key ∈ keys, key ∉ there) ∧
      overwritten listener.publicBlocks (writesAt raw (keys.takeWhile (· ∈ there))
        (listEnd raw (looked (listener.verdicts raw)) (12 + (raw 10).toNat * 2))) =
          listener.publicBlocks) ∨
    ∃ keys data, Complete listener.getCurrentSystem (request frame) keys data

end FelicaListener

/-! ## Blocks that are overwritten -/

@[simp] theorem FelicaPublicBlock.key_data (pb : FelicaPublicBlock) (data : FelicaBlockData) :
    { pb with data := data }.key = pb.key := rfl

theorem overwritten_nil (pbs : List FelicaPublicBlock) : overwritten pbs [] = pbs := by
  refine List.ext_getElem? fun i => ?_
  rw [overwritten, List.getElem?_mapIdx]
  rcases pbs[i]? with _ | pb <;> simp

theorem map_key_writePublicBlock (key : UInt16 × UInt8) (data : FelicaBlockData) :
    ∀ pbs : List FelicaPublicBlock,
      (FelicaListener.writePublicBlock key data pbs).map FelicaPublicBlock.key =
        pbs.map FelicaPublicBlock.key
  | [] => rfl
  | pb :: pbs => by
    rw [FelicaListener.writePublicBlock]
    split_ifs
    · rfl
    · rw [List.map_cons, map_key_writePublicBlock key data pbs, List.map_cons]

theorem getElem?_writePublicBlock (key : UInt16 × UInt8) (data : FelicaBlockData) :
    ∀ (pbs : List FelicaPublicBlock) (i : ℕ),
      (FelicaListener.writePublicBlock key data pbs)[i]? = pbs[i]?.map fun pb =>
        if pb.key = key ∧ (pbs.map FelicaPublicBlock.key).idxOf key = i then { pb with data := data }
        else pb
  | [], i => by simp [FelicaListener.writePublicBlock]
  | pb :: pbs, i => by
    have hkey : (pb.serviceCode = key.1 ∧ pb.blockIdx = key.2) ↔ pb.key = key := by
      simp [FelicaPublicBlock.key, Prod.ext_iff]
    rw [FelicaListener.writePublicBlock, List.map_cons, List.idxOf_cons]
    by_cases hpb : pb.key = key
    · rw [if_pos (hkey.2 hpb)]
      rcases i with _ | i
      · simp [hpb]
      · rcases h : pbs[i]? with _ | pb' <;> simp [h, hpb]
    · rw [if_neg (mt hkey.1 hpb)]
      rcases i with _ | i
      · simp [hpb]
      · rw [List.getElem?_cons_succ, List.getElem?_cons_succ,
          getElem?_writePublicBlock key data pbs i]
        simp [beq_eq_false_iff_ne.2 hpb]

theorem overwritten_cons (key : UInt16 × UInt8) (data : FelicaBlockData) (writes : FelicaWrites)
    (pbs : List FelicaPublicBlock) :
    overwritten (FelicaListener.writePublicBlock key data pbs) writes =
      overwritten pbs ((key, data) :: writes) := by
  refine List.ext_getElem? fun i => ?_
  rw [overwritten, overwritten, List.getElem?_mapIdx, List.getElem?_mapIdx,
    map_key_writePublicBlock, getElem?_writePublicBlock]
  rcases hpb : pbs[i]? with _ | pb
  · rfl
  · simp only [Option.map_some, Option.some.injEq, List.reverse_cons, List.lookup_append]
    by_cases hkey : pb.key = key
    · subst hkey
      by_cases hi : (pbs.map FelicaPublicBlock.key).idxOf pb.key = i
      · simp only [hi, and_self, if_true]
        rcases h : writes.reverse.lookup pb.key with _ | data' <;> simp [hi, h]
      · simp [hi]
    · have hsingle : List.lookup pb.key [(key, data)] = none := by
        rw [List.lookup_cons, beq_eq_false_iff_ne.2 hkey, List.lookup_nil]
      simp [hkey, hsingle]

/-- The flags of a write of these blocks, of which one may be missing. -/
def writtenFlags (keys : List (UInt16 × UInt8)) (present : List (UInt16 × UInt8)) : FelicaFlags :=
  if keys.all fun key => key ∈ present then (0, 0) else (0xFF, 0xA8)

theorem writtenFlags_nil (present : List (UInt16 × UInt8)) : writtenFlags [] present = (0, 0) := rfl

theorem writtenFlags_cons (key : UInt16 × UInt8) (keys present : List (UInt16 × UInt8)) :
    writtenFlags (key :: keys) present =
      if key ∈ present then writtenFlags keys present else (0xFF, 0xA8) := by
  unfold writtenFlags
  rw [List.all_cons]
  by_cases hkey : key ∈ present
  · rw [if_pos hkey, decide_eq_true hkey, Bool.true_and]
  · rw [if_neg hkey, decide_eq_false hkey, Bool.false_and]
    rfl

theorem writtenFlags_of_all {keys present : List (UInt16 × UInt8)} (h : ∀ key ∈ keys, key ∈ present) :
    writtenFlags keys present = (0, 0) :=
  if_pos (List.all_eq_true.2 fun key hkey => decide_eq_true (h key hkey))

theorem writtenFlags_of_missing {keys present : List (UInt16 × UInt8)}
    (h : ¬∀ key ∈ keys, key ∈ present) : writtenFlags keys present = (0xFF, 0xA8) :=
  if_neg fun hall => h fun key hkey => of_decide_eq_true (List.all_eq_true.1 hall key hkey)

/-! ## What is read from a frame with something everywhere behind it -/

section Total

open FelicaWrite FelicaRx FelicaListener

variable (frame : List UInt8) (behind : ℕ → UInt8)

@[simp] theorem byte_total (i : ℕ) : (total frame behind).byte i = .ok (raw frame behind i) := by
  unfold FelicaRx.byte total raw
  rcases h : frame[i]? with _ | byte <;> simp

@[simp] theorem uint16_total (i : ℕ) : (total frame behind).uint16 i =
    .ok ((raw frame behind i).toUInt16 ||| ((raw frame behind (i + 1)).toUInt16 <<< 8)) := by
  unfold FelicaRx.uint16
  simp [bind, Except.bind, pure, Except.pure]

theorem bytes_total : ∀ n i, (total frame behind).bytes i n =
    .ok ((List.range' i n).map (raw frame behind))
  | 0, i => rfl
  | n + 1, i => by
    rw [FelicaRx.bytes, bytes_total n (i + 1)]
    simp [bind, Except.bind, pure, Except.pure, List.range'_succ]

theorem block_total (i : ℕ) : (total frame behind).block i =
    .ok (blockAt (raw frame behind) i) := by
  unfold FelicaRx.block
  rw [bytes_total]
  simp only [bind, Except.bind, pure, Except.pure, Except.ok.injEq]
  funext j
  simp [blockAt, List.getD_eq_getElem?_getD]

theorem standardServiceCodes_total : ∀ n offset,
    standardServiceCodes (total frame behind) offset n =
      .ok (serviceCodes (raw frame behind) n offset)
  | 0, offset => rfl
  | n + 1, offset => by
    rw [standardServiceCodes, standardServiceCodes_total n (offset + 2)]
    simp [bind, Except.bind, pure, Except.pure, serviceCodes]

theorem standardElement_total (ptr : ℕ) : standardElement (total frame behind) ptr =
    .ok ((raw frame behind ptr &&& 0x0F).toNat, raw frame behind (ptr + 1),
      ptr + elementSize (raw frame behind ptr)) := by
  unfold standardElement
  simp only [byte_total, bind, Except.bind, pure, Except.pure]
  rfl

/-- The flags with which the reading of a list ends. -/
def endingFlags : Option Verdict → FelicaFlags
  | some (.refused sf2) => (0xFF, sf2)
  | _ => (0, 0)

theorem standardTargets_total (codes : List UInt16) (system : Option FelicaSystem) :
    ∀ n ptr, standardTargets (total frame behind) codes system n ptr =
      .ok (endingFlags (ending ((elements (raw frame behind) n ptr).map (verdict codes system))),
        leading ((elements (raw frame behind) n ptr).map (verdict codes system)),
        listEnd (raw frame behind)
          (looked ((elements (raw frame behind) n ptr).map (verdict codes system))) ptr)
  | 0, ptr => rfl
  | n + 1, ptr => by
    have hrest := standardTargets_total codes system n (ptr + elementSize (raw frame behind ptr))
    rw [standardTargets, standardElement_total, elements, List.map_cons]
    simp only [bind, Except.bind, pure, Except.pure]
    generalize (elements (raw frame behind) n (ptr + elementSize (raw frame behind ptr))).map
      (verdict codes system) = rest at hrest ⊢
    unfold verdict
    dsimp only
    rcases codes[(raw frame behind ptr &&& 0x0F).toNat]? with _ | code
    · rfl
    · rcases system with _ | system
      · rfl
      · dsimp only
        rcases system.findService code with _ | svc
        · rfl
        · dsimp only
          split_ifs with hreadonly
          · rfl
          · rw [hrest]
            simp only [leading, ending, looked, List.length_cons, Nat.succ_add, listEnd]
            rfl

theorem any_eq_decide_mem (pbs : List FelicaPublicBlock) (key : UInt16 × UInt8) :
    (pbs.any fun pb => pb.serviceCode == key.1 && pb.blockIdx == key.2) =
      decide (key ∈ pbs.map FelicaPublicBlock.key) := by
  rw [Bool.eq_iff_iff]
  simp [FelicaPublicBlock.key, Prod.ext_iff, List.any_eq_true]

theorem standardWriteBlocks_total : ∀ (keys : List (UInt16 × UInt8)) (ptr : ℕ)
    (pbs : List FelicaPublicBlock), standardWriteBlocks (total frame behind) keys ptr pbs =
      .ok (writtenFlags keys (pbs.map FelicaPublicBlock.key), overwritten pbs (writesAt (raw frame behind)
          (keys.takeWhile (· ∈ pbs.map FelicaPublicBlock.key)) ptr))
  | [], ptr, pbs => by simp [standardWriteBlocks, writesAt, overwritten_nil, writtenFlags_nil]
  | key :: keys, ptr, pbs => by
    rw [standardWriteBlocks, any_eq_decide_mem, List.takeWhile_cons, writtenFlags_cons]
    by_cases hkey : key ∈ pbs.map FelicaPublicBlock.key
    · rw [if_pos (decide_eq_true hkey), if_pos (decide_eq_true hkey), block_total]
      simp only [bind, Except.bind]
      rw [standardWriteBlocks_total keys (ptr + 16), map_key_writePublicBlock, overwritten_cons,
        writesAt, if_pos hkey]
    · simp only [hkey, decide_false, Bool.false_eq_true, if_false, writesAt, overwritten_nil, pure,
        Except.pure]

end Total

/-! ## Complete requests -/

namespace FelicaWrite

section Parse

variable {raw : ℕ → UInt8} {request : List UInt8}

theorem getElem?_of_drop {p : ℕ} {byte : UInt8} {bytes : List UInt8}
    (h : request.drop p = byte :: bytes) :
    request[p]? = some byte ∧ request.drop (p + 1) = bytes := by
  have hhead : (request.drop p)[0]? = some byte := by
    rw [h]
    rfl
  rw [List.getElem?_drop, Nat.add_zero] at hhead
  refine ⟨hhead, ?_⟩
  rw [← List.drop_drop, h]
  rfl

variable (hraw : ∀ i byte, request[i]? = some byte → raw i = byte)
include hraw

theorem parseCodes_raw : ∀ (n p : ℕ) {codes : List UInt16} {rest : List UInt8},
    parseCodes n (request.drop p) = some (codes, rest) →
      codes = serviceCodes raw n p ∧ rest = request.drop (p + n * 2)
  | 0, p, codes, rest, h => by
    simp only [parseCodes, Option.some.injEq, Prod.mk.injEq] at h
    obtain ⟨rfl, rfl⟩ := h
    exact ⟨rfl, by simp⟩
  | n + 1, p, codes, rest, h => by
    rcases hbytes : request.drop p with _ | ⟨low, _ | ⟨high, bytes⟩⟩
    · simp [hbytes, parseCodes] at h
    · simp [hbytes, parseCodes] at h
    · obtain ⟨hlow, hdrop⟩ := getElem?_of_drop hbytes
      obtain ⟨hhigh, hdrop⟩ := getElem?_of_drop hdrop
      rw [hbytes, parseCodes, Option.map_eq_some_iff] at h
      obtain ⟨⟨codes', rest'⟩, hparse, heq⟩ := h
      rw [← hdrop] at hparse
      obtain ⟨rfl, rfl⟩ := parseCodes_raw n (p + 1 + 1) hparse
      simp only [Prod.mk.injEq] at heq
      obtain ⟨rfl, rfl⟩ := heq
      refine ⟨?_, by congr 1; omega⟩
      rw [serviceCodes, hraw p low hlow, hraw (p + 1) high hhigh]

theorem parseElements_raw : ∀ (n p : ℕ) {listed : List (ℕ × ℕ)} {rest : List UInt8},
    parseElements n (request.drop p) = some (listed, rest) →
      elements raw n p = listed.map (fun element => (element.1, UInt8.ofNat element.2)) ∧
        rest = request.drop (listEnd raw n p) ∧ listed.length = n
  | 0, p, listed, rest, h => by
    simp only [parseElements, Option.some.injEq, Prod.mk.injEq] at h
    obtain ⟨rfl, rfl⟩ := h
    exact ⟨rfl, rfl, rfl⟩
  | n + 1, p, listed, rest, h => by
    rcases hbytes : request.drop p with _ | ⟨first, _ | ⟨low, bytes⟩⟩
    · simp [hbytes, parseElements] at h
    · simp [hbytes, parseElements] at h
    · obtain ⟨hfirst, hdrop⟩ := getElem?_of_drop hbytes
      obtain ⟨hlow, hdrop⟩ := getElem?_of_drop hdrop
      have hfirst := hraw p first hfirst
      have hlow := hraw (p + 1) low hlow
      rw [hbytes] at h
      unfold parseElements at h
      by_cases hsize : first >>> 7 ≠ 0
      · rw [if_pos hsize, Option.map_eq_some_iff] at h
        obtain ⟨⟨listed', rest'⟩, hparse, heq⟩ := h
        rw [← hdrop] at hparse
        obtain ⟨helements, rfl, rfl⟩ := parseElements_raw n (p + 1 + 1) hparse
        simp only [Prod.mk.injEq] at heq
        obtain ⟨rfl, rfl⟩ := heq
        have hnext : p + elementSize (raw p) = p + 1 + 1 := by
          rw [hfirst, elementSize, if_pos hsize]
        refine ⟨?_, ?_, rfl⟩
        · rw [elements, hnext, helements, hfirst, hlow]
          simp
        · rw [listEnd, hnext]
      · rw [if_neg hsize] at h
        rcases hbytes' : bytes with _ | ⟨high, bytes'⟩
        · simp [hbytes'] at h
        · obtain ⟨-, hdrop⟩ := getElem?_of_drop (hdrop.trans hbytes')
          rw [hbytes'] at h
          simp only [Option.map_eq_some_iff] at h
          obtain ⟨⟨listed', rest'⟩, hparse, heq⟩ := h
          rw [← hdrop] at hparse
          obtain ⟨helements, rfl, rfl⟩ := parseElements_raw n (p + 1 + 1 + 1) hparse
          simp only [Prod.mk.injEq] at heq
          obtain ⟨rfl, rfl⟩ := heq
          have hnext : p + elementSize (raw p) = p + 1 + 1 + 1 := by
            rw [hfirst, elementSize, if_neg hsize]
          refine ⟨?_, ?_, rfl⟩
          · rw [elements, hnext, helements, hfirst, hlow]
            simp
          · rw [listEnd, hnext]

theorem parse_raw {codes : List UInt16} {listed : List (ℕ × ℕ)} {data : List UInt8}
    (h : parse request = some (codes, listed, data)) :
    codes = serviceCodes raw (raw 10).toNat 11 ∧
      elements raw listed.length (12 + (raw 10).toNat * 2) =
        listed.map (fun element => (element.1, UInt8.ofNat element.2)) ∧
      listed.length = (raw (11 + (raw 10).toNat * 2)).toNat ∧
      data = request.drop (listEnd raw listed.length (12 + (raw 10).toNat * 2)) := by
  unfold parse at h
  rcases hbytes : request.drop 10 with _ | ⟨serviceNum, bytes⟩
  · simp [hbytes] at h
  · obtain ⟨hnum, hdrop⟩ := getElem?_of_drop hbytes
    have hnum := hraw 10 serviceNum hnum
    simp only [hbytes, Option.bind_eq_bind, Option.bind_eq_some_iff] at h
    obtain ⟨⟨codes', bytes'⟩, hcodes, h⟩ := h
    rw [← hdrop] at hcodes
    obtain ⟨rfl, hbytes'⟩ := parseCodes_raw hraw _ _ hcodes
    rcases hrest : bytes' with _ | ⟨blockCount, rest⟩
    · simp [hrest] at h
    · obtain ⟨hcount, hdrop'⟩ := getElem?_of_drop (hbytes'.symm.trans hrest)
      have hcount := hraw _ blockCount hcount
      simp only [hrest, Option.bind_eq_some_iff, Option.pure_def, Option.some.injEq] at h
      obtain ⟨⟨listed', data'⟩, hlisted, heq⟩ := h
      simp only [Prod.mk.injEq] at heq
      obtain ⟨rfl, rfl, rfl⟩ := heq
      rw [← hdrop'] at hlisted
      obtain ⟨helements, hdata, hlength⟩ := parseElements_raw hraw _ _ hlisted
      have hstart : 10 + 1 + serviceNum.toNat * 2 + 1 = 12 + serviceNum.toNat * 2 := by omega
      rw [hstart] at helements hdata
      rw [hnum]
      refine ⟨rfl, ?_, ?_, ?_⟩
      · rw [hlength]
        exact helements
      · rw [hlength, ← hcount]
      · rw [hlength]
        exact hdata

theorem writes_raw : ∀ (keys : List (UInt16 × UInt8)) (p : ℕ),
    16 * keys.length ≤ (request.drop p).length →
      writes keys (request.drop p) = writesAt raw keys p
  | [], p, _ => rfl
  | key :: keys, p, h => by
    rw [List.length_cons, List.length_drop] at h
    rw [writes, writesAt, List.drop_drop, writes_raw keys (p + 16) (by
      rw [List.length_drop]
      omega)]
    congr 2
    funext j
    have hj : p + j.val < request.length := by omega
    rw [blockAt, hraw (p + j) request[p + j.val] (List.getElem?_eq_getElem hj)]
    simp [List.getD_eq_getElem?_getD, hj]

end Parse

theorem leading_map_target : ∀ keys : List (UInt16 × UInt8), leading (keys.map .target) = keys
  | [] => rfl
  | key :: keys => by rw [List.map_cons, leading, leading_map_target keys]

theorem ending_map_target : ∀ keys : List (UInt16 × UInt8), ending (keys.map .target) = none
  | [] => rfl
  | key :: keys => by rw [List.map_cons, ending, ending_map_target keys]

theorem verdict_of_writable {codes : List UInt16} {system : Option FelicaSystem}
    {element : ℕ × ℕ} {key : UInt16 × UInt8} (hlisted : Listed codes element key)
    (hwritable : Writable system key) :
    verdict codes system (element.1, UInt8.ofNat element.2) = .target key := by
  obtain ⟨hcode, hnumber⟩ := hlisted
  obtain ⟨sys, svc, rfl, -, hservice, -, hreadonly⟩ := hwritable
  unfold verdict
  simp [hcode, hservice, hreadonly, hnumber]

theorem map_verdict_of_writable {codes : List UInt16} {system : Option FelicaSystem}
    {listed : List (ℕ × ℕ)} {keys : List (UInt16 × UInt8)}
    (h : List.Forall₂ (Listed codes) listed keys) (hwritable : ∀ key ∈ keys, Writable system key) :
    (listed.map fun element => (element.1, UInt8.ofNat element.2)).map (verdict codes system) =
      keys.map .target := by
  induction h with
  | nil => rfl
  | cons hlisted _ ih =>
    rw [List.forall_mem_cons] at hwritable
    rw [List.map_cons, List.map_cons, List.map_cons, verdict_of_writable hlisted hwritable.1,
      ih hwritable.2]

end FelicaWrite

namespace FelicaListener

open FelicaWrite FelicaRx

variable (crypto : FelicaCrypto) (listener : FelicaListener) (frame : List UInt8)
  (behind : ℕ → UInt8)

/-! ## The handler -/

theorem length_getCurrentIdm : listener.getCurrentIdm.length = 8 := by
  unfold getCurrentIdm
  split_ifs <;> simp

@[simp] theorem setPublicBlocks_publicBlocks :
    listener.setPublicBlocks listener.publicBlocks = listener := by
  have hsystems : (listener.data.systems.modify listener.currentSystemIdx.toNat fun system =>
      { system with publicBlocks := listener.publicBlocks }) = listener.data.systems := by
    refine List.ext_getElem? fun i => ?_
    rw [List.getElem?_modify]
    rcases hsystem : listener.data.systems[i]? with _ | system
    · rfl
    · by_cases hi : listener.currentSystemIdx.toNat = i
      · subst hi
        simp [publicBlocks, getCurrentSystem, hsystem]
      · simp [hi]
  unfold setPublicBlocks
  rw [hsystems]
  rfl

theorem setPublicBlocks_data_inj {pbs : List FelicaPublicBlock}
    (hlength : pbs.length = listener.publicBlocks.length)
    (h : (listener.setPublicBlocks pbs).data = listener.data) : pbs = listener.publicBlocks := by
  rcases hsystem : listener.getCurrentSystem with _ | system
  · have hnil : listener.publicBlocks = [] := by rw [publicBlocks, hsystem]; rfl
    rw [hnil] at hlength ⊢
    exact List.eq_nil_of_length_eq_zero hlength
  · have hsystems := congrArg (fun data : FelicaData =>
      (data.systems[listener.currentSystemIdx.toNat]?).map FelicaSystem.publicBlocks) h
    have hsystem' : listener.data.systems[listener.currentSystemIdx.toNat]? = some system := hsystem
    simpa [setPublicBlocks, setData, publicBlocks, getCurrentSystem, hsystem',
      List.getElem?_modify] using hsystems

/-- An answer of two flags. -/
def flagsReply (flags : FelicaFlags) : FelicaReply :=
  let tx := [12, 0x09] ++ listener.getCurrentIdm ++ [flags.1, flags.2]
  .sent (tx ++ felicaCrc tx)

@[simp] theorem flagsReply_setPublicBlocks (pbs : List FelicaPublicBlock) (flags : FelicaFlags) :
    (listener.setPublicBlocks pbs).flagsReply flags = listener.flagsReply flags := rfl

theorem frameExchange_flags (sf1 sf2 : UInt8) :
    felicaListenerFrameExchange ([12, 0x09] ++ listener.getCurrentIdm ++ [sf1, sf2]) =
      .ok (listener.flagsReply (sf1, sf2)) := by
  have hlength := listener.length_getCurrentIdm
  unfold felicaListenerFrameExchange flagsReply
  rw [if_neg (by simp [hlength, FELICA_LISTENER_MAX_BUFFER_SIZE]), if_neg (by
    simp [hlength, FELICA_LISTENER_MAX_BUFFER_SIZE, FELICA_CRC_SIZE])]

theorem succeeded_flagsReply (flags : FelicaFlags) :
    Succeeded (listener.flagsReply flags) ↔ flags = (0, 0) := by
  have hlength := listener.length_getCurrentIdm
  obtain ⟨sf1, sf2⟩ := flags
  have h10 : (([12, 0x09] ++ listener.getCurrentIdm ++ [sf1, sf2] ++
      felicaCrc ([12, 0x09] ++ listener.getCurrentIdm ++ [sf1, sf2])).getD 10 0 : UInt8) = sf1 := by
    simp [List.getD_eq_getElem?_getD, hlength]
  have h11 : (([12, 0x09] ++ listener.getCurrentIdm ++ [sf1, sf2] ++
      felicaCrc ([12, 0x09] ++ listener.getCurrentIdm ++ [sf1, sf2])).getD 11 0 : UInt8) = sf2 := by
    simp [List.getD_eq_getElem?_getD, List.getElem?_append, hlength]
  constructor
  · rintro ⟨answer, hanswer, hsf1, hsf2⟩
    cases hanswer
    rw [h10] at hsf1
    rw [h11] at hsf2
    rw [hsf1, hsf2]
  · intro h
    cases h
    exact ⟨_, rfl, h10, h11⟩

/-- What is written before something is missing. -/
def writtenBlocks (raw : ℕ → UInt8) : List FelicaPublicBlock :=
  overwritten listener.publicBlocks (writesAt raw
    ((leading (listener.verdicts raw)).takeWhile
      (· ∈ listener.publicBlocks.map FelicaPublicBlock.key))
    (listEnd raw (looked (listener.verdicts raw)) (12 + (raw 10).toNat * 2)))

/-- The answer of a write, and the listener after it. -/
def standardWritten (raw : ℕ → UInt8) : FelicaReply × FelicaListener :=
  match ending (listener.verdicts raw) with
  | some (.refused sf2) => (listener.flagsReply (0xFF, sf2), listener)
  | _ =>
    (listener.flagsReply (writtenFlags (leading (listener.verdicts raw))
        (listener.publicBlocks.map FelicaPublicBlock.key)),
      listener.setPublicBlocks (listener.writtenBlocks raw))

theorem commandHandlerStandardWrite_total
    (hservices : raw frame behind 10 ≠ 0 ∧ raw frame behind 10 ≤ 16) :
    listener.commandHandlerStandardWrite (total frame behind) =
      .ok (listener.standardWritten (raw frame behind)) := by
  have hnum : ¬(raw frame behind 10 = 0 ∨ 16 < raw frame behind 10) := by
    rw [not_or, UInt8.not_lt]
    exact hservices
  have htargets := standardTargets_total frame behind
    (serviceCodes (raw frame behind) (raw frame behind 10).toNat 11) listener.getCurrentSystem
    (min (raw frame behind (11 + (raw frame behind 10).toNat * 2)).toNat 16)
    (12 + (raw frame behind 10).toNat * 2)
  have hverdicts : (elements (raw frame behind)
      (min (raw frame behind (11 + (raw frame behind 10).toNat * 2)).toNat 16)
      (12 + (raw frame behind 10).toNat * 2)).map (verdict
        (serviceCodes (raw frame behind) (raw frame behind 10).toNat 11)
          listener.getCurrentSystem) = listener.verdicts (raw frame behind) := rfl
  rw [hverdicts] at htargets
  unfold commandHandlerStandardWrite
  simp only [byte_total, bind, Except.bind, hnum, if_false, standardServiceCodes_total, htargets]
  unfold standardWritten writtenBlocks
  rcases hsystem : listener.getCurrentSystem with _ | system
  · have hblocks : listener.publicBlocks = [] := by rw [publicBlocks, hsystem]; rfl
    have hverdict : ∀ codes element, verdict codes none element = .refused 0xA8 := by
      intro codes element
      unfold verdict
      rcases codes[element.1]? with _ | code <;> rfl
    rcases hlisted : elements (raw frame behind)
      (min (raw frame behind (11 + (raw frame behind 10).toNat * 2)).toNat 16)
      (12 + (raw frame behind 10).toNat * 2) with _ | ⟨element, rest⟩
    · have hnil : listener.verdicts (raw frame behind) = [] := by
        rw [verdicts, hlisted]
        rfl
      have hsame := listener.setPublicBlocks_publicBlocks
      rw [hblocks] at hsame
      simp only [hnil, ending, endingFlags, leading, List.takeWhile_nil, writesAt, hblocks,
        overwritten_nil, hsame, pure, Except.pure, frameExchange_flags, writtenFlags_nil]
    · have hcons : ending (listener.verdicts (raw frame behind)) = some (.refused 0xA8) := by
        rw [verdicts, hlisted, List.map_cons, hsystem, hverdict]
        rfl
      simp only [hcons, endingFlags, pure, Except.pure, frameExchange_flags]
  · have hblocks : listener.publicBlocks = system.publicBlocks := by rw [publicBlocks, hsystem]; rfl
    rw [hblocks]
    simp only [standardWriteBlocks_total]
    rcases ending (listener.verdicts (raw frame behind)) with _ | (sf2 | _ | key)
    · simp only [endingFlags, pure, Except.pure, if_true, frameExchange_flags, Prod.mk.eta,
        flagsReply_setPublicBlocks]
    · have hne : (0xFF : UInt8) ≠ 0 := by decide
      simp only [endingFlags, pure, Except.pure, if_neg hne, frameExchange_flags]
    · simp only [endingFlags, pure, Except.pure, if_true, frameExchange_flags, Prod.mk.eta,
        flagsReply_setPublicBlocks]
    · simp only [endingFlags, pure, Except.pure, if_true, frameExchange_flags, Prod.mk.eta,
        flagsReply_setPublicBlocks]

/-! ## Frames -/

variable {listener frame behind}

theorem run_write (hstandard : listener.data.workflowType = .standard)
    (hcode : raw frame behind 1 = FELICA_CMD_WRITE_WITHOUT_ENCRYPTION) :
    listener.run crypto (.received (total frame behind)) =
      if felicaCrcCheck frame = true ∧ raw frame behind 0 = UInt8.ofNat (frame.length - 2) ∧
          (List.range' 2 8).map (raw frame behind) = listener.getCurrentIdm then
        listener.commandHandlerStandardWrite (total frame behind)
      else .ok (.silent, listener) := by
  have hlist : (total frame behind).checkBlockListSize listener.data.workflowType =
      .ok (true, 0) := by
    unfold FelicaRx.checkBlockListSize FelicaRx.code
    simp [hcode, hstandard, bind, Except.bind, pure, Except.pure, FELICA_CMD_WRITE_WITHOUT_ENCRYPTION,
      FELICA_CMD_REQUEST_SYSTEM_CODE, FELICA_CMD_LIST_SERVICE_CODE, FELICA_CMD_REQUEST_SERVICE,
      FELICA_CMD_REQUEST_RESPONSE]
  have hprocess : listener.processRequest crypto (total frame behind) 0 =
      listener.commandHandlerStandardWrite (total frame behind) := by
    unfold processRequest FelicaRx.code
    simp [hcode, hstandard, bind, Except.bind, FELICA_CMD_WRITE_WITHOUT_ENCRYPTION,
      FELICA_CMD_READ_WITHOUT_ENCRYPTION, FELICA_CMD_REQUEST_SERVICE, FELICA_CMD_REQUEST_RESPONSE]
  have hpolling : ¬raw frame behind 1 = 0 := by rw [hcode]; decide
  show listener.received crypto (total frame behind) = _
  unfold received
  rw [hlist]
  unfold FelicaRx.length FelicaRx.code checkIdm
  simp only [byte_total, bytes_total, bind, Except.bind, pure, Except.pure, Bool.not_true,
    Bool.false_eq_true, if_false, hpolling, hprocess]
  have hframe : (total frame behind).frame = frame := rfl
  rw [hframe]
  by_cases hcrc : felicaCrcCheck frame = true
  · by_cases hlength : raw frame behind 0 = UInt8.ofNat (frame.length - 2)
    · by_cases hidm : (List.range' 2 8).map (raw frame behind) = listener.getCurrentIdm
      · simp [hcrc, hlength, hidm]
      · simp [hcrc, hlength, hidm]
    · simp [hcrc, hlength]
  · simp [hcrc]

theorem run_of_processed (hstandard : listener.data.workflowType = .standard)
    (hcode : raw frame behind 1 = FELICA_CMD_WRITE_WITHOUT_ENCRYPTION)
    (h : Processed listener frame (raw frame behind)) :
    listener.run crypto (.received (total frame behind)) =
      .ok (listener.standardWritten (raw frame behind)) := by
  rw [run_write crypto hstandard hcode, if_pos ⟨h.crc, h.length, h.idm⟩,
    commandHandlerStandardWrite_total _ _ _ h.services]

theorem run_of_not_processed (hstandard : listener.data.workflowType = .standard)
    (hcode : raw frame behind 1 = FELICA_CMD_WRITE_WITHOUT_ENCRYPTION)
    (h : ¬Processed listener frame (raw frame behind)) :
    listener.run crypto (.received (total frame behind)) = .ok (.silent, listener) := by
  rw [run_write crypto hstandard hcode]
  split_ifs with hframe
  · have hservices : raw frame behind 10 = 0 ∨ 16 < raw frame behind 10 := by
      by_contra hnot
      rw [not_or, UInt8.not_lt] at hnot
      exact h ⟨hframe.1, hframe.2.1, hframe.2.2, hnot⟩
    unfold commandHandlerStandardWrite
    simp only [byte_total, bind, Except.bind, hservices, if_true, pure, Except.pure]
  · rfl

theorem raw_of_request {i : ℕ} {byte : UInt8} (h : (request frame)[i]? = some byte) :
    raw frame behind i = byte := by
  unfold request at h
  rw [List.getElem?_take] at h
  split_ifs at h with hi
  rw [raw, h]
  rfl

theorem standardWritten_of_complete {keys : List (UInt16 × UInt8)} {data : List UInt8}
    (h : Complete listener.getCurrentSystem (request frame) keys data) :
    listener.standardWritten (raw frame behind) =
      (listener.flagsReply (0, 0),
        listener.setPublicBlocks (overwritten listener.publicBlocks (writes keys data))) := by
  obtain ⟨codes, listed, hparse, hlisted, hwritable, hdata⟩ := h
  have hraw (i : ℕ) (byte : UInt8) (h : (request frame)[i]? = some byte) :
      raw frame behind i = byte := raw_of_request h
  obtain ⟨rfl, helements, hcount, rfl⟩ := parse_raw hraw hparse
  have hlength := hlisted.length_eq
  have hrequest : (request frame).length ≤ 255 := by
    have hlt := (frame.getD 0 0).toNat_lt
    rw [request, List.length_take]
    omega
  have hsixteen : min (raw frame behind (11 + (raw frame behind 10).toNat * 2)).toNat 16 =
      listed.length := by
    rw [List.length_drop] at hdata
    omega
  have hverdicts : listener.verdicts (raw frame behind) = keys.map .target := by
    rw [verdicts, hsixteen, helements]
    exact map_verdict_of_writable hlisted hwritable
  have hlooked : looked (listener.verdicts (raw frame behind)) = listed.length := by
    rw [hverdicts, looked, leading_map_target, ending_map_target, hlength]
    rfl
  have hthere : ∀ key ∈ keys, key ∈ listener.publicBlocks.map FelicaPublicBlock.key := by
    intro key hkey
    obtain ⟨system, -, hsystem, hmem, -⟩ := hwritable key hkey
    rw [publicBlocks, hsystem]
    exact hmem
  have htake : keys.takeWhile (· ∈ listener.publicBlocks.map FelicaPublicBlock.key) = keys :=
    List.takeWhile_eq_self_iff.2 fun key hkey => decide_eq_true (hthere key hkey)
  unfold standardWritten writtenBlocks
  rw [hlooked, hverdicts, ending_map_target, leading_map_target, htake,
    writes_raw hraw keys _ hdata]
  dsimp only
  rw [writtenFlags_of_all hthere]

theorem standardWritten_of_refused {raw : ℕ → UInt8} {sf2 : UInt8}
    (h : ending (listener.verdicts raw) = some (.refused sf2)) :
    listener.standardWritten raw = (listener.flagsReply (0xFF, sf2), listener) := by
  rw [standardWritten, h]

theorem standardWritten_of_not_refused {raw : ℕ → UInt8}
    (h : ¬∃ sf2, ending (listener.verdicts raw) = some (.refused sf2)) :
    listener.standardWritten raw =
      (listener.flagsReply (writtenFlags (leading (listener.verdicts raw))
          (listener.publicBlocks.map FelicaPublicBlock.key)),
        listener.setPublicBlocks (listener.writtenBlocks raw)) := by
  unfold standardWritten
  rcases hending : ending (listener.verdicts raw) with _ | (sf2 | _ | key)
  · rfl
  · exact absurd ⟨sf2, hending⟩ h
  · rfl
  · rfl

theorem allOrNothing_of_failed {flags : FelicaFlags} (h : flags ≠ (0, 0)) :
    AllOrNothing listener frame (listener.flagsReply flags) listener :=
  ⟨fun hsucceeded => absurd ((succeeded_flagsReply _ _).1 hsucceeded) h, fun _ => rfl⟩

theorem allOrNothing_silent : AllOrNothing listener frame .silent listener := by
  refine ⟨?_, fun _ => rfl⟩
  rintro ⟨answer, h, -⟩
  cases h

/-- A write succeeds as a whole or changes nothing exactly where the request is complete, or refused
before anything is written, or what is written before a block that is missing is there already. -/
theorem standardWrite_all_or_nothing (crypto : FelicaCrypto) (listener : FelicaListener)
    (frame : List UInt8) (behind : ℕ → UInt8)
    (hstandard : listener.data.workflowType = .standard)
    (hcode : frame[1]? = some FELICA_CMD_WRITE_WITHOUT_ENCRYPTION) :
    (∃ reply after, listener.run crypto (.received (total frame behind)) = .ok (reply, after) ∧
        AllOrNothing listener frame reply after) ↔
      WholeWrite listener frame (raw frame behind) := by
  have hcode : raw frame behind 1 = FELICA_CMD_WRITE_WITHOUT_ENCRYPTION := by
    rw [raw, hcode]
    rfl
  by_cases hprocessed : Processed listener frame (raw frame behind)
  swap
  · rw [run_of_not_processed crypto hstandard hcode hprocessed]
    exact iff_of_true ⟨_, _, rfl, allOrNothing_silent⟩ (.inl hprocessed)
  rw [run_of_processed crypto hstandard hcode hprocessed]
  constructor
  · rintro ⟨reply, after, hrun, hsucceeded, hfailed⟩
    by_cases hrefused : ∃ sf2, ending (listener.verdicts (raw frame behind)) = some (.refused sf2)
    · exact .inr (.inl hrefused)
    rw [standardWritten_of_not_refused hrefused] at hrun
    cases hrun
    by_cases hall : ∀ key ∈ leading (listener.verdicts (raw frame behind)),
        key ∈ listener.publicBlocks.map FelicaPublicBlock.key
    · rw [writtenFlags_of_all hall] at hsucceeded
      obtain ⟨keys, data, hcomplete, -⟩ := hsucceeded ((succeeded_flagsReply _ _).2 rfl)
      exact .inr (.inr (.inr ⟨keys, data, hcomplete⟩))
    · rw [writtenFlags_of_missing hall] at hfailed
      have hsame := hfailed fun h => absurd ((succeeded_flagsReply _ _).1 h) (by decide)
      have hblocks := setPublicBlocks_data_inj listener
        (by rw [writtenBlocks, overwritten, List.length_mapIdx]) hsame
      push Not at hall
      exact .inr (.inr (.inl ⟨hall, hblocks⟩))
  · rintro (hnot | ⟨sf2, hrefused⟩ | ⟨⟨key, hkey, hmissing⟩, hsame⟩ | ⟨keys, data, hcomplete⟩)
    · exact absurd hprocessed hnot
    · rw [standardWritten_of_refused hrefused]
      exact ⟨_, _, rfl, allOrNothing_of_failed (by simp)⟩
    · have hblocks : listener.setPublicBlocks (listener.writtenBlocks (raw frame behind)) =
          listener := by
        rw [writtenBlocks, hsame, setPublicBlocks_publicBlocks]
      have hall : ¬∀ key ∈ leading (listener.verdicts (raw frame behind)),
          key ∈ listener.publicBlocks.map FelicaPublicBlock.key := fun h => hmissing (h key hkey)
      by_cases hrefused :
          ∃ sf2, ending (listener.verdicts (raw frame behind)) = some (.refused sf2)
      · obtain ⟨sf2, hrefused⟩ := hrefused
        rw [standardWritten_of_refused hrefused]
        exact ⟨_, _, rfl, allOrNothing_of_failed (by simp)⟩
      · rw [standardWritten_of_not_refused hrefused, hblocks, writtenFlags_of_missing hall]
        exact ⟨_, _, rfl, allOrNothing_of_failed (by simp)⟩
    · rw [standardWritten_of_complete hcomplete]
      refine ⟨_, _, rfl, fun _ => ⟨keys, data, hcomplete, rfl⟩, fun h => ?_⟩
      exact absurd ((succeeded_flagsReply _ _).2 rfl) h

/-- A card with one service that anyone can write, and one block of it. -/
def oneBlock : FelicaData where
  idm := Vector.replicate 8 1
  pmm := Vector.replicate 8 0
  blocks := fun _ _ => 0
  systems := [⟨0x0003, 0, [⟨0x0009, 0x09, 0⟩], [], [⟨fun _ => 0, 0x0009, 0⟩]⟩]
  workflowType := .standard

def noCrypto : FelicaCrypto where
  calculateSessionKey ck _ := ck
  calculateMacRead _ _ _ _ := Vector.replicate 8 0
  calculateMacWrite _ _ _ _ := Vector.replicate 8 0

/-- The block is written. -/
def oneBlockFrame : List UInt8 :=
  [32, 8, 1, 1, 1, 1, 1, 1, 1, 1, 1, 9, 0, 1, 128, 0] ++ List.replicate 16 0xAA ++ [149, 151]

/-- The block is written, and one that is not there. -/
def missingBlockFrame : List UInt8 :=
  [50, 8, 1, 1, 1, 1, 1, 1, 1, 1, 1, 9, 0, 2, 128, 0, 128, 5] ++ List.replicate 16 0xAA ++
    List.replicate 16 0xBB ++ [80, 126]

set_option maxRecDepth 20000 in
theorem processed_missingBlockFrame :
    Processed (alloc oneBlock) missingBlockFrame (raw missingBlockFrame fun _ => 0) where
  crc := by decide
  length := by decide
  idm := by decide
  services := by decide

set_option maxRecDepth 20000 in
theorem complete_oneBlockFrame : Complete (alloc oneBlock).getCurrentSystem
    (request oneBlockFrame) [(0x0009, 0)] (List.replicate 16 0xAA) := by
  refine ⟨[0x0009], [(0, 0)], rfl, .cons ⟨rfl, rfl⟩ .nil, ?_, by simp⟩
  intro key hkey
  rw [List.mem_singleton] at hkey
  subst hkey
  exact ⟨⟨0x0003, 0, [⟨0x0009, 0x09, 0⟩], [], [⟨fun _ => 0, 0x0009, 0⟩]⟩, ⟨0x0009, 0x09, 0⟩, rfl,
    by decide, by decide, by decide, by decide⟩

/-- The write of the block is done. -/
theorem standardWrite_all_or_nothing_oneBlock :
    ∃ reply after, (alloc oneBlock).run noCrypto (.received (total oneBlockFrame fun _ => 0)) =
      .ok (reply, after) ∧ AllOrNothing (alloc oneBlock) oneBlockFrame reply after :=
  (standardWrite_all_or_nothing noCrypto (alloc oneBlock) oneBlockFrame (fun _ => 0) rfl rfl).2
    (.inr (.inr (.inr ⟨_, _, complete_oneBlockFrame⟩)))

set_option maxRecDepth 20000 in
/-- The answer is an error, and the first block has been written. -/
theorem not_standardWrite_all_or_nothing_missingBlock : ¬∀ (crypto : FelicaCrypto)
    (listener : FelicaListener) (frame : List UInt8) (behind : ℕ → UInt8),
    listener.data.workflowType = .standard →
    frame[1]? = some FELICA_CMD_WRITE_WITHOUT_ENCRYPTION →
    ∃ reply after, listener.run crypto (.received (total frame behind)) = .ok (reply, after) ∧
      AllOrNothing listener frame reply after := by
  intro h
  obtain ⟨reply, after, hrun, -, hfailed⟩ :=
    h noCrypto (alloc oneBlock) missingBlockFrame (fun _ => 0) rfl rfl
  rw [run_of_processed noCrypto rfl rfl processed_missingBlockFrame] at hrun
  have hpair := Except.ok.inj hrun
  obtain rfl : _ = reply := congrArg Prod.fst hpair
  obtain rfl : _ = after := congrArg Prod.snd hpair
  have hverdicts : (alloc oneBlock).verdicts (raw missingBlockFrame fun _ => 0) =
      [.target (0x0009, 0), .target (0x0009, 5)] := by
    rfl
  have hending : ¬∃ sf2, ending ((alloc oneBlock).verdicts (raw missingBlockFrame fun _ => 0)) =
      some (.refused sf2) := by
    rw [hverdicts]
    rintro ⟨sf2, h⟩
    cases h
  have hreply : ((alloc oneBlock).standardWritten (raw missingBlockFrame fun _ => 0)).1 =
      (alloc oneBlock).flagsReply (0xFF, 0xA8) := by
    rw [standardWritten_of_not_refused hending, hverdicts]
    rfl
  have hsame := hfailed (by
    rw [hreply, succeeded_flagsReply]
    decide)
  have hblock := congrArg (fun data : FelicaData =>
    data.systems.flatMap fun system => system.publicBlocks.map fun pb => pb.data 0) hsame
  exact absurd hblock (by decide)

end FelicaListener

end KiisuFirmware
