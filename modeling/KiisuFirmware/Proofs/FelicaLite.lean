import KiisuFirmware.FelicaListener

/-!
# What the memory configuration of an emulated FeliCa Lite card protects

A frame writes one block that its checks let through, perhaps with a checksum, and counts it, or it
leaves all blocks but that of the checksum as they are (`Effect`). The configuration in force changes
when the field is off only, and then it is at most stricter (`Restricts`).
-/

namespace KiisuFirmware

open Felica

/-! ## The law -/

namespace FelicaData

variable (data : FelicaData)

/-- The contents of a block, if there is one. -/
def block (number : UInt8) : FelicaBlockData :=
  (data.getBlock (felicaListenerGetBlockIndex number)).toOption.getD fun _ => 0

/-- The blocks that the memory configuration makes read-only. -/
def MarkedReadonly (number : UInt8) : Prop :=
  (number ≤ FELICA_BLOCK_INDEX_REG ∨ number = FELICA_BLOCK_INDEX_ID ∨
    number = FELICA_BLOCK_INDEX_SER_C ∨ number = FELICA_BLOCK_INDEX_CKV ∨
    number = FELICA_BLOCK_INDEX_CK) ∧ data.blockIsReadonly number = true

/-- The limit of the counter. -/
def wcntLimit : ℕ := if data.systemBlockRwAccess then 0x00FFFFFF else 0x00FFFE00

end FelicaData

/-- A bit of two bytes of a memory configuration. -/
def mcBit (mc : FelicaBlockData) (byteIndex : Fin 16) (bit : ℕ) : Bool :=
  ((mc byteIndex).toNat + 2 ^ 8 * (mc (byteIndex + 1)).toNat).testBit bit

/-- A configuration is at most stricter than another one: no block can be written again, and what is
required stays required, the checksum for the keys as long as system blocks can be written apart. -/
structure Restricts (before after : FelicaBlockData) : Prop where
  blocks : ∀ bit, mcBit after 0 bit = true → mcBit before 0 bit = true
  system : before 2 ≠ 0xFF → after 2 = before 2
  readAuth : ∀ bit, mcBit before 6 bit = true → mcBit after 6 bit = true
  writeAuth : ∀ bit, mcBit before 8 bit = true → mcBit after 8 bit = true
  mac : ∀ bit, mcBit before 10 bit = true → mcBit after 10 bit = true
  stateMac : mcBit before 12 0 = true → mcBit after 12 0 = true
  keyMac : before 2 ≠ 0xFF → mcBit before 5 0 = true → mcBit after 5 0 = true

namespace FelicaListener

/-- A write that is accepted, with or without the warning about its counter. -/
def Accepted (reply : FelicaReply) : Prop :=
  ∃ answer, reply = .sent answer ∧ answer.getD 1 0 = 0x09 ∧
    ((answer.getD 10 0 = 0 ∧ answer.getD 11 0 = 0) ∨
      (answer.getD 10 0 = 0xFF ∧ answer.getD 11 0 = 0x71))

/-- The frame carries a block, and the checksum of it and of the counter behind it. -/
def Verified (crypto : FelicaCrypto) (listener : FelicaListener) (rx : FelicaRx) : Prop :=
  listener.rcWritten = true ∧ ∃ ptr block wcnt, rx.block ptr = .ok block ∧
    rx.bytes (ptr + 24) 3 = .ok wcnt ∧ rx.bytes (ptr + 16) 8 =
      .ok (crypto.calculateMacWrite listener.sessionKey listener.data.rc wcnt block).toList

/-- The law of an event. -/
structure LiteLaw (crypto : FelicaCrypto) (before : FelicaListener) (event : Event)
    (reply : FelicaReply) (after : FelicaListener) : Prop where
  readonly : ∀ number, before.data.MarkedReadonly number →
    after.data.block number = before.data.block number
  auth : ∀ number, before.data.blockRequiresAuth 8 number = true →
    after.data.block number ≠ before.data.block number → before.external = true
  mac : ∀ number, before.data.blockRequiresMac number = true →
    after.data.block number ≠ before.data.block number →
    (event = .fieldOff ∧ number = FELICA_BLOCK_INDEX_STATE) ∨
      ∃ rx, event = .received rx ∧ Verified crypto before rx
  wcnt : ∀ rx, event = .received rx →
    (Accepted reply → after.data.wcnt =
      if before.data.wcnt < before.data.wcntLimit then before.data.wcnt + 1 else before.data.wcnt) ∧
    (¬Accepted reply → after.data.wcnt = before.data.wcnt)
  mc : ∀ rx, event = .received rx → after.data.mc = before.data.mc

/-! ## Numbers of blocks -/

end FelicaListener

open FelicaListener

theorem getMcBit_eq (data : FelicaData) (byteIndex : Fin 16) (bit : ℕ) :
    data.getMcBit byteIndex bit = mcBit data.mc byteIndex bit := rfl

theorem blockExists_iff {number : UInt8} : felicaBlockExists number = true ↔
    number.toNat ≤ 14 ∨ 128 ≤ number.toNat ∧ number.toNat ≤ 136 ∨
      144 ≤ number.toNat ∧ number.toNat ≤ 146 ∨ number.toNat = 160 := by
  unfold felicaBlockExists
  simp only [FELICA_BLOCK_INDEX_REG, FELICA_BLOCK_INDEX_RC, FELICA_BLOCK_INDEX_MC,
    FELICA_BLOCK_INDEX_WCNT, FELICA_BLOCK_INDEX_STATE, FELICA_BLOCK_INDEX_CRC_CHECK,
    Bool.not_eq_true', decide_eq_false_iff_not, UInt8.lt_iff_toNat_lt, UInt8.reduceToNat]
  omega

theorem toNat_getBlockIndex {number : UInt8} (h : felicaBlockExists number = true) :
    (felicaListenerGetBlockIndex number).toNat =
      if number.toNat ≤ 14 then number.toNat
      else if number.toNat ≤ 136 then number.toNat - 113
      else if number.toNat ≤ 146 then number.toNat - 120
      else 41 := by
  rw [blockExists_iff] at h
  unfold felicaListenerGetBlockIndex
  simp only [FELICA_BLOCK_INDEX_REG, FELICA_BLOCK_INDEX_RC, FELICA_BLOCK_INDEX_WCNT,
    FELICA_BLOCK_INDEX_STATE, FELICA_BLOCK_INDEX_CRC_CHECK, UInt8.lt_iff_toNat_lt,
    UInt8.le_iff_toNat_le, ← UInt8.toNat_inj, UInt8.reduceToNat]
  split_ifs
  all_goals first
    | omega
    | simp only [UInt8.toNat_add, UInt8.toNat_sub, UInt8.reduceToNat]
      omega

theorem getBlockIndex_inj {a b : UInt8} (ha : felicaBlockExists a = true)
    (hb : felicaBlockExists b = true)
    (h : felicaListenerGetBlockIndex a = felicaListenerGetBlockIndex b) : a = b := by
  have htoNat := congrArg UInt8.toNat h
  rw [toNat_getBlockIndex ha, toNat_getBlockIndex hb] at htoNat
  rw [blockExists_iff] at ha hb
  rw [← UInt8.toNat_inj]
  split_ifs at htoNat <;> omega

namespace FelicaData

variable {data : FelicaData}

theorem block_of_index {number : UInt8} {i : Fin 28}
    (h : (felicaListenerGetBlockIndex number).toNat = i.val) : data.block number = data.blocks i := by
  have hlt : (felicaListenerGetBlockIndex number).toNat < 28 := by omega
  have hi : (⟨(felicaListenerGetBlockIndex number).toNat, hlt⟩ : Fin 28) = i := Fin.ext h
  unfold block getBlock
  rw [dif_pos hlt, hi]
  rfl

theorem block_congr {data' : FelicaData} {number : UInt8}
    (h : ∀ i : Fin 28, (felicaListenerGetBlockIndex number).toNat = i.val →
      data'.blocks i = data.blocks i) : data'.block number = data.block number := by
  unfold block getBlock
  split_ifs with hlt
  · simp only [h ⟨_, hlt⟩ rfl]
  · rfl

theorem block_update_of_ne {number : UInt8} {i : Fin 28}
    (h : (felicaListenerGetBlockIndex number).toNat ≠ i.val) (contents : FelicaBlockData) :
    ({ data with blocks := Function.update data.blocks i contents } : FelicaData).block number =
      data.block number := by
  refine block_congr fun j hj => Function.update_of_ne ?_ _ _
  rintro rfl
  exact h hj

theorem block_mc : data.block FELICA_BLOCK_INDEX_MC = data.mc := block_of_index (by decide)

theorem block_wcnt : data.block FELICA_BLOCK_INDEX_WCNT = data.blocks 24 := block_of_index (by decide)

theorem setBlock_eq_ok {data' : FelicaData} {num : UInt8} {contents : FelicaBlockData}
    (h : data.setBlock num contents = .ok data') : ∃ i : Fin 28, num.toNat = i.val ∧
      data' = { data with blocks := Function.update data.blocks i contents } := by
  unfold setBlock at h
  split_ifs at h with hlt
  exact ⟨⟨num.toNat, hlt⟩, rfl, (Except.ok.inj h).symm⟩

end FelicaData

namespace FelicaListener

variable {crypto : FelicaCrypto} {listener after : FelicaListener}

/-! ## One block -/

/-- A block and nothing else is written, or the configuration to come. -/
def Wrote (before : FelicaListener) (number : UInt8) (block : FelicaBlockData)
    (after : FelicaListener) : Prop :=
  (number = FELICA_BLOCK_INDEX_MC ∧ after = before.handlerWriteMcBlock block) ∨
    (number ≠ FELICA_BLOCK_INDEX_MC ∧ after.mcShadow = before.mcShadow ∧
      ∃ (i : Fin 28) (contents : FelicaBlockData),
        (felicaListenerGetBlockIndex number).toNat = i.val ∧
        after.data = { before.data with blocks := Function.update before.data.blocks i contents })

theorem handlerWriteBlock_eq_ok {number : UInt8} {block : FelicaBlockData}
    (h : listener.handlerWriteBlock number block = .ok after) : after.mcShadow = listener.mcShadow ∧
      ∃ (i : Fin 28) (contents : FelicaBlockData),
        (felicaListenerGetBlockIndex number).toNat = i.val ∧ after.data =
          { listener.data with blocks := Function.update listener.data.blocks i contents } := by
  obtain ⟨data, hset, hafter⟩ := bind_eq_ok h
  obtain ⟨i, hi, hdata⟩ := FelicaData.setBlock_eq_ok hset
  rw [← Except.ok.inj hafter]
  exact ⟨rfl, i, block, hi, hdata⟩

theorem writeBlock_wrote {number : UInt8} {block : FelicaBlockData}
    (h : listener.writeBlock crypto number block = .ok after) :
    Wrote listener number block after := by
  unfold writeBlock at h
  split_ifs at h with hrc hreg hmc hstate hid
  · obtain ⟨next, hnext, hafter⟩ := bind_eq_ok h
    obtain ⟨hshadow, i, contents, hi, hdata⟩ := handlerWriteBlock_eq_ok hnext
    rw [← Except.ok.inj hafter]
    exact .inr ⟨by rw [hrc]; decide, hshadow, i, contents, hi, hdata⟩
  · rw [← Except.ok.inj h]
    exact .inr ⟨by rw [hreg]; decide, rfl, 14, _, by rw [hreg]; decide, rfl⟩
  · exact .inl ⟨hmc, (Except.ok.inj h).symm⟩
  · obtain ⟨next, hnext, hafter⟩ := bind_eq_ok h
    obtain ⟨hshadow, i, contents, hi, hdata⟩ := handlerWriteBlock_eq_ok hnext
    rw [← Except.ok.inj hafter]
    exact .inr ⟨by rw [hstate]; decide, hshadow, i, contents, hi, hdata⟩
  · rw [← Except.ok.inj h]
    exact .inr ⟨by rw [hid]; decide, rfl, 17, _, by rw [hid]; decide, rfl⟩
  · obtain ⟨hshadow, i, contents, hi, hdata⟩ := handlerWriteBlock_eq_ok h
    exact .inr ⟨hmc, hshadow, i, contents, hi, hdata⟩

theorem Wrote.block_eq {number other : UInt8} {block : FelicaBlockData}
    (h : Wrote listener number block after) (hnumber : felicaBlockExists number = true)
    (hother : felicaBlockExists other = true) (hne : other ≠ number) :
    after.data.block other = listener.data.block other := by
  rcases h with ⟨-, rfl⟩ | ⟨-, -, i, contents, hi, hdata⟩
  · rfl
  · rw [hdata]
    refine FelicaData.block_update_of_ne (fun heq => hne ?_) contents
    exact getBlockIndex_inj hother hnumber (UInt8.toNat_inj.1 (heq.trans hi.symm))

theorem Wrote.mc_eq {number : UInt8} {block : FelicaBlockData}
    (h : Wrote listener number block after) (hnumber : felicaBlockExists number = true) :
    after.data.mc = listener.data.mc := by
  by_cases hmc : number = FELICA_BLOCK_INDEX_MC
  · rcases h with ⟨-, rfl⟩ | ⟨hne, -⟩
    · rfl
    · exact absurd hmc hne
  · rw [← FelicaData.block_mc, ← FelicaData.block_mc]
    exact h.block_eq hnumber (by decide) fun heq => hmc heq.symm

theorem Wrote.workflowType_eq {number : UInt8} {block : FelicaBlockData}
    (h : Wrote listener number block after) :
    after.data.workflowType = listener.data.workflowType := by
  rcases h with ⟨-, rfl⟩ | ⟨-, -, i, contents, hi, hdata⟩
  · rfl
  · rw [hdata]

/-! ## The counter -/

theorem wcnt_setWcnt (data : FelicaData) {wcnt : ℕ} (h : wcnt < 2 ^ 32) :
    (data.setWcnt wcnt).wcnt = wcnt := by
  unfold FelicaData.wcnt FelicaData.setWcnt FelicaBlockData.number
  simp [List.ofFn_succ, Nat.ofDigits]
  omega

theorem wcntIncrement_eq_ok {data data' : FelicaData} (h : data.wcntIncrement = .ok data') :
    data'.wcnt = (if data.wcnt < data.wcntLimit then data.wcnt + 1 else data.wcnt) ∧
      (∀ i, i ≠ 24 → data'.blocks i = data.blocks i) ∧ data'.workflowType = data.workflowType := by
  obtain ⟨limit, hlimit, hdata⟩ := bind_eq_ok h
  have hmax : limit = data.wcntLimit := by
    unfold FelicaData.wcntGetMaxValue at hlimit
    split_ifs at hlimit <;> simp_all [FelicaData.wcntLimit]
  have hle : data.wcntLimit < 2 ^ 32 - 1 := by
    unfold FelicaData.wcntLimit
    split_ifs <;> norm_num
  rw [← Except.ok.inj hdata, hmax]
  split_ifs with hlt
  · exact ⟨wcnt_setWcnt data (by omega), fun i hi => Function.update_of_ne hi _ _, rfl⟩
  · exact ⟨rfl, fun _ _ => rfl, rfl⟩

/-! ## What a write is checked for -/

/-- What an element of a write has been checked for. -/
structure Checked (crypto : FelicaCrypto) (listener : FelicaListener) (rx : FelicaRx) (ptr : ℕ)
    (withMac : Bool) (i : ℕ) (number : UInt8) : Prop where
  exists' : felicaBlockExists number = true
  second : i = 1 → number = FELICA_BLOCK_INDEX_MAC_A
  readonly : listener.data.blockIsReadonly number = false
  mac : listener.data.blockRequiresMac number = true → withMac = true
  first : i = 0 → number ≠ FELICA_BLOCK_INDEX_MAC_A
  verified : i = 1 → Verified crypto listener rx
  auth : i = 0 → listener.data.blockRequiresAuth 8 number = true → listener.external = true

theorem validateWriteBlock_eq_none {rx : FelicaRx} {ptr i : ℕ} {withMac : Bool} {item : Option ℕ}
    (h : listener.validateWriteBlock crypto rx ptr withMac i item = .ok none) :
    ∃ element, rx.blockListElement item = .ok element ∧
      Checked crypto listener rx ptr withMac i element.blockNumber := by
  obtain ⟨element, helement, h⟩ := bind_eq_ok h
  refine ⟨element, helement, ?_⟩
  obtain ⟨valid, hvalid, h⟩ := bind_eq_ok h
  split_ifs at h with hexists hwritable hservice hmode hmac hauth
  · cases h
  · cases h
  · cases h
  · cases h
  · obtain ⟨mac, hmacBytes, h⟩ := bind_eq_ok h
    obtain ⟨wcnt, hwcnt, h⟩ := bind_eq_ok h
    obtain ⟨block, hblock, h⟩ := bind_eq_ok h
    dsimp only at h
    split_ifs at h with hcalculated
    · cases h
    · simp only [Bool.or_eq_true, Bool.not_eq_true', bne_iff_ne, not_or, ne_eq, not_not] at hcalculated
      obtain ⟨hwritten, rfl⟩ := hcalculated
      simp only [Bool.or_eq_true, Bool.and_eq_true, Bool.not_eq_true', decide_eq_true_eq, not_or,
        not_and, Bool.not_eq_false] at hexists hwritable
      exact ⟨hexists.1.2, fun _ => hmac.2, Bool.eq_false_of_not_eq_true hwritable.1.1,
        hwritable.1.2, hwritable.2,
        fun _ => ⟨by simpa using hwritten, ptr, block, wcnt, hblock, hwcnt, hmacBytes⟩,
        fun hi => absurd (hmac.1.symm.trans hi) one_ne_zero⟩
  · cases h
  · simp only [Bool.or_eq_true, Bool.and_eq_true, Bool.not_eq_true', decide_eq_true_eq, not_or,
      not_and, Bool.not_eq_false, ne_eq, not_not] at hexists hwritable hauth hmac
    exact ⟨hexists.1.2, hexists.2, Bool.eq_false_of_not_eq_true hwritable.1.1,
        hwritable.1.2, hwritable.2,
      fun hi => absurd (hexists.2 hi) (hmac hi), fun _ => hauth⟩

theorem validateWriteBlock_eq_some {rx : FelicaRx} {ptr i : ℕ} {withMac : Bool} {item : Option ℕ}
    {flags : FelicaFlags}
    (h : listener.validateWriteBlock crypto rx ptr withMac i item = .ok (some flags)) :
    flags ≠ (0, 0) ∧ flags ≠ (0xFF, 0x71) := by
  obtain ⟨element, helement, h⟩ := bind_eq_ok h
  obtain ⟨valid, hvalid, h⟩ := bind_eq_ok h
  split_ifs at h with hexists hwritable hservice hmode hmac hauth
  · cases h
    simp
  · cases h
    simp
  · cases h
    simp
  · cases h
    simp
  · obtain ⟨mac, hmacBytes, h⟩ := bind_eq_ok h
    obtain ⟨wcnt, hwcnt, h⟩ := bind_eq_ok h
    obtain ⟨block, hblock, h⟩ := bind_eq_ok h
    dsimp only at h
    split_ifs at h with hcalculated
    · cases h
      simp
    · obtain ⟨belowLimit, hlimit, h⟩ := bind_eq_ok h
      rcases belowLimit with _ | _
      · cases h
        simp
      · cases h
  · cases h
    simp
  · cases h

/-- The elements of a write that is let through. -/
structure Writing (crypto : FelicaCrypto) (listener : FelicaListener) (rx : FelicaRx) (ptr : ℕ)
    (blockCount : UInt8) (item : Option ℕ) (requestSizeBuf : UInt8) (number : UInt8) : Prop where
  count : blockCount = 1 ∨ blockCount = 2
  element : ∃ element, rx.blockListElement item = .ok element ∧ element.blockNumber = number
  checked : ∃ withMac, Checked crypto listener rx ptr withMac 0 number ∧
    (withMac = true → Verified crypto listener rx)
  second : blockCount = 2 → ∃ second requestSizeBuf' element,
    rx.blockListItemGetNext item requestSizeBuf = .ok (second, requestSizeBuf') ∧
      rx.blockListElement second = .ok element ∧ element.blockNumber = FELICA_BLOCK_INDEX_MAC_A

theorem writeWithMac_eq_true {rx : FelicaRx} {blockCount : UInt8} {second : Option ℕ}
    (h : writeWithMac rx blockCount second = .ok true) : blockCount = 2 := by
  unfold writeWithMac at h
  split_ifs at h with hcount
  · exact hcount
  · cases h

theorem validateWriteBlockList_eq_none {rx : FelicaRx} {ptr : ℕ}
    (h : listener.validateWriteBlockList crypto rx ptr = .ok none) :
    ∃ item requestSizeBuf blockCount number,
      rx.blockListItemGetFirst = .ok (item, requestSizeBuf) ∧ rx.blockCount = .ok blockCount ∧
        Writing crypto listener rx ptr blockCount item requestSizeBuf number := by
  obtain ⟨⟨first, requestSizeBuf⟩, hfirst, h⟩ := bind_eq_ok h
  obtain ⟨⟨second, requestSizeBuf'⟩, hsecond, h⟩ := bind_eq_ok h
  obtain ⟨blockCount, hcount, h⟩ := bind_eq_ok h
  obtain ⟨withMac, hwithMac, h⟩ := bind_eq_ok h
  split_ifs at h with hbounds
  · cases h
  · have hcount' : blockCount = 1 ∨ blockCount = 2 := by
      rcases withMac with _ | _
      · simp only [Bool.not_false, Bool.true_and, Bool.or_eq_true, decide_eq_true_eq, not_or,
          UInt8.not_lt, UInt8.le_iff_toNat_le, UInt8.reduceToNat] at hbounds
        simp only [← UInt8.toNat_inj, UInt8.reduceToNat]
        omega
      · exact .inr (writeWithMac_eq_true hwithMac)
    obtain ⟨flags, hflags, h⟩ := bind_eq_ok h
    split_ifs at h with htwo
    · simp only [Bool.and_eq_true, Option.isNone_iff_eq_none, decide_eq_true_eq] at htwo
      obtain ⟨rfl, htwo⟩ := htwo
      obtain ⟨element, helement, hchecked⟩ := validateWriteBlock_eq_none hflags
      obtain ⟨element', helement', hchecked'⟩ := validateWriteBlock_eq_none h
      exact ⟨first, requestSizeBuf, blockCount, element.blockNumber, hfirst, hcount, hcount',
        ⟨element, helement, rfl⟩, ⟨withMac, hchecked, fun _ => hchecked'.verified rfl⟩,
        fun _ => ⟨second, requestSizeBuf', element', hsecond, helement', hchecked'.second rfl⟩⟩
    · obtain rfl : flags = none := Except.ok.inj h
      have hne : blockCount ≠ 2 := fun htwo' => htwo (by simp [htwo'])
      obtain ⟨element, helement, hchecked⟩ := validateWriteBlock_eq_none hflags
      refine ⟨first, requestSizeBuf, blockCount, element.blockNumber, hfirst, hcount, hcount',
        ⟨element, helement, rfl⟩, ⟨withMac, hchecked, ?_⟩, fun htwo' => absurd htwo' hne⟩
      rintro rfl
      exact absurd (writeWithMac_eq_true hwithMac) hne

theorem validateWriteBlockList_eq_some {rx : FelicaRx} {ptr : ℕ} {flags : FelicaFlags}
    (h : listener.validateWriteBlockList crypto rx ptr = .ok (some flags)) :
    flags ≠ (0, 0) ∧ flags ≠ (0xFF, 0x71) := by
  obtain ⟨⟨first, requestSizeBuf⟩, hfirst, h⟩ := bind_eq_ok h
  obtain ⟨⟨second, requestSizeBuf'⟩, hsecond, h⟩ := bind_eq_ok h
  obtain ⟨blockCount, hcount, h⟩ := bind_eq_ok h
  obtain ⟨withMac, hwithMac, h⟩ := bind_eq_ok h
  split_ifs at h with hbounds
  · cases h
    simp
  · obtain ⟨flags', hflags, h⟩ := bind_eq_ok h
    split_ifs at h with htwo
    · exact validateWriteBlock_eq_some h
    · obtain rfl : flags' = some flags := Except.ok.inj h
      exact validateWriteBlock_eq_some hflags

theorem validateWriteRequest_eq_ok {rx : FelicaRx} {ptr : ℕ} {valid : Bool} {flags : FelicaFlags}
    (h : listener.validateWriteRequest crypto rx ptr = .ok (valid, flags)) :
    (valid = true ∧ (flags = (0, 0) ∨ flags = (0xFF, 0x71)) ∧
        listener.validateWriteBlockList crypto rx ptr = .ok none) ∨
      (valid = false ∧ flags ≠ (0, 0) ∧ flags ≠ (0xFF, 0x71)) := by
  obtain ⟨serviceNum, hnum, h⟩ := bind_eq_ok h
  by_cases hservices : serviceNum ≠ 0x01
  · rw [if_pos hservices] at h
    cases h
    exact .inr ⟨rfl, by simp⟩
  rw [if_neg hservices] at h
  obtain ⟨blockCount, hcount, h⟩ := bind_eq_ok h
  by_cases hblocks : blockCount < 1 ∨ 2 < blockCount
  · rw [if_pos hblocks] at h
    cases h
    exact .inr ⟨rfl, by simp⟩
  rw [if_neg hblocks] at h
  obtain ⟨serviceCode, hcode, h⟩ := bind_eq_ok h
  by_cases haccess : serviceCode ≠ FELICA_SERVICE_RW_ACCESS
  · rw [if_pos haccess] at h
    cases h
    exact .inr ⟨rfl, by simp⟩
  rw [if_neg haccess] at h
  obtain ⟨_ | flags', hflags, h⟩ := bind_eq_ok h
  · cases h
    refine .inl ⟨rfl, ?_, hflags⟩
    split_ifs
    · exact .inr rfl
    · exact .inl rfl
  · cases h
    exact .inr ⟨rfl, validateWriteBlockList_eq_some hflags⟩

/-- What an accepted write does: one block is written, then perhaps that of the checksum, and the
counter goes on. -/
structure Done (crypto : FelicaCrypto) (before : FelicaListener) (rx : FelicaRx)
    (after : FelicaListener) : Prop where
  done : ∃ ptr withMac number block next next', Checked crypto before rx ptr withMac 0 number ∧
    (withMac = true → Verified crypto before rx) ∧ Wrote before number block next ∧
    (next' = next ∨ ∃ block', Wrote next FELICA_BLOCK_INDEX_MAC_A block' next') ∧
    ∃ data, next'.data.wcntIncrement = .ok data ∧ after = next'.setData data

theorem writeRequested_done {rx : FelicaRx} {ptr : ℕ}
    (hlist : listener.validateWriteBlockList crypto rx ptr = .ok none)
    (h : listener.writeRequested crypto rx ptr = .ok after) : Done crypto listener rx after := by
  obtain ⟨item, requestSizeBuf, blockCount, number, hfirst, hcount, hwriting⟩ :=
    validateWriteBlockList_eq_none hlist
  obtain ⟨⟨item', requestSizeBuf'⟩, hfirst', h₁⟩ := bind_eq_ok h
  rw [hfirst] at hfirst'
  cases hfirst'
  obtain ⟨blockCount', hcount', h₂⟩ := bind_eq_ok h₁
  rw [hcount] at hcount'
  cases hcount'
  obtain ⟨next', hblocks, h₃⟩ := bind_eq_ok h₂
  obtain ⟨data, hincrement, h₄⟩ := bind_eq_ok h₃
  obtain ⟨element, helement, rfl⟩ := hwriting.element
  obtain ⟨withMac, hchecked, hverified⟩ := hwriting.checked
  have hafter := (Except.ok.inj h₄).symm
  have hrange : ∃ is, List.range blockCount.toNat = 0 :: is ∧
      (is = [] ∨ blockCount = 2 ∧ is = [1]) := by
    rcases hwriting.count with rfl | rfl
    · exact ⟨[], rfl, .inl rfl⟩
    · exact ⟨[1], rfl, .inr ⟨rfl, rfl⟩⟩
  obtain ⟨is, his, hcases⟩ := hrange
  rw [his] at hblocks
  obtain ⟨element', helement', h₅⟩ := bind_eq_ok hblocks
  rw [helement] at helement'
  cases helement'
  obtain ⟨block, hblock, h₆⟩ := bind_eq_ok h₅
  obtain ⟨next, hnext, h₇⟩ := bind_eq_ok h₆
  obtain ⟨⟨second, buf⟩, hsecond, h₈⟩ := bind_eq_ok h₇
  refine ⟨ptr, withMac, element.blockNumber, block, next, next', hchecked, hverified,
    writeBlock_wrote hnext, ?_, data, hincrement, hafter⟩
  rcases hcases with rfl | ⟨htwo, rfl⟩
  · exact .inl (Except.ok.inj h₈).symm
  · obtain ⟨second', buf', macElement, hsecond', hmacElement, hmac⟩ := hwriting.second htwo
    rw [hsecond] at hsecond'
    cases hsecond'
    obtain ⟨element₂, helement₂, h₉⟩ := bind_eq_ok h₈
    rw [hmacElement] at helement₂
    cases helement₂
    obtain ⟨block', hblock', h₁₀⟩ := bind_eq_ok h₉
    obtain ⟨last, hlast, h₁₁⟩ := bind_eq_ok h₁₀
    obtain ⟨⟨third, buf₃⟩, hthird, h₁₂⟩ := bind_eq_ok h₁₁
    obtain rfl : last = next' := Except.ok.inj h₁₂
    rw [hmac] at hlast
    exact .inr ⟨block', writeBlock_wrote hlast⟩

/-! ## Frames that write nothing -/

/-- All blocks but that of the checksum are kept, and what is to come into force. -/
structure Kept (before after : FelicaListener) : Prop where
  mcShadow : after.mcShadow = before.mcShadow
  workflowType : after.data.workflowType = before.data.workflowType
  blocks : ∀ i, i ≠ 25 → after.data.blocks i = before.data.blocks i

theorem Kept.refl (listener : FelicaListener) : Kept listener listener :=
  ⟨rfl, rfl, fun _ _ => rfl⟩

theorem Kept.trans {a b c : FelicaListener} (hab : Kept a b) (hbc : Kept b c) : Kept a c where
  mcShadow := hbc.mcShadow.trans hab.mcShadow
  workflowType := hbc.workflowType.trans hab.workflowType
  blocks i hi := (hbc.blocks i hi).trans (hab.blocks i hi)

theorem Kept.of_same {a a' b : FelicaListener} (h : Kept a' b) (hdata : a'.data = a.data)
    (hshadow : a'.mcShadow = a.mcShadow) : Kept a b where
  mcShadow := h.mcShadow.trans hshadow
  workflowType := h.workflowType.trans (congrArg FelicaData.workflowType hdata)
  blocks i hi := (h.blocks i hi).trans (congrArg (fun data => data.blocks i) hdata)

theorem handlerReadBlock_kept {number : UInt8} {data data' : List UInt8}
    (h : listener.handlerReadBlock number data = .ok (data', after)) : after = listener := by
  obtain ⟨block, hblock, h⟩ := bind_eq_ok h
  cases h
  rfl

theorem handlerReadMacABlock_kept {number : UInt8} {i blockCount : ℕ} {data data' : List UInt8}
    (h : listener.handlerReadMacABlock crypto number i blockCount data = .ok (data', after)) :
    Kept listener after := by
  unfold handlerReadMacABlock at h
  split_ifs at h
  · cases h
    exact ⟨rfl, rfl, fun _ _ => rfl⟩
  · dsimp only at h
    split_ifs at h
    rw [handlerReadBlock_kept h]
    exact ⟨rfl, rfl, fun i hi => Function.update_of_ne hi _ _⟩

theorem readBlocks_kept {rx : FelicaRx} {blockCount : ℕ} :
    ∀ (is : List ℕ) {item : Option ℕ} {requestSizeBuf : UInt8} {listener after : FelicaListener}
      {data data' : List UInt8},
      readBlocks crypto rx blockCount is item requestSizeBuf listener data = .ok (data', after) →
        Kept listener after
  | [], _, _, listener, _, _, _, h => by
    cases h
    exact Kept.refl _
  | i :: is, item, requestSizeBuf, listener, after, data, data', h => by
    obtain ⟨element, helement, h⟩ := bind_eq_ok h
    obtain ⟨⟨data₁, next⟩, hnext, h⟩ := bind_eq_ok h
    obtain ⟨⟨item', requestSizeBuf'⟩, hitem, h⟩ := bind_eq_ok h
    have hkept : Kept listener next := by
      unfold readBlock at hnext
      split_ifs at hnext
      · cases hnext
        exact ⟨rfl, rfl, fun _ _ => rfl⟩
      · exact (handlerReadMacABlock_kept hnext).of_same rfl rfl
      · rw [handlerReadBlock_kept hnext]
        exact ⟨rfl, rfl, fun _ _ => rfl⟩
    exact hkept.trans (readBlocks_kept is h)

theorem frameExchange_eq_ok {tx : List UInt8} {reply : FelicaReply}
    (h : felicaListenerFrameExchange tx = .ok reply) : reply = .sent (tx ++ felicaCrc tx) := by
  unfold felicaListenerFrameExchange at h
  split_ifs at h
  exact (Except.ok.inj h).symm

theorem not_accepted_of_code {first code : UInt8} {tx : List UInt8} {reply : FelicaReply}
    (h : felicaListenerFrameExchange (first :: code :: tx) = .ok reply) (hcode : code ≠ 0x09) :
    ¬Accepted reply := by
  rintro ⟨answer, hanswer, hnine, -⟩
  rw [frameExchange_eq_ok h] at hanswer
  cases hanswer
  exact hcode hnine

theorem not_accepted_silent : ¬Accepted .silent := by
  rintro ⟨answer, h, -⟩
  cases h

theorem not_accepted_reset : ¬Accepted .reset := by
  rintro ⟨answer, h, -⟩
  cases h

theorem commandHandlerRead_kept {rx : FelicaRx} {reply : FelicaReply}
    (h : listener.commandHandlerRead crypto rx = .ok (reply, after)) :
    ¬Accepted reply ∧ Kept listener after := by
  obtain ⟨idm, hidm, h⟩ := bind_eq_ok h
  obtain ⟨flags, hflags, h⟩ := bind_eq_ok h
  obtain ⟨blockCount, hcount, h⟩ := bind_eq_ok h
  obtain ⟨⟨item, requestSizeBuf⟩, hitem, h⟩ := bind_eq_ok h
  obtain ⟨⟨data, next⟩, hblocks, h⟩ := bind_eq_ok h
  obtain ⟨reply', hreply, h⟩ := bind_eq_ok h
  cases h
  have hkept := readBlocks_kept _ hblocks
  exact ⟨not_accepted_of_code hreply (by decide), hkept.of_same rfl rfl⟩

theorem answer_kept {first code : UInt8} {tx : List UInt8} {reply : FelicaReply}
    (h : (do
      let reply ← felicaListenerFrameExchange (first :: code :: tx)
      return (reply, listener)) = (.ok (reply, after) : Handled)) (hcode : code ≠ 0x09) :
    ¬Accepted reply ∧ Kept listener after := by
  obtain ⟨reply', hreply, h⟩ := bind_eq_ok h
  cases h
  exact ⟨not_accepted_of_code hreply hcode, Kept.refl _⟩

theorem length_of_bytes {rx : FelicaRx} : ∀ {n i : ℕ} {bytes : List UInt8},
    rx.bytes i n = .ok bytes → bytes.length = n
  | 0, i, bytes, h => by
    cases h
    rfl
  | n + 1, i, bytes, h => by
    obtain ⟨byte, hbyte, h⟩ := bind_eq_ok h
    obtain ⟨rest, hrest, h⟩ := bind_eq_ok h
    cases h
    rw [List.length_cons, length_of_bytes hrest]

theorem accepted_of_flags {idm : List UInt8} (hidm : idm.length = 8) {sf1 sf2 : UInt8}
    {reply : FelicaReply}
    (h : felicaListenerFrameExchange ([12, 0x09] ++ idm ++ [sf1, sf2]) = .ok reply) :
    Accepted reply ↔ (sf1, sf2) = (0, 0) ∨ (sf1, sf2) = (0xFF, 0x71) := by
  have h10 : (([12, 0x09] ++ idm ++ [sf1, sf2] ++
      felicaCrc ([12, 0x09] ++ idm ++ [sf1, sf2])).getD 10 0 : UInt8) = sf1 := by
    simp [List.getD_eq_getElem?_getD, hidm]
  have h11 : (([12, 0x09] ++ idm ++ [sf1, sf2] ++
      felicaCrc ([12, 0x09] ++ idm ++ [sf1, sf2])).getD 11 0 : UInt8) = sf2 := by
    simp [List.getD_eq_getElem?_getD, List.getElem?_append, hidm]
  rw [frameExchange_eq_ok h]
  constructor
  · rintro ⟨answer, hanswer, -, hflags⟩
    cases hanswer
    rw [h10, h11] at hflags
    simpa using hflags
  · intro hflags
    refine ⟨_, rfl, rfl, ?_⟩
    rw [h10, h11]
    simpa using hflags

/-- What a frame does. -/
inductive Effect (crypto : FelicaCrypto) (before : FelicaListener) (rx : FelicaRx) :
    FelicaReply → FelicaListener → Prop
  | kept {reply : FelicaReply} {after : FelicaListener} (hreply : ¬Accepted reply)
      (hkept : Kept before after) : Effect crypto before rx reply after
  | written {reply : FelicaReply} {after : FelicaListener} (hreply : Accepted reply)
      (hdone : Done crypto before rx after) : Effect crypto before rx reply after

theorem commandHandlerWrite_effect {rx : FelicaRx} {blockListSize : UInt8} {reply : FelicaReply}
    (h : listener.commandHandlerWrite crypto rx blockListSize = .ok (reply, after)) :
    Effect crypto listener rx reply after := by
  obtain ⟨idm, hidm, h₁⟩ := bind_eq_ok h
  obtain ⟨⟨valid, sf1, sf2⟩, hvalid, h₂⟩ := bind_eq_ok h₁
  have hlength := length_of_bytes hidm
  rcases validateWriteRequest_eq_ok hvalid with ⟨rfl, hflags, hlist⟩ | ⟨rfl, hne, hne'⟩
  · obtain ⟨next, hnext, h₃⟩ := bind_eq_ok h₂
    obtain ⟨reply', hreply, h₄⟩ := bind_eq_ok h₃
    cases h₄
    exact .written ((accepted_of_flags hlength hreply).2 hflags) (writeRequested_done hlist hnext)
  · obtain ⟨next, hnext, h₃⟩ := bind_eq_ok h₂
    cases hnext
    obtain ⟨reply', hreply, h₄⟩ := bind_eq_ok h₃
    cases h₄
    refine .kept (fun haccepted => ?_) (Kept.refl _)
    rcases (accepted_of_flags hlength hreply).1 haccepted with heq | heq
    · exact hne heq
    · exact hne' heq

theorem processRequest_effect (hlite : listener.data.workflowType ≠ .standard) {rx : FelicaRx}
    {blockListSize : UInt8} {reply : FelicaReply}
    (h : listener.processRequest crypto rx blockListSize = .ok (reply, after)) :
    Effect crypto listener rx reply after := by
  obtain ⟨code, hcode, h⟩ := bind_eq_ok h
  simp only [hlite, if_false] at h
  split_ifs at h
  · obtain ⟨hreply, hkept⟩ := answer_kept h (by decide)
    exact .kept hreply hkept
  · obtain ⟨requested, hrequested, h⟩ := bind_eq_ok h
    obtain ⟨codes, hcodes, h⟩ := bind_eq_ok h
    obtain ⟨hreply, hkept⟩ := answer_kept h (by decide)
    exact .kept hreply hkept
  · obtain ⟨hreply, hkept⟩ := commandHandlerRead_kept h
    exact .kept hreply hkept
  · exact commandHandlerWrite_effect h
  · obtain ⟨counter, hcounter, h⟩ := bind_eq_ok h
    obtain ⟨hreply, hkept⟩ := answer_kept h (by decide)
    exact .kept hreply hkept
  · obtain ⟨hreply, hkept⟩ := answer_kept h (by decide)
    exact .kept hreply hkept
  · cases h
    exact .kept not_accepted_silent (Kept.refl _)

theorem processSystemCode_kept {rx : FelicaRx} {requested : UInt16} {reply : FelicaReply}
    (h : listener.processSystemCode rx requested = .ok (reply, after)) :
    ¬Accepted reply ∧ Kept listener after := by
  unfold processSystemCode at h
  dsimp only at h
  split_ifs at h
  · cases h
    exact ⟨not_accepted_reset, Kept.refl _⟩
  · obtain ⟨requestCode, hrequestCode, h⟩ := bind_eq_ok h
    obtain ⟨hreply, hkept⟩ := answer_kept h (by decide)
    exact ⟨hreply, hkept.of_same rfl rfl⟩

theorem received_effect (hlite : listener.data.workflowType ≠ .standard) {rx : FelicaRx}
    {reply : FelicaReply} (h : listener.received crypto rx = .ok (reply, after)) :
    Effect crypto listener rx reply after := by
  have hsilent : ∀ {result : FelicaReply × FelicaListener}, result = (.silent, listener) →
      Effect crypto listener rx result.1 result.2 := by
    rintro _ rfl
    exact .kept not_accepted_silent (Kept.refl _)
  unfold received at h
  by_cases hcrc : (!felicaCrcCheck rx.frame) = true
  · rw [if_pos hcrc] at h
    exact hsilent (Except.ok.inj h).symm
  rw [if_neg hcrc] at h
  obtain ⟨length, hlength, h⟩ := bind_eq_ok h
  by_cases hsize : length ≠ UInt8.ofNat (rx.frame.length - 2)
  · rw [if_pos hsize] at h
    exact hsilent (Except.ok.inj h).symm
  rw [if_neg hsize] at h
  obtain ⟨⟨valid, blockListSize⟩, hlist, h⟩ := bind_eq_ok h
  dsimp only at h
  by_cases hvalid : (!valid) = true
  · rw [if_pos hvalid] at h
    exact hsilent (Except.ok.inj h).symm
  rw [if_neg hvalid] at h
  obtain ⟨code, hcode, h⟩ := bind_eq_ok h
  by_cases hpolling : code = 0x00
  · rw [if_pos hpolling] at h
    obtain ⟨requested, hrequested, h⟩ := bind_eq_ok h
    split_ifs at h
    · obtain ⟨hreply, hkept⟩ := processSystemCode_kept h
      exact .kept hreply hkept
    · exact hsilent (Except.ok.inj h).symm
  rw [if_neg hpolling] at h
  obtain ⟨same, hsame, h⟩ := bind_eq_ok h
  split_ifs at h
  · exact processRequest_effect hlite h
  · exact hsilent (Except.ok.inj h).symm

end FelicaListener

/-! ## Stricter configurations -/

theorem mcBit_eq (mc : FelicaBlockData) (i : Fin 16) (bit : ℕ) : mcBit mc i bit =
    if bit < 8 then (mc i).toNat.testBit bit else (mc (i + 1)).toNat.testBit (bit - 8) := by
  unfold mcBit
  rw [Nat.add_comm, Nat.testBit_two_pow_mul_add _ (mc i).toNat_lt]

theorem mcBit_or {before after : FelicaBlockData} {i : Fin 16}
    (h : ∀ j, j = i ∨ j = i + 1 → ∃ block, after j = before j ||| block) (bit : ℕ)
    (hbit : mcBit before i bit = true) : mcBit after i bit = true := by
  obtain ⟨first, hfirst⟩ := h i (.inl rfl)
  obtain ⟨second, hsecond⟩ := h (i + 1) (.inr rfl)
  rw [mcBit_eq] at hbit ⊢
  rw [hfirst, hsecond, UInt8.toNat_or, UInt8.toNat_or, Nat.testBit_or, Nat.testBit_or]
  split_ifs at hbit ⊢
  · rw [hbit, Bool.true_or]
  · rw [hbit, Bool.true_or]

theorem mcBit_and {before after : FelicaBlockData} {i : Fin 16}
    (h : ∀ j, j = i ∨ j = i + 1 → ∃ block, after j = before j &&& block) (bit : ℕ)
    (hbit : mcBit after i bit = true) : mcBit before i bit = true := by
  obtain ⟨first, hfirst⟩ := h i (.inl rfl)
  obtain ⟨second, hsecond⟩ := h (i + 1) (.inr rfl)
  rw [mcBit_eq] at hbit ⊢
  rw [hfirst, hsecond, UInt8.toNat_and, UInt8.toNat_and, Nat.testBit_and, Nat.testBit_and] at hbit
  split_ifs at hbit ⊢
  · exact Bool.and_elim_left hbit
  · exact Bool.and_elim_left hbit

namespace Restricts

variable {a b c : FelicaBlockData}

theorem refl (mc : FelicaBlockData) : Restricts mc mc :=
  ⟨fun _ h => h, fun _ => rfl, fun _ h => h, fun _ h => h, fun _ h => h, fun h => h, fun _ h => h⟩

theorem trans (hab : Restricts a b) (hbc : Restricts b c) : Restricts a c where
  blocks bit h := hab.blocks bit (hbc.blocks bit h)
  system h := by
    have hsame := hab.system h
    rw [← hsame] at h
    exact (hbc.system h).trans hsame
  readAuth bit h := hbc.readAuth bit (hab.readAuth bit h)
  writeAuth bit h := hbc.writeAuth bit (hab.writeAuth bit h)
  mac bit h := hbc.mac bit (hab.mac bit h)
  stateMac h := hbc.stateMac (hab.stateMac h)
  keyMac h hbit := by
    have hkey := hab.keyMac h hbit
    rw [← hab.system h] at h
    exact hbc.keyMac h hkey

theorem markedReadonly {data data' : FelicaData} (h : Restricts data.mc data'.mc) {number : UInt8}
    (hmarked : data.MarkedReadonly number) : data'.MarkedReadonly number := by
  refine ⟨hmarked.1, ?_⟩
  have hreadonly := hmarked.2
  unfold FelicaData.blockIsReadonly at hreadonly ⊢
  simp only [getMcBit_eq] at hreadonly ⊢
  split_ifs at hreadonly ⊢ with hreg hsystem
  · rw [Bool.not_eq_true'] at hreadonly ⊢
    refine Bool.eq_false_of_not_eq_true fun hbit => ?_
    rw [h.blocks _ hbit] at hreadonly
    cases hreadonly
  · unfold FelicaData.systemBlockRoAccess at hreadonly ⊢
    rw [decide_eq_true_eq] at hreadonly ⊢
    rw [h.system (by rw [hreadonly]; decide), hreadonly]
  · exact hreadonly

end Restricts

namespace FelicaListener

variable {crypto : FelicaCrypto} {listener after : FelicaListener}

theorem handlerWriteMcBlock_restricts (h : Restricts listener.data.mc listener.mcShadow)
    (block : FelicaBlockData) :
    Restricts listener.data.mc (listener.handlerWriteMcBlock block).mcShadow := by
  have hand : ∀ j : Fin 16, j = 0 ∨ j = 0 + 1 → ∃ other,
      (listener.handlerWriteMcBlock block).mcShadow j = listener.mcShadow j &&& other := by
    intro j hj
    have hle : j.val ≤ 1 := by rcases hj with rfl | rfl <;> decide
    unfold handlerWriteMcBlock
    by_cases hbits : listener.data.getMcBit 0 15 = true
    · refine ⟨block j, ?_⟩
      simp only [hbits]
      rw [if_pos (by simpa using hle)]
    · refine ⟨listener.mcShadow j, ?_⟩
      simp only [hbits]
      rw [if_neg (by simp), if_neg (by omega), if_neg (by simp), if_neg (by omega), UInt8.and_self]
  have hor : ∀ j : Fin 16, 6 ≤ j.val → j.val ≤ 12 → ∃ other,
      (listener.handlerWriteMcBlock block).mcShadow j = listener.mcShadow j ||| other := by
    intro j hlow hhigh
    unfold handlerWriteMcBlock
    by_cases hbits : listener.data.getMcBit 0 15 = true
    · refine ⟨block j, ?_⟩
      simp only [hbits]
      rw [if_neg (by omega), if_neg (by omega), if_pos (by simpa using ⟨hlow, hhigh⟩)]
    · refine ⟨0, ?_⟩
      simp only [hbits]
      rw [if_neg (by simp), if_neg (by omega), if_neg (by simp), if_neg (by omega)]
      simp
  have hkeep : listener.data.mc 2 ≠ 0xFF → ∀ j : Fin 16, 2 ≤ j.val → j.val ≤ 5 →
      (listener.handlerWriteMcBlock block).mcShadow j = listener.mcShadow j := by
    intro hne j hlow hhigh
    unfold handlerWriteMcBlock FelicaData.systemBlockRwAccess
    dsimp only
    rw [if_neg (by omega), if_neg (by simp [hne]), if_neg (by omega), if_neg (by omega)]
  exact {
    blocks := fun bit hbit => h.blocks bit (mcBit_and hand bit hbit)
    system := fun hne => (hkeep hne 2 (by decide) (by decide)).trans (h.system hne)
    readAuth := fun bit hbit => mcBit_or (fun j hj => hor j (by rcases hj with rfl | rfl <;> decide)
      (by rcases hj with rfl | rfl <;> decide)) bit (h.readAuth bit hbit)
    writeAuth := fun bit hbit => mcBit_or (fun j hj => hor j (by rcases hj with rfl | rfl <;> decide)
      (by rcases hj with rfl | rfl <;> decide)) bit (h.writeAuth bit hbit)
    mac := fun bit hbit => mcBit_or (fun j hj => hor j (by rcases hj with rfl | rfl <;> decide)
      (by rcases hj with rfl | rfl <;> decide)) bit (h.mac bit hbit)
    stateMac := fun hbit => by
      have hshadow := h.stateMac hbit
      obtain ⟨other, hother⟩ := hor 12 (by decide) (by decide)
      rw [mcBit_eq, if_pos (by decide)] at hshadow ⊢
      rw [hother, UInt8.toNat_or, Nat.testBit_or, hshadow, Bool.true_or]
    keyMac := fun hne hbit => by
      have hshadow := h.keyMac hne hbit
      rw [mcBit_eq, if_pos (by decide)] at hshadow ⊢
      rwa [hkeep hne 5 (by decide) (by decide)] }

/-! ## The law of every event -/

/-- The blocks that a configuration can protect. -/
def Guarded (number : UInt8) : Prop :=
  number.toNat ≤ 14 ∨ number.toNat = 130 ∨ number.toNat = 132 ∨ number.toNat = 134 ∨
    number.toNat = 135 ∨ number.toNat = 146

theorem Guarded.exists' {number : UInt8} (h : Guarded number) : felicaBlockExists number = true := by
  unfold Guarded at h
  rw [blockExists_iff]
  omega

theorem Guarded.index {number : UInt8} (h : Guarded number) :
    (felicaListenerGetBlockIndex number).toNat < 23 ∨ number = FELICA_BLOCK_INDEX_STATE ∧
      (felicaListenerGetBlockIndex number).toNat = 26 := by
  rw [toNat_getBlockIndex h.exists', ← UInt8.toNat_inj]
  simp only [FELICA_BLOCK_INDEX_STATE, UInt8.reduceToNat]
  unfold Guarded at h
  split_ifs <;> omega

theorem guarded_of_markedReadonly {data : FelicaData} {number : UInt8}
    (h : data.MarkedReadonly number) : Guarded number ∧ number ≠ FELICA_BLOCK_INDEX_STATE := by
  have hnumber := h.1
  simp only [FELICA_BLOCK_INDEX_REG, FELICA_BLOCK_INDEX_ID, FELICA_BLOCK_INDEX_SER_C,
    FELICA_BLOCK_INDEX_CKV, FELICA_BLOCK_INDEX_CK, FELICA_BLOCK_INDEX_STATE, UInt8.le_iff_toNat_le,
    ne_eq, ← UInt8.toNat_inj, UInt8.reduceToNat] at hnumber ⊢
  unfold Guarded
  omega

theorem guarded_of_requiresAuth {data : FelicaData} {number : UInt8} {i : Fin 16}
    (h : data.blockRequiresAuth i number = true) :
    Guarded number ∧ number ≠ FELICA_BLOCK_INDEX_STATE := by
  unfold FelicaData.blockRequiresAuth at h
  split_ifs at h with hnumber
  simp only [FELICA_BLOCK_INDEX_REG, FELICA_BLOCK_INDEX_STATE, UInt8.le_iff_toNat_le, ne_eq,
    ← UInt8.toNat_inj, UInt8.reduceToNat] at hnumber ⊢
  unfold Guarded
  omega

theorem guarded_of_requiresMac {data : FelicaData} {number : UInt8}
    (h : data.blockRequiresMac number = true) : Guarded number := by
  unfold FelicaData.blockRequiresMac at h
  simp only [FELICA_BLOCK_INDEX_REG, FELICA_BLOCK_INDEX_CK, FELICA_BLOCK_INDEX_CKV,
    FELICA_BLOCK_INDEX_STATE, UInt8.le_iff_toNat_le, ← UInt8.toNat_inj, UInt8.reduceToNat] at h
  unfold Guarded
  split_ifs at h <;> omega

theorem Kept.block_eq (h : Kept listener after) {number : UInt8} (hnumber : Guarded number) :
    after.data.block number = listener.data.block number := by
  refine FelicaData.block_congr fun i hi => h.blocks i ?_
  rintro rfl
  rcases hnumber.index with hlt | ⟨-, hstate⟩ <;> omega

theorem reset_blocks (listener : FelicaListener) {i : Fin 28} (h : i ≠ 23) (h' : i ≠ 24)
    (h'' : i ≠ 26) : listener.reset.data.blocks i = listener.data.blocks i := by
  unfold reset FelicaData.wcntPostProcess
  split_ifs
  · simp only [FelicaData.setWcnt, Function.update_of_ne h', Function.update_of_ne h,
      Function.update_of_ne h'']
  · simp only [Function.update_of_ne h, Function.update_of_ne h'']

theorem reset_block_eq {number : UInt8} (hnumber : Guarded number)
    (hstate : number ≠ FELICA_BLOCK_INDEX_STATE) :
    listener.reset.data.block number = listener.data.block number := by
  refine FelicaData.block_congr fun i hi => ?_
  have hlt : i.val < 23 := by
    rcases hnumber.index with hlt | ⟨hstate', -⟩
    · omega
    · exact absurd hstate' hstate
  refine reset_blocks listener ?_ ?_ ?_
  all_goals
    rintro rfl
    simp at hlt

theorem reset_mc (listener : FelicaListener) : listener.reset.data.mc = listener.mcShadow := by
  unfold reset FelicaData.wcntPostProcess FelicaData.mc
  split_ifs <;> simp [FelicaData.setWcnt]

theorem reset_workflowType (listener : FelicaListener) :
    listener.reset.data.workflowType = listener.data.workflowType := by
  unfold reset FelicaData.wcntPostProcess
  split_ifs <;> rfl

theorem Checked.number_ne_wcnt {rx : FelicaRx} {ptr i : ℕ} {withMac : Bool} {number : UInt8}
    (h : Checked crypto listener rx ptr withMac i number) : number ≠ FELICA_BLOCK_INDEX_WCNT := by
  rintro rfl
  have hreadonly := h.readonly
  simp [FelicaData.blockIsReadonly, FELICA_BLOCK_INDEX_WCNT, FELICA_BLOCK_INDEX_REG,
    FELICA_BLOCK_INDEX_ID, FELICA_BLOCK_INDEX_SER_C, FELICA_BLOCK_INDEX_CKV,
    FELICA_BLOCK_INDEX_CK] at hreadonly

/-- What an accepted write leaves as it is. -/
structure Frame (number : UInt8) (before after : FelicaListener) : Prop where
  blocks : ∀ other, Guarded other → other ≠ number →
    after.data.block other = before.data.block other
  mc : after.data.mc = before.data.mc
  workflowType : after.data.workflowType = before.data.workflowType
  mcShadow : after.mcShadow = before.mcShadow ∨
    ∃ block, after.mcShadow = (before.handlerWriteMcBlock block).mcShadow

theorem Done.frame {rx : FelicaRx} (h : Done crypto listener rx after) :
    ∃ ptr withMac number, Checked crypto listener rx ptr withMac 0 number ∧
      (withMac = true → Verified crypto listener rx) ∧ Frame number listener after ∧
      after.data.wcnt = if listener.data.wcnt < listener.data.wcntLimit then listener.data.wcnt + 1
        else listener.data.wcnt := by
  obtain ⟨ptr, withMac, number, block, next, next', hchecked, hverified, hwrote, hmac, data,
    hincrement, hafter⟩ := h.done
  have hexists : felicaBlockExists FELICA_BLOCK_INDEX_MAC_A = true := by decide
  -- the second block is that of the checksum
  have hnext : (∀ other, felicaBlockExists other = true → other ≠ FELICA_BLOCK_INDEX_MAC_A →
      next'.data.block other = next.data.block other) ∧ next'.data.mc = next.data.mc ∧
      next'.data.workflowType = next.data.workflowType ∧ next'.mcShadow = next.mcShadow := by
    rcases hmac with rfl | ⟨block', hwrote'⟩
    · exact ⟨fun _ _ _ => rfl, rfl, rfl, rfl⟩
    · refine ⟨fun other hother hne => hwrote'.block_eq hexists hother hne, hwrote'.mc_eq hexists,
        hwrote'.workflowType_eq, ?_⟩
      rcases hwrote' with ⟨heq, -⟩ | ⟨-, hshadow, -⟩
      · exact absurd heq (by decide)
      · exact hshadow
  obtain ⟨hblocks, hmc, hworkflow, hshadow⟩ := hnext
  obtain ⟨hwcnt, hothers, hworkflow'⟩ := wcntIncrement_eq_ok hincrement
  have hdata : after.data = data := by rw [hafter]; rfl
  have hmcs : next'.data.mc = listener.data.mc := hmc.trans (hwrote.mc_eq hchecked.exists')
  have hcounter : next'.data.wcnt = listener.data.wcnt := by
    have hwcntBlock := (hblocks FELICA_BLOCK_INDEX_WCNT (by decide) (by decide)).trans
      (hwrote.block_eq hchecked.exists' (by decide) hchecked.number_ne_wcnt.symm)
    rw [FelicaData.block_wcnt, FelicaData.block_wcnt] at hwcntBlock
    unfold FelicaData.wcnt
    rw [hwcntBlock]
  have hlimit : next'.data.wcntLimit = listener.data.wcntLimit := by
    unfold FelicaData.wcntLimit FelicaData.systemBlockRwAccess
    rw [hmcs]
  refine ⟨ptr, withMac, number, hchecked, hverified, ⟨fun other hother hne => ?_, ?_, ?_, ?_⟩, ?_⟩
  · have hne' : other ≠ FELICA_BLOCK_INDEX_MAC_A := by
      rintro rfl
      revert hother
      unfold Guarded FELICA_BLOCK_INDEX_MAC_A
      decide
    calc after.data.block other = next'.data.block other := by
          rw [hdata]
          refine FelicaData.block_congr fun i hi => hothers i ?_
          rintro rfl
          rcases hother.index with hlt | ⟨-, hstate⟩ <;> omega
      _ = next.data.block other := hblocks other hother.exists' hne'
      _ = listener.data.block other := hwrote.block_eq hchecked.exists' hother.exists' hne
  · rw [hdata, ← hmcs]
    exact hothers 23 (by decide)
  · rw [hdata, hworkflow', hworkflow, hwrote.workflowType_eq]
  · have hsetData : after.mcShadow = next.mcShadow := by
      rw [hafter, ← hshadow]
      rfl
    rw [hsetData]
    rcases hwrote with ⟨-, rfl⟩ | ⟨-, heq, -⟩
    · exact .inr ⟨block, rfl⟩
    · exact .inl heq
  · rw [hdata, hwcnt, hcounter, hlimit]

theorem run_law (hlite : listener.data.workflowType ≠ .standard) {event : Event}
    {reply : FelicaReply} (h : listener.run crypto event = .ok (reply, after)) :
    LiteLaw crypto listener event reply after := by
  cases event with
  | fieldOff =>
    cases h
    refine ⟨fun number hmarked => ?_, fun number hauth hne => ?_, fun number hmac hne => ?_,
      fun rx h => (by cases h), fun rx h => (by cases h)⟩
    · obtain ⟨hguarded, hstate⟩ := guarded_of_markedReadonly hmarked
      exact reset_block_eq hguarded hstate
    · obtain ⟨hguarded, hstate⟩ := guarded_of_requiresAuth hauth
      exact absurd (reset_block_eq hguarded hstate) hne
    · refine .inl ⟨rfl, ?_⟩
      by_contra hstate
      exact hne (reset_block_eq (guarded_of_requiresMac hmac) hstate)
  | received rx =>
    cases received_effect hlite h with
    | kept hreply hkept =>
      have hwcnt : after.data.wcnt = listener.data.wcnt := by
        unfold FelicaData.wcnt
        rw [hkept.blocks 24 (by decide)]
      refine ⟨fun number hmarked => hkept.block_eq (guarded_of_markedReadonly hmarked).1,
        fun number hauth hne => absurd (hkept.block_eq (guarded_of_requiresAuth hauth).1) hne,
        fun number hmac hne => absurd (hkept.block_eq (guarded_of_requiresMac hmac)) hne,
        fun rx' _ => ⟨fun haccepted => absurd haccepted hreply, fun _ => hwcnt⟩,
        fun rx' _ => hkept.blocks 23 (by decide)⟩
    | written hreply hdone =>
      obtain ⟨ptr, withMac, number, hchecked, hverified, hframe, hwcnt⟩ := hdone.frame
      refine ⟨fun other hmarked => ?_, fun other hauth hne => ?_, fun other hmac hne => ?_,
        fun rx' _ => ⟨fun _ => hwcnt, fun hnot => absurd hreply hnot⟩, fun rx' _ => hframe.mc⟩
      · refine hframe.blocks other (guarded_of_markedReadonly hmarked).1 ?_
        rintro rfl
        exact absurd (hchecked.readonly.symm.trans hmarked.2) Bool.false_ne_true
      · by_cases heq : other = number
        · rw [heq] at hauth
          exact hchecked.auth rfl hauth
        · exact absurd (hframe.blocks other (guarded_of_requiresAuth hauth).1 heq) hne
      · by_cases heq : other = number
        · rw [heq] at hmac
          exact .inr ⟨rx, rfl, hverified (hchecked.mac hmac)⟩
        · exact absurd (hframe.blocks other (guarded_of_requiresMac hmac) heq) hne

/-! ## Runs -/

/-- What is to come into force is at most stricter than what is. -/
structure LiteInv (listener : FelicaListener) : Prop where
  lite : listener.data.workflowType ≠ .standard
  restricts : Restricts listener.data.mc listener.mcShadow

theorem alloc_liteInv {data : FelicaData} (h : data.workflowType ≠ .standard) :
    LiteInv (alloc data) where
  lite := h
  restricts := Restricts.refl _

theorem run_liteInv (hinv : LiteInv listener) {event : Event} {reply : FelicaReply}
    (h : listener.run crypto event = .ok (reply, after)) :
    LiteInv after ∧ Restricts listener.data.mc after.data.mc := by
  cases event with
  | fieldOff =>
    cases h
    rw [reset_mc]
    refine ⟨⟨?_, ?_⟩, hinv.restricts⟩
    · rw [reset_workflowType]
      exact hinv.lite
    · rw [reset_mc]
      exact Restricts.refl _
  | received rx =>
    cases received_effect hinv.lite h with
    | kept hreply hkept =>
      have hmc : after.data.mc = listener.data.mc := hkept.blocks 23 (by decide)
      rw [hmc]
      refine ⟨⟨?_, ?_⟩, Restricts.refl _⟩
      · rw [hkept.workflowType]
        exact hinv.lite
      · rw [hmc, hkept.mcShadow]
        exact hinv.restricts
    | written hreply hdone =>
      obtain ⟨ptr, withMac, number, hchecked, hverified, hframe, hwcnt⟩ := hdone.frame
      rw [hframe.mc]
      refine ⟨⟨?_, ?_⟩, Restricts.refl _⟩
      · rw [hframe.workflowType]
        exact hinv.lite
      · rw [hframe.mc]
        rcases hframe.mcShadow with hshadow | ⟨block, hshadow⟩
        · rw [hshadow]
          exact hinv.restricts
        · rw [hshadow]
          exact handlerWriteMcBlock_restricts hinv.restricts block

theorem step_eq_ok {event : Event} (h : listener.step crypto event = .ok after) :
    ∃ reply, listener.run crypto event = .ok (reply, after) := by
  unfold step at h
  cases hrun : listener.run crypto event with
  | error fault =>
    rw [hrun] at h
    cases h
  | ok result =>
    rw [hrun] at h
    cases h
    exact ⟨result.1, rfl⟩

/-- The configurations of a run are stricter and stricter, and what one of them makes read-only does
not change any more. -/
theorem exec_protected (hinv : LiteInv listener) {events : List Event}
    (h : exec (step crypto) listener events = .ok after) :
    Restricts listener.data.mc after.data.mc ∧ ∀ number, listener.data.MarkedReadonly number →
      after.data.MarkedReadonly number ∧ after.data.block number = listener.data.block number := by
  have hstays : LiteInv after ∧ Restricts listener.data.mc after.data.mc ∧
      ∀ number, listener.data.MarkedReadonly number →
        after.data.block number = listener.data.block number := by
    refine exec_stays (P := fun next => LiteInv next ∧ Restricts listener.data.mc next.data.mc ∧
      ∀ number, listener.data.MarkedReadonly number →
        next.data.block number = listener.data.block number) ?_ events
      ⟨hinv, Restricts.refl _, fun _ _ => rfl⟩ h
    rintro next event next' ⟨hnext, hrestricts, hblocks⟩ hstep
    obtain ⟨reply, hrun⟩ := step_eq_ok hstep
    obtain ⟨hnext', hrestricts'⟩ := run_liteInv hnext hrun
    refine ⟨hnext', hrestricts.trans hrestricts', fun number hmarked => ?_⟩
    rw [(run_law hnext.lite hrun).readonly number (hrestricts.markedReadonly hmarked)]
    exact hblocks number hmarked
  obtain ⟨-, hrestricts, hblocks⟩ := hstays
  exact ⟨hrestricts, fun number hmarked =>
    ⟨hrestricts.markedReadonly hmarked, hblocks number hmarked⟩⟩

/-- Every event of a run keeps the law, and the configurations of the run are stricter and
stricter. -/
theorem lite_protected (crypto : FelicaCrypto) (data : FelicaData)
    (hlite : data.workflowType ≠ .standard) (events : List Event) (listener : FelicaListener)
    (hreach : exec (step crypto) (alloc data) events = .ok listener) :
    (∀ event reply after, listener.run crypto event = .ok (reply, after) →
      LiteLaw crypto listener event reply after) ∧
    ∀ events' after, exec (step crypto) listener events' = .ok after →
      Restricts listener.data.mc after.data.mc ∧ ∀ number, listener.data.MarkedReadonly number →
        after.data.MarkedReadonly number ∧
          after.data.block number = listener.data.block number := by
  have hinv : LiteInv listener := by
    refine exec_stays (fun next event next' hnext hstep => ?_) events (alloc_liteInv hlite) hreach
    obtain ⟨reply, hrun⟩ := step_eq_ok hstep
    exact (run_liteInv hnext hrun).1
  exact ⟨fun event reply after hrun => run_law hinv.lite hrun,
    fun events' after hexec => exec_protected hinv hexec⟩

/-- A card whose keys are written with a checksum, and whose system blocks can be written. -/
def keyMacCard : FelicaData where
  idm := Vector.replicate 8 1
  pmm := Vector.replicate 8 0
  blocks i j := if i = 23 then if j ∈ [0, 1, 2] then 0xFF else if j = 5 then 1 else 0 else 0
  systems := []
  workflowType := .lite

/-- The checksum of a block that is written is the counter it is computed with. -/
def counterCrypto : FelicaCrypto where
  calculateSessionKey ck _ := ck
  calculateMacRead _ _ _ _ := Vector.replicate 8 0
  calculateMacWrite _ _ wcnt _ := Vector.ofFn fun i => wcnt.getD i.val 0

/-- The configuration is written, without the checksum for the keys. -/
def keyMacFrame : FelicaRx where
  frame := [32, 8, 1, 1, 1, 1, 1, 1, 1, 1, 1, 9, 0, 1, 128, 136, 255, 255, 255] ++
    List.replicate 13 0 ++ [52, 111]
  behind _ := none

/-- Every event of this card keeps the law, from the start on. -/
theorem lite_protected_keyMacCard :
    (∀ event reply after, (alloc keyMacCard).run counterCrypto event = .ok (reply, after) →
      LiteLaw counterCrypto (alloc keyMacCard) event reply after) ∧
    ∀ events' after, exec (step counterCrypto) (alloc keyMacCard) events' = .ok after →
      Restricts (alloc keyMacCard).data.mc after.data.mc ∧
        ∀ number, (alloc keyMacCard).data.MarkedReadonly number →
          after.data.MarkedReadonly number ∧
            after.data.block number = (alloc keyMacCard).data.block number :=
  lite_protected counterCrypto keyMacCard (by decide) [] (alloc keyMacCard) rfl

theorem counterCrypto_injective (sessionKey rc block : FelicaBlockData) {wcnt wcnt' : List UInt8}
    (h : wcnt.length = 3) (h' : wcnt'.length = 3)
    (hmac : counterCrypto.calculateMacWrite sessionKey rc wcnt block =
      counterCrypto.calculateMacWrite sessionKey rc wcnt' block) : wcnt = wcnt' := by
  obtain ⟨a, b, c, rfl⟩ := List.length_eq_three.1 h
  obtain ⟨a', b', c', rfl⟩ := List.length_eq_three.1 h'
  have hbytes (i : ℕ) (hi : i < 8) : [a, b, c].getD i 0 = [a', b', c'].getD i 0 := by
    simpa [counterCrypto] using (Vector.ext_iff.1 hmac) i hi
  have h0 : a = a' := hbytes 0 (by decide)
  have h1 : b = b' := hbytes 1 (by decide)
  have h2 : c = c' := hbytes 2 (by decide)
  rw [h0, h1, h2]

set_option maxRecDepth 20000 in
/-- The configuration is written and comes into force, and the keys no longer need a checksum. -/
theorem not_requiresMac_kept_keyMacFrame : ¬∀ (crypto : FelicaCrypto) (data : FelicaData)
    (events : List Event) (after : FelicaListener), data.workflowType ≠ .standard →
    (∀ sessionKey rc block wcnt wcnt', wcnt.length = 3 → wcnt'.length = 3 →
      crypto.calculateMacWrite sessionKey rc wcnt block =
        crypto.calculateMacWrite sessionKey rc wcnt' block → wcnt = wcnt') →
    exec (step crypto) (alloc data) events = .ok after →
    ∀ number, (alloc data).data.blockRequiresMac number = true →
      after.data.blockRequiresMac number = true := by
  intro h
  have hkept := h counterCrypto keyMacCard [.received keyMacFrame, .fieldOff] _ (by decide)
    (fun sessionKey rc block wcnt wcnt' hwcnt hwcnt' =>
      counterCrypto_injective sessionKey rc block hwcnt hwcnt') rfl FELICA_BLOCK_INDEX_CK (by decide)
  revert hkept
  decide

end FelicaListener

end KiisuFirmware
