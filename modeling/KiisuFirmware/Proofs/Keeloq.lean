import KiisuFirmware.Keeloq
import KiisuFirmware.Proofs.SubGhzBlocks

/-!
# A message tells whose it is

Each round of the cipher is undone by one of the inverse cipher, and so a message that was made with
a key decrypts to what it was made of.
-/

namespace KiisuFirmware

/-! ## The cipher -/

theorem getLsbD_keeloqBit {w : ℕ} (x : BitVec w) (n i : ℕ) :
    (keeloqBit x n).getLsbD i = (decide (i = 0) && x.getLsbD n) := by
  rw [keeloqBit, BitVec.getLsbD_setWidth]
  have hbit := getLsbD_bitRead x n i
  rw [bitRead] at hbit
  rw [hbit]
  by_cases hi : i = 0
  · subst hi
    simp
  · simp [hi]

theorem keeloqBit_congr {w v : ℕ} {x : BitVec w} {y : BitVec v} {n m : ℕ}
    (h : x.getLsbD n = y.getLsbD m) : keeloqBit x n = keeloqBit y m :=
  BitVec.eq_of_getLsbD_eq fun i _ => by rw [getLsbD_keeloqBit, getLsbD_keeloqBit, h]

theorem getLsbD_encryptRound (key : BitVec 64) (x : BitVec 32) (r : ℕ) {i : ℕ} (h : i < 31) :
    (keeloqEncryptRound key x r).getLsbD i = x.getLsbD (i + 1) := by
  rw [keeloqEncryptRound, BitVec.getLsbD_xor, BitVec.getLsbD_ushiftRight, BitVec.getLsbD_shiftLeft,
    decide_eq_true (by omega : i < 31)]
  simp [Nat.add_comm]

theorem keeloqBit_encryptRound_highest (key : BitVec 64) (x : BitVec 32) (r : ℕ) :
    keeloqBit (keeloqEncryptRound key x r) 31 = keeloqBit x 0 ^^^ keeloqBit x 16 ^^^
      keeloqBit key (r % 64) ^^^ keeloqBit KEELOQ_NLF (g5 x 1 9 20 26 31).toNat := by
  refine BitVec.eq_of_getLsbD_eq fun i _ => ?_
  rw [getLsbD_keeloqBit, keeloqEncryptRound, BitVec.getLsbD_xor, BitVec.getLsbD_ushiftRight,
    BitVec.getLsbD_shiftLeft]
  simp only [BitVec.getLsbD_xor, getLsbD_keeloqBit]
  by_cases hi : i = 0
  · subst hi
    simp
  · simp [hi]

theorem keeloqDecryptRound_encryptRound (key : BitVec 64) (x : BitVec 32) {r s : ℕ}
    (h : ((15 - s : ℤ) % 64).toNat = r % 64) :
    keeloqDecryptRound key (keeloqEncryptRound key x r) s = x := by
  have hbit : ∀ i < 31, keeloqBit (keeloqEncryptRound key x r) i = keeloqBit x (i + 1) :=
    fun i hi => keeloqBit_congr (getLsbD_encryptRound key x r hi)
  have hg5 : g5 (keeloqEncryptRound key x r) 0 8 19 25 30 = g5 x 1 9 20 26 31 := by
    rw [g5, g5, hbit 0 (by norm_num), hbit 8 (by norm_num), hbit 19 (by norm_num),
      hbit 25 (by norm_num), hbit 30 (by norm_num)]
  rw [keeloqDecryptRound, hg5, keeloqBit_encryptRound_highest, hbit 15 (by norm_num), h]
  refine BitVec.eq_of_getLsbD_eq fun i hi => ?_
  simp only [BitVec.getLsbD_xor, getLsbD_keeloqBit, BitVec.getLsbD_shiftLeft]
  -- all the round mixed into the highest bit is in the lowest one twice, but for the bit it dropped
  have htwice : ∀ a b c d : Bool, (a != (b != (c != (d != (b != (c != d)))))) = a := by decide
  cases i with
  | zero => simp [htwice]
  | succ i =>
    rw [Nat.add_sub_cancel, getLsbD_encryptRound key x r (by omega)]
    simp [hi]

theorem getLsbD_decryptRound (key : BitVec 64) (x : BitVec 32) (s : ℕ) {i : ℕ} (h : i < 31) :
    (keeloqDecryptRound key x s).getLsbD (i + 1) = x.getLsbD i := by
  rw [keeloqDecryptRound]
  simp only [BitVec.getLsbD_xor, getLsbD_keeloqBit, BitVec.getLsbD_shiftLeft]
  simp
  omega

theorem keeloqBit_decryptRound_lowest (key : BitVec 64) (x : BitVec 32) (s : ℕ) :
    keeloqBit (keeloqDecryptRound key x s) 0 = keeloqBit x 31 ^^^ keeloqBit x 15 ^^^
      keeloqBit key ((15 - s : ℤ) % 64).toNat ^^^
      keeloqBit KEELOQ_NLF (g5 x 0 8 19 25 30).toNat := by
  refine BitVec.eq_of_getLsbD_eq fun i _ => ?_
  rw [getLsbD_keeloqBit, keeloqDecryptRound]
  simp only [BitVec.getLsbD_xor, getLsbD_keeloqBit, BitVec.getLsbD_shiftLeft]
  by_cases hi : i = 0
  · subst hi
    simp
  · simp [hi]

theorem keeloqEncryptRound_decryptRound (key : BitVec 64) (x : BitVec 32) {r s : ℕ}
    (h : ((15 - s : ℤ) % 64).toNat = r % 64) :
    keeloqEncryptRound key (keeloqDecryptRound key x s) r = x := by
  have hbit : ∀ i < 31, keeloqBit (keeloqDecryptRound key x s) (i + 1) = keeloqBit x i :=
    fun i hi => keeloqBit_congr (getLsbD_decryptRound key x s hi)
  have hg5 : g5 (keeloqDecryptRound key x s) 1 9 20 26 31 = g5 x 0 8 19 25 30 := by
    rw [g5, g5, hbit 0 (by norm_num), hbit 8 (by norm_num), hbit 19 (by norm_num),
      hbit 25 (by norm_num), hbit 30 (by norm_num)]
  refine BitVec.eq_of_getLsbD_eq fun i hi => ?_
  by_cases hlow : i < 31
  · rw [getLsbD_encryptRound key _ r hlow, getLsbD_decryptRound key x s hlow]
  · obtain rfl : i = 31 := by omega
    -- the dropped bit is what is left of the lowest one without all that was mixed into it
    have htwice : ∀ a b c d : Bool, ((((((a != b) != c) != d) != b) != c) != d) = a := by decide
    have hhighest := keeloqBit_encryptRound_highest key (keeloqDecryptRound key x s) r
    rw [hg5, keeloqBit_decryptRound_lowest, hbit 15 (by norm_num), h] at hhighest
    have hbit := congrArg (BitVec.getLsbD · 0) hhighest
    simp only [BitVec.getLsbD_xor, getLsbD_keeloqBit, decide_true, Bool.true_and] at hbit
    rw [hbit]
    exact htwice _ _ _ _

theorem foldl_undo {α : Type} {f g : α → ℕ → α} {n : ℕ}
    (h : ∀ x r s, r + s + 1 = n → g (f x r) s = x) : ∀ (count : ℕ) (x : α), count ≤ n →
    (List.range count).foldl g ((List.range' (n - count) count).foldl f x) = x
  | 0, x, _ => rfl
  | count + 1, x, hcount => by
    rw [List.range'_succ, List.foldl_cons, List.range_succ, List.foldl_append, List.foldl_cons,
      List.foldl_nil, show n - (count + 1) + 1 = n - count by omega,
      foldl_undo h count _ (by omega)]
    exact h x _ _ (by omega)

theorem decrypt_encrypt (data : BitVec 32) (key : BitVec 64) :
    subghzProtocolKeeloqCommonDecrypt (subghzProtocolKeeloqCommonEncrypt data key) key = data := by
  have hfold := @foldl_undo _ (keeloqEncryptRound key) (keeloqDecryptRound key) 528
    (fun x r s hrounds => keeloqDecryptRound_encryptRound key x (by omega)) 528 data le_rfl
  rwa [Nat.sub_self, ← List.range_eq_range'] at hfold

theorem encrypt_decrypt (data : BitVec 32) (key : BitVec 64) :
    subghzProtocolKeeloqCommonEncrypt (subghzProtocolKeeloqCommonDecrypt data key) key = data := by
  have hfold := @foldl_undo _ (keeloqDecryptRound key) (keeloqEncryptRound key) 528
    (fun x s r hrounds => keeloqEncryptRound_decryptRound key x (by omega)) 528 data le_rfl
  rwa [Nat.sub_self, ← List.range_eq_range'] at hfold

theorem keeloq_mutually_inverse (data : BitVec 32) (key : BitVec 64) :
    subghzProtocolKeeloqCommonDecrypt (subghzProtocolKeeloqCommonEncrypt data key) key = data ∧
      subghzProtocolKeeloqCommonEncrypt (subghzProtocolKeeloqCommonDecrypt data key) key = data :=
  ⟨decrypt_encrypt data key, encrypt_decrypt data key⟩

/-! ## The fields of a message -/

section Fields

variable {btn : BitVec 8} {serial cnt : BitVec 32}

theorem fix_serial (hserial : serial.toNat < 2 ^ 28) :
    (btn.setWidth 32 <<< 28 ||| serial) &&& 0x0FFFFFFF = serial := by
  have hmask : ∀ i < 32, (0x0FFFFFFF : BitVec 32).getLsbD i = decide (i < 28) := by decide
  refine BitVec.eq_of_getLsbD_eq fun i hi => ?_
  rw [BitVec.getLsbD_and, BitVec.getLsbD_or, BitVec.getLsbD_shiftLeft, hmask i hi]
  by_cases h : i < 28
  · simp [h]
  · rw [getLsbD_of_toNat_lt hserial (not_lt.1 h), decide_eq_false h, Bool.and_false]

theorem fix_btn (hserial : serial.toNat < 2 ^ 28) (hbtn : btn.toNat < 2 ^ 4) :
    ((btn.setWidth 32 <<< 28 ||| serial) >>> 28).setWidth 8 = btn := by
  refine BitVec.eq_of_getLsbD_eq fun i hi => ?_
  rw [BitVec.getLsbD_setWidth, BitVec.getLsbD_ushiftRight, BitVec.getLsbD_or,
    getLsbD_of_toNat_lt hserial (by omega), BitVec.getLsbD_shiftLeft, BitVec.getLsbD_setWidth]
  by_cases h : i < 4
  · simp [hi, show 28 + i < 32 by omega, show i < 32 by omega]
  · simp [getLsbD_of_toNat_lt hbtn (not_lt.1 h)]

theorem fix_endSerial :
    (btn.setWidth 32 <<< 28 ||| serial) &&& 0xFF = serial &&& 0xFF := by
  have hmask : ∀ i < 32, (0xFF : BitVec 32).getLsbD i = decide (i < 8) := by decide
  refine BitVec.eq_of_getLsbD_eq fun i hi => ?_
  rw [BitVec.getLsbD_and, BitVec.getLsbD_and, BitVec.getLsbD_or, BitVec.getLsbD_shiftLeft,
    hmask i hi]
  by_cases h : i < 8
  · simp [h, show i < 28 by omega]
  · simp [h]

theorem decrypt_btn (hbtn : btn.toNat < 2 ^ 4) (hcnt : cnt.toNat < 2 ^ 28) :
    (btn.setWidth 32 <<< 28 ||| (serial &&& 0x3FF#32) <<< 16 ||| cnt) >>> 28 = btn.setWidth 32 := by
  have hmask : ∀ i < 32, 10 ≤ i → (0x3FF#32).getLsbD i = false := by decide
  refine BitVec.eq_of_getLsbD_eq fun i hi => ?_
  rw [BitVec.getLsbD_ushiftRight, BitVec.getLsbD_or, BitVec.getLsbD_or,
    getLsbD_of_toNat_lt hcnt (by omega), BitVec.getLsbD_shiftLeft, BitVec.getLsbD_shiftLeft,
    BitVec.getLsbD_setWidth, BitVec.getLsbD_setWidth]
  by_cases h : i < 4
  · rw [BitVec.getLsbD_and, hmask _ (by omega) (by omega)]
    simp [hi, show 28 + i < 32 by omega]
  · simp [getLsbD_of_toNat_lt hbtn (not_lt.1 h), show ¬28 + i < 32 by omega]

theorem decrypt_discriminator :
    (btn.setWidth 32 <<< 28 ||| (serial &&& 0x3FF#32) <<< 16 ||| cnt) >>> 16 &&&
      (0xFF : BitVec 32) = (serial ||| cnt >>> 16) &&& (0xFF : BitVec 32) := by
  have hmask : ∀ i < 32, (0xFF : BitVec 32).getLsbD i = decide (i < 8) := by decide
  have hserial : ∀ i < 8, (0x3FF#32).getLsbD i = true := by decide
  refine BitVec.eq_of_getLsbD_eq fun i hi => ?_
  rw [BitVec.getLsbD_and, BitVec.getLsbD_and, hmask i hi, BitVec.getLsbD_ushiftRight,
    BitVec.getLsbD_or, BitVec.getLsbD_or, BitVec.getLsbD_or, BitVec.getLsbD_ushiftRight]
  by_cases h : i < 8
  · rw [BitVec.getLsbD_shiftLeft, BitVec.getLsbD_shiftLeft, BitVec.getLsbD_and,
      show 16 + i - 16 = i by omega, hserial i h]
    simp [h, show 16 + i < 28 by omega, show 16 + i < 32 by omega]
  · simp [h]

theorem decrypt_cnt :
    (btn.setWidth 32 <<< 28 ||| (serial &&& 0x3FF#32) <<< 16 ||| cnt) &&& 0x0000FFFF =
      cnt &&& 0x0000FFFF := by
  have hmask : ∀ i < 32, (0x0000FFFF : BitVec 32).getLsbD i = decide (i < 16) := by decide
  refine BitVec.eq_of_getLsbD_eq fun i hi => ?_
  rw [BitVec.getLsbD_and, BitVec.getLsbD_and, BitVec.getLsbD_or, BitVec.getLsbD_or,
    BitVec.getLsbD_shiftLeft, BitVec.getLsbD_shiftLeft, hmask i hi]
  by_cases h : i < 16
  · simp [h, show i < 28 by omega]
  · simp [h]

end Fields

/-! ## A message and its recognition -/

namespace Keeloq

variable {generic : SubGhzBlockGeneric} {fix hop : BitVec 32}

theorem keyFix_of_data (hcount : generic.dataCountBit = 64)
    (hdata : generic.data = subghzProtocolBlocksReverseKey (joinWords fix hop) 64) :
    keyFix generic = fix := by
  rw [keyFix, hcount, hdata, reverseKey_reverseKey]
  exact joinWords_high fix hop

theorem keyHop_of_data (hcount : generic.dataCountBit = 64)
    (hdata : generic.data = subghzProtocolBlocksReverseKey (joinWords fix hop) 64) :
    keyHop generic = hop := by
  have hmask : ∀ i < 32, (0x00000000ffffffff : BitVec 64).getLsbD i = true := by decide
  rw [keyHop, hcount, hdata, reverseKey_reverseKey]
  refine BitVec.eq_of_getLsbD_eq fun i hi => ?_
  rw [BitVec.getLsbD_setWidth, BitVec.getLsbD_and, hmask i hi, getLsbD_joinWords _ _ (by omega),
    if_pos hi, decide_eq_true hi, Bool.true_and, Bool.and_true]

/-- The manufacturers whose messages can be made. -/
def Generates (code : SubGhzKey) : Prop :=
  code.type = .simple ∨ code.type = .normal ∧ code.name ≠ "Centurion" ∨
    code.type = .magicXorType1

/-- The words from which the two sides learn the key are different ones, of which the key depends on
the serial number alone. -/
theorem checkManufactureCode_keeloqHop {code : SubGhzKey} (h : Generates code)
    {serial decrypt : BitVec 32} (hserial : serial &&& 0x0FFFFFFF = fix &&& 0x0FFFFFFF) :
    checkManufactureCode generic fix (keeloqHop code serial fix decrypt) code =
      checkDecrypt generic decrypt ((fix >>> 28).setWidth 8) (fix &&& 0xFF) := by
  rcases h with htype | ⟨htype, hname⟩ | htype
  · simp only [checkManufactureCode, keeloqHop, htype, decrypt_encrypt]
  · simp only [checkManufactureCode, keeloqHop, htype, if_neg hname, decrypt_encrypt]
  · have hlearning : subghzProtocolKeeloqCommonMagicXorType1Learning serial code.key =
        subghzProtocolKeeloqCommonMagicXorType1Learning fix code.key := by
      rw [subghzProtocolKeeloqCommonMagicXorType1Learning, hserial]
      rfl
    simp only [checkManufactureCode, keeloqHop, htype, hlearning, decrypt_encrypt]

/-- The last counter runs over into the lowest bit of the discriminator, which hurts where that bit
of the serial number is not set. -/
theorem discriminator_iff (serial : BitVec 32) {cnt : BitVec 32} (hcnt : cnt.toNat ≤ 0xFFFF) :
    ((serial ||| (cnt + 1) >>> 16) &&& 0xFF = serial &&& 0xFF ∨
      (serial ||| (cnt + 1) >>> 16) &&& 0xFF = 0) ↔ cnt ≠ 0xFFFF ∨ serial.getLsbD 0 = true := by
  have hmask : ∀ i < 32, (0xFF : BitVec 32).getLsbD i = decide (i < 8) := by decide
  by_cases hlast : cnt = 0xFFFF
  · have hcarry : (cnt + 1) >>> 16 = 1#32 := by
      rw [hlast]
      rfl
    have hlowest : ((serial ||| 1#32) &&& 0xFF).getLsbD 0 = true := by simp
    rw [hcarry]
    constructor
    · rintro (h | h)
      · rw [h, BitVec.getLsbD_and, hmask 0 (by norm_num), Bool.and_eq_true] at hlowest
        exact .inr hlowest.1
      · rw [h] at hlowest
        exact absurd hlowest (by decide)
    · rintro (h | h)
      · exact absurd hlast h
      · refine .inl (BitVec.eq_of_getLsbD_eq fun i hi => ?_)
        rw [BitVec.getLsbD_and, BitVec.getLsbD_and, BitVec.getLsbD_or, BitVec.getLsbD_one]
        rcases Nat.eq_zero_or_pos i with rfl | hpos
        · rw [h, Bool.true_or]
        · rw [decide_eq_false (by omega : ¬i = 0), Bool.and_false, Bool.or_false]
  · have hcarry : (cnt + 1) >>> 16 = 0#32 := by
      have hne : cnt.toNat ≠ 0xFFFF := fun h => hlast (BitVec.eq_of_toNat_eq h)
      refine BitVec.eq_of_toNat_eq ?_
      rw [BitVec.toNat_ushiftRight, BitVec.toNat_add, Nat.shiftRight_eq_div_pow]
      show (cnt.toNat + 1) % 2 ^ 32 / 2 ^ 16 = 0
      omega
    rw [hcarry, BitVec.or_zero]
    exact iff_of_true (.inl rfl) (.inl hlast)

theorem toNat_cnt (cnt : BitVec 32) :
    (cnt + 1 &&& 0x0000FFFF).toNat = (cnt.toNat + 1) % 2 ^ 16 := by
  rw [BitVec.toNat_and, BitVec.toNat_add]
  show (cnt.toNat + 1) % 2 ^ 32 &&& (2 ^ 16 - 1) = _
  rw [Nat.and_two_pow_sub_one_eq_mod]
  omega

/-- This is what has been found out of a message. -/
def Tells (checked : SubGhzBlockGeneric × String) (name : String) (serial : BitVec 32)
    (btn : BitVec 8) (cnt : ℕ) : Prop :=
  checked.2 = name ∧ checked.1.serial = serial ∧ checked.1.btn = btn ∧ checked.1.cnt.toNat = cnt

/-- What has been made tells whose it is but for the last counter of an even serial number, where
nobody's name is found. -/
theorem checkRemoteController_genData {encoder : SubGhzProtocolEncoderKeeloq} {btn : BitVec 8}
    {code : SubGhzKey} {received : SubGhzBlockGeneric} (hkeystore : encoder.keystore = [code])
    (hname : encoder.manufactureName = code.name) (hcode : Generates code)
    (hserial : encoder.generic.serial.toNat < 2 ^ 28) (hbtn : btn.toNat < 16)
    (hcnt : encoder.generic.cnt.toNat ≤ 0xFFFF) (hbits : encoder.generic.dataCountBit = 64)
    (hgen : (encoder.genData btn).1 = true)
    (hdata : received.data = (encoder.genData btn).2.generic.data)
    (hcount : received.dataCountBit = 64)
    (hAnMotors : isAnMotors (keyFix received) (keyHop received) = false)
    (hHcs101 : isHcs101 (keyFix received) (keyHop received) = false) :
    Tells (checkRemoteController received encoder.keystore) code.name encoder.generic.serial btn
        ((encoder.generic.cnt.toNat + 1) % 2 ^ 16) ↔
      encoder.generic.cnt ≠ 0xFFFF ∨ encoder.generic.serial.getLsbD 0 = true ∨
        code.name = "Unknown" := by
  obtain ⟨⟨data, serial, dataCountBit, btn', cnt⟩, keystore, name⟩ := encoder
  dsimp only at hkeystore hname hserial hcnt hbits hdata ⊢
  subst hkeystore hname hbits
  set fix : BitVec 32 := btn.setWidth 32 <<< 28 ||| serial with hfix
  set decrypt : BitVec 32 :=
    btn.setWidth 32 <<< 28 ||| (serial &&& 0x3FF#32) <<< 16 ||| (cnt + 1) with hdecrypt
  have hfind : [code].find? (fun manufacturer => manufacturer.name == code.name) = some code := by
    simp
  -- the message is the two words that the other side takes it apart to
  have hmessage : received.data =
      subghzProtocolBlocksReverseKey (joinWords fix (keeloqHop code serial fix decrypt)) 64 := by
    rw [hdata]
    simp only [SubGhzProtocolEncoderKeeloq.genData, hfind, ← hfix, ← hdecrypt] at hgen ⊢
    by_cases hhop : keeloqHop code serial fix decrypt = 0
    · rw [if_neg (not_not.2 hhop)] at hgen
      exact absurd hgen Bool.false_ne_true
    · rw [if_pos hhop]
  have hkeyFix := keyFix_of_data hcount hmessage
  have hkeyHop := keyHop_of_data hcount hmessage
  rw [hkeyFix, hkeyHop] at hAnMotors hHcs101
  have hfixSerial : fix &&& 0x0FFFFFFF = serial := fix_serial hserial
  have hfixBtn : (fix >>> 28).setWidth 8 = btn := fix_btn hserial hbtn
  have hcounter : (cnt + 1).toNat < 2 ^ 28 := by
    rw [BitVec.toNat_add]
    show (cnt.toNat + 1) % 2 ^ 32 < 2 ^ 28
    omega
  have hselector : checkRemoteControllerSelector received fix (keeloqHop code serial fix decrypt)
      [code] = if cnt ≠ 0xFFFF ∨ serial.getLsbD 0 = true then
        ({ received with cnt := cnt + 1 &&& 0x0000FFFF }, code.name)
      else ({ received with cnt := 0 }, "Unknown") := by
    have hlearning : serial &&& 0x0FFFFFFF = fix &&& 0x0FFFFFFF := by
      rw [← hfixSerial, BitVec.and_assoc, BitVec.and_self]
    have hcheck := @checkManufactureCode_keeloqHop received fix code hcode serial decrypt hlearning
    rw [checkRemoteControllerSelector, hcheck, checkDecrypt, hfixBtn, decrypt_btn hbtn hcounter,
      fix_endSerial, decrypt_discriminator, decrypt_cnt]
    simp only [discriminator_iff serial hcnt, true_and]
    split_ifs <;> rfl
  have hchecked : checkRemoteController received [code] =
      if cnt ≠ 0xFFFF ∨ serial.getLsbD 0 = true then
        ({ received with cnt := cnt + 1 &&& 0x0000FFFF, serial := serial, btn := btn }, code.name)
      else ({ received with cnt := 0, serial := serial, btn := btn }, "Unknown") := by
    simp only [checkRemoteController, hkeyFix, hkeyHop, hAnMotors, hHcs101, hselector, hfixSerial,
      hfixBtn, Bool.false_eq_true, if_false]
    split_ifs <;> rfl
  rw [hchecked]
  by_cases hroom : cnt ≠ 0xFFFF ∨ serial.getLsbD 0 = true
  · rw [if_pos hroom]
    exact iff_of_true ⟨rfl, rfl, rfl, toNat_cnt cnt⟩ (or_assoc.1 (.inl hroom))
  · have hlast : cnt = 0xFFFF := not_not.1 fun h => hroom (.inl h)
    rw [if_neg hroom, ← or_assoc, or_iff_right hroom, hlast]
    exact ⟨fun h => h.1.symm, fun h => ⟨h.symm, rfl, rfl, rfl⟩⟩

/-- A remote whose last counter has been sent. -/
def lastCounter (serial : BitVec 32) : SubGhzProtocolEncoderKeeloq where
  generic := { data := 0, serial := serial, dataCountBit := 64, btn := 0, cnt := 0xFFFF }
  keystore := [{ name := "Maker", key := 0x0123456789ABCDEF, type := .simple }]
  manufactureName := "Maker"

set_option maxRecDepth 10000 in
theorem checkRemoteController_genData_three :
    Tells (checkRemoteController ((lastCounter 3).genData 1).2.generic (lastCounter 3).keystore)
      "Maker" 3 1 0 :=
  (@checkRemoteController_genData (lastCounter 3) 1 _ ((lastCounter 3).genData 1).2.generic rfl rfl
    (.inl rfl) (by decide) (by decide) (by decide) rfl rfl rfl
    rfl rfl rfl).2 (.inr (.inl (by decide)))

set_option maxRecDepth 20000 in
/-- The name of an even serial number's maker is lost with the last counter. -/
theorem checkRemoteController_lastCounter_two :
    ((lastCounter 2).genData 1).1 = true ∧
      isAnMotors (keyFix ((lastCounter 2).genData 1).2.generic)
        (keyHop ((lastCounter 2).genData 1).2.generic) = false ∧
      isHcs101 (keyFix ((lastCounter 2).genData 1).2.generic)
        (keyHop ((lastCounter 2).genData 1).2.generic) = false ∧
      (checkRemoteController ((lastCounter 2).genData 1).2.generic (lastCounter 2).keystore).2 =
        "Unknown" ∧
      ¬Tells (checkRemoteController ((lastCounter 2).genData 1).2.generic (lastCounter 2).keystore)
        "Maker" 2 1 0 := by
  have hname : (checkRemoteController ((lastCounter 2).genData 1).2.generic
      (lastCounter 2).keystore).2 = "Unknown" := rfl
  refine ⟨rfl, rfl, rfl, hname, fun h => ?_⟩
  exact absurd (hname.symm.trans h.1) (by decide)

end Keeloq

end KiisuFirmware
