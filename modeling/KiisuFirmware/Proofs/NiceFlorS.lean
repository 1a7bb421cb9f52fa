import KiisuFirmware.NiceFlorS

/-!
# What is encrypted is decrypted again

A lookup goes by bits of the first byte that it does not change, and so it is its own inverse, but
for the high half of the sixth byte, which it clears. The cipher works on 44 bits.
-/

namespace KiisuFirmware

namespace NiceFlorSBytes

theorem ofData_toData (p : NiceFlorSBytes) : ofData p.toData = p := by
  obtain ⟨p0, p1, p2, p3, p4, p5, rest⟩ := p
  simp only [ofData, toData, mk.injEq]
  refine ⟨?_, ?_, ?_, ?_, ?_, ?_, ?_⟩ <;> refine BitVec.eq_of_getLsbD_eq fun i hi => ?_ <;>
    simp only [BitVec.getLsbD_append, BitVec.getLsbD_extractLsb', decide_eq_true hi] <;> grind

theorem toData_ofData (data : BitVec 64) : (ofData data).toData = data := by
  refine BitVec.eq_of_getLsbD_eq fun i hi => ?_
  simp only [ofData, toData, BitVec.getLsbD_append, BitVec.getLsbD_extractLsb']
  grind

/-- The bytes without the high half of the sixth. -/
def block (p : NiceFlorSBytes) : NiceFlorSBytes := { p with p5 := p.p5 &&& 0x0f }

variable (p : NiceFlorSBytes)

theorem toData_block : p.block.toData = p.toData &&& 0xFFFF0FFFFFFFFFFF := by
  have hmask : ∀ i < 64, (0xFFFF0FFFFFFFFFFF : BitVec 64).getLsbD i = !decide (44 ≤ i ∧ i < 48) := by
    decide
  have hhalf : ∀ i < 8, (0x0f : BitVec 8).getLsbD i = decide (i < 4) := by decide
  refine BitVec.eq_of_getLsbD_eq fun i hi => ?_
  rw [BitVec.getLsbD_and, hmask i hi]
  simp only [toData, block, BitVec.getLsbD_append, BitVec.getLsbD_and]
  grind

/-! ## The lookups -/

/-- A lookup goes by bits of the first byte that it leaves as they are. -/
def GoesBy (key : BitVec 8 → BitVec 8) (mask : BitVec 8) : Prop :=
  ∀ p0 k, key (p0 ^^^ k &&& mask) = key p0

theorem xor_twice (x k : BitVec 8) : x ^^^ k ^^^ k = x := by
  rw [BitVec.xor_assoc, BitVec.xor_self, BitVec.xor_zero]

theorem masked_xor_twice (x k mask : BitVec 8) :
    ((x ^^^ k) &&& mask ^^^ k) &&& mask = x &&& mask := by
  refine BitVec.eq_of_getLsbD_eq fun i _ => ?_
  simp only [BitVec.getLsbD_and, BitVec.getLsbD_xor]
  cases x.getLsbD i <;> cases k.getLsbD i <;> cases mask.getLsbD i <;> rfl

theorem masked_xor (x k mask : BitVec 8) :
    (x &&& mask ^^^ k) &&& mask = (x ^^^ k) &&& mask := by
  refine BitVec.eq_of_getLsbD_eq fun i _ => ?_
  simp only [BitVec.getLsbD_and, BitVec.getLsbD_xor]
  cases x.getLsbD i <;> cases k.getLsbD i <;> cases mask.getLsbD i <;> rfl

theorem lookup_lookup {key : BitVec 8 → BitVec 8} {mask : BitVec 8} (h : GoesBy key mask) :
    (p.lookup key mask).lookup key mask = p.block := by
  simp only [lookup, magicXor, block, h p.p0, xor_twice, masked_xor_twice]

theorem lookup_block (key : BitVec 8 → BitVec 8) (mask : BitVec 8) :
    p.block.lookup key mask = p.lookup key mask := by
  simp only [lookup, magicXor, block, masked_xor]

theorem block_lookup (key : BitVec 8 → BitVec 8) (mask : BitVec 8) :
    (p.lookup key mask).block = p.lookup key mask := by
  simp only [lookup, magicXor, block, BitVec.and_assoc, BitVec.and_self]

variable (getByteInFile : BitVec 32 → BitVec 8)

theorem xor_and_and {mask kept : BitVec 8} (h : mask &&& kept = 0) (p0 k : BitVec 8) :
    (p0 ^^^ k &&& mask) &&& kept = p0 &&& kept := by
  refine BitVec.eq_of_getLsbD_eq fun i _ => ?_
  have hbit : (mask &&& kept).getLsbD i = false := by
    rw [h]
    exact BitVec.getLsbD_zero
  simp only [BitVec.getLsbD_and, BitVec.getLsbD_xor] at hbit ⊢
  generalize mask.getLsbD i = a at *
  generalize kept.getLsbD i = b at *
  cases a <;> cases b <;> simp at hbit ⊢

theorem goesBy_low : GoesBy (fun p0 => getByteInFile ((p0 &&& 0x1f).setWidth 32)) 0xe0 := by
  intro p0 k
  have hbits : (p0 ^^^ k &&& 0xe0) &&& 0x1f = p0 &&& 0x1f := xor_and_and (by decide) p0 k
  simp only [hbits]

theorem goesBy_high : GoesBy (fun p0 => getByteInFile ((p0 >>> 3).setWidth 32) + 0x25) 0x7 := by
  intro p0 k
  have hbits : (p0 ^^^ k &&& 0x7) >>> 3 = p0 >>> 3 := by
    rw [BitVec.ushiftRight_xor_distrib, BitVec.ushiftRight_and_distrib]
    simp
  simp only [hbits]

theorem exchange_exchange : p.exchange.exchange = p := rfl

theorem block_exchange : p.exchange.block = p.block.exchange := rfl

theorem decryptRound_encryptRound :
    ((((p.lookupLow getByteInFile).lookupHigh getByteInFile).lookupHigh
      getByteInFile).lookupLow getByteInFile) = p.block := by
  simp only [lookupLow, lookupHigh]
  rw [lookup_lookup _ (goesBy_high getByteInFile), lookup_block,
    lookup_lookup _ (goesBy_low getByteInFile)]

theorem encryptRound_decryptRound :
    ((((p.lookupHigh getByteInFile).lookupLow getByteInFile).lookupLow
      getByteInFile).lookupHigh getByteInFile) = p.block := by
  simp only [lookupLow, lookupHigh]
  rw [lookup_lookup _ (goesBy_low getByteInFile), lookup_block,
    lookup_lookup _ (goesBy_high getByteInFile)]

theorem block_lookupLow : (p.lookupLow getByteInFile).block = p.lookupLow getByteInFile :=
  block_lookup p _ _

theorem block_lookupHigh : (p.lookupHigh getByteInFile).block = p.lookupHigh getByteInFile :=
  block_lookup p _ _

theorem decryptRounds_encryptRounds :
    (p.encryptRounds getByteInFile).decryptRounds getByteInFile = p.block := by
  rw [encryptRounds, decryptRounds, decryptRound_encryptRound, block_exchange, block_lookupHigh,
    exchange_exchange, decryptRound_encryptRound]

theorem encryptRounds_decryptRounds :
    (p.decryptRounds getByteInFile).encryptRounds getByteInFile = p.block := by
  rw [encryptRounds, decryptRounds, encryptRound_decryptRound, block_exchange, block_lookupLow,
    exchange_exchange, encryptRound_decryptRound]

theorem decryptRounds_block :
    p.block.decryptRounds getByteInFile = p.decryptRounds getByteInFile := by
  have hlookup : p.block.lookupHigh getByteInFile = p.lookupHigh getByteInFile :=
    lookup_block p _ _
  rw [decryptRounds, hlookup, decryptRounds]

theorem block_encryptRounds :
    (p.encryptRounds getByteInFile).block = p.encryptRounds getByteInFile :=
  block_lookupHigh _ _

/-! ## The bytes after the rounds -/

theorem masked_not_twice (x mask : BitVec 8) : ~~~(~~~x &&& mask) &&& mask = x &&& mask := by
  refine BitVec.eq_of_getLsbD_eq fun i hi => ?_
  simp only [BitVec.getLsbD_and, BitVec.getLsbD_not, hi, decide_true, Bool.true_and]
  cases x.getLsbD i <;> cases mask.getLsbD i <;> rfl

theorem decryptPermute_encryptPermute : p.encryptPermute.decryptPermute.block = p.block := by
  simp only [encryptPermute, decryptPermute, block, BitVec.not_not, masked_not_twice]

theorem encryptPermute_decryptPermute : p.decryptPermute.block.encryptPermute = p.block := by
  simp only [encryptPermute, decryptPermute, block, BitVec.not_not, masked_not_twice]

theorem decrypt_encrypted :
    (p.encryptRounds getByteInFile).encryptPermute.decryptPermute.decryptRounds getByteInFile =
      p.block := by
  rw [← decryptRounds_block, decryptPermute_encryptPermute, block_encryptRounds,
    decryptRounds_encryptRounds]

theorem encrypt_decrypted :
    ((p.decryptPermute.decryptRounds getByteInFile).encryptRounds getByteInFile).encryptPermute =
      p.block := by
  rw [encryptRounds_decryptRounds, encryptPermute_decryptPermute]

end NiceFlorSBytes

open NiceFlorSBytes

theorem and_mask_eq_iff (data : BitVec 64) :
    data &&& 0xFFFF0FFFFFFFFFFF = data ↔ data.extractLsb' 44 4 = 0 := by
  have hmask : ∀ i < 64,
      (0xFFFF0FFFFFFFFFFF : BitVec 64).getLsbD i = !decide (44 ≤ i ∧ i < 48) := by decide
  have hzero : ∀ i, (0 : BitVec 4).getLsbD i = false := fun i => BitVec.getLsbD_zero
  constructor <;> intro h <;> refine BitVec.eq_of_getLsbD_eq fun i hi => ?_
  · rw [BitVec.getLsbD_extractLsb', ← h, BitVec.getLsbD_and, hmask _ (by omega), hzero]
    grind
  · have hbit := congrArg (BitVec.getLsbD · (i - 44)) h
    simp only [BitVec.getLsbD_extractLsb', hzero] at hbit
    rw [BitVec.getLsbD_and, hmask i hi]
    grind

theorem niceFlorSDecrypt_encrypt (data : BitVec 64) (getByteInFile : BitVec 32 → BitVec 8) :
    subghzProtocolNiceFlorSDecrypt (subghzProtocolNiceFlorSEncrypt data getByteInFile)
      getByteInFile = data &&& 0xFFFF0FFFFFFFFFFF := by
  rw [subghzProtocolNiceFlorSDecrypt, subghzProtocolNiceFlorSEncrypt, ofData_toData,
    decrypt_encrypted, toData_block, toData_ofData]

theorem niceFlorSEncrypt_decrypt (data : BitVec 64) (getByteInFile : BitVec 32 → BitVec 8) :
    subghzProtocolNiceFlorSEncrypt (subghzProtocolNiceFlorSDecrypt data getByteInFile)
      getByteInFile = data &&& 0xFFFF0FFFFFFFFFFF := by
  rw [subghzProtocolNiceFlorSDecrypt, subghzProtocolNiceFlorSEncrypt, ofData_toData,
    encrypt_decrypted, toData_block, toData_ofData]

/-- Both ways the bits 44 to 47 get lost, and nothing else. -/
theorem niceFlorS_inverse (data : BitVec 64) (getByteInFile : BitVec 32 → BitVec 8) :
    (subghzProtocolNiceFlorSDecrypt (subghzProtocolNiceFlorSEncrypt data getByteInFile)
        getByteInFile = data &&& 0xFFFF0FFFFFFFFFFF ∧
      subghzProtocolNiceFlorSEncrypt (subghzProtocolNiceFlorSDecrypt data getByteInFile)
        getByteInFile = data &&& 0xFFFF0FFFFFFFFFFF) ∧
      (subghzProtocolNiceFlorSDecrypt (subghzProtocolNiceFlorSEncrypt data getByteInFile)
        getByteInFile = data ↔ data.extractLsb' 44 4 = 0) ∧
      (subghzProtocolNiceFlorSEncrypt (subghzProtocolNiceFlorSDecrypt data getByteInFile)
        getByteInFile = data ↔ data.extractLsb' 44 4 = 0) := by
  rw [niceFlorSDecrypt_encrypt, niceFlorSEncrypt_decrypt]
  exact ⟨⟨rfl, rfl⟩, and_mask_eq_iff data, and_mask_eq_iff data⟩

/-- Bit 44 is one of a word that the frames are long enough for. -/
theorem not_niceFlorS_inverse :
    ¬∀ (data : BitVec 64) (getByteInFile : BitVec 32 → BitVec 8), data.toNat < 2 ^ 52 →
      subghzProtocolNiceFlorSDecrypt (subghzProtocolNiceFlorSEncrypt data getByteInFile)
          getByteInFile = data ∧
        subghzProtocolNiceFlorSEncrypt (subghzProtocolNiceFlorSDecrypt data getByteInFile)
          getByteInFile = data := by
  intro h
  have hlost := (h 0x100000000000 (fun _ => 0) (by decide)).1
  exact absurd hlost (by decide)

end KiisuFirmware
