import KiisuFirmware.Crypto1
import KiisuFirmware.Parity
import KiisuFirmware.Proofs.BitBuffer

/-!
# Crypto1 undone

Only the lower 24 bits of the halves matter (`Alike`). A step that goes back finds the bit that was
shifted out, as it is in the parity that was fed in (`undoes`). So a word that is known as it was
encrypted is decrypted by a cipher that goes on with it and back again
(`rollback_word`, `decryptNtEnc_word`), and what the listener sends is such a word
(`sendNonce_encrypted`).
-/

namespace KiisuFirmware

/-! ## Parities -/

section Parities

theorem nfcUtilEvenParity32_eq (x : BitVec 32) :
    nfcUtilEvenParity32 x = parityOf ((List.range 32).map x.getLsbD) := by
  rw [nfcUtilEvenParity32, builtinParity, foldl_xor]
  exact congrArg parityOf (List.map_congr_left fun i _ => BitVec.testBit_toNat x)

theorem nfcUtilEvenParity32_xor (x y : BitVec 32) :
    nfcUtilEvenParity32 (x ^^^ y) = (nfcUtilEvenParity32 x ^^ nfcUtilEvenParity32 y) := by
  rw [nfcUtilEvenParity32_eq, nfcUtilEvenParity32_eq, nfcUtilEvenParity32_eq, ← parityOf_map_xor]
  exact congrArg parityOf (List.map_congr_left fun i _ => BitVec.getLsbD_xor)

theorem nfcUtilEvenParity32_bitNum (b : Bool) : nfcUtilEvenParity32 (bitNum b) = b := by
  cases b <;> decide

theorem nfcUtilEvenParity32_bitNum_shift (b : Bool) :
    nfcUtilEvenParity32 (bitNum b <<< 23) = b := by
  cases b <;> decide

end Parities

/-! ## The halves -/

theorem lfPolyOdd_and (x : BitVec 32) : LF_POLY_ODD &&& (x &&& 0xffffff) = LF_POLY_ODD &&& x := by
  have h : LF_POLY_ODD &&& 0xffffff = LF_POLY_ODD := by decide
  rw [BitVec.and_comm x, ← BitVec.and_assoc, h]

theorem crypto1Filter_and (x : BitVec 32) : crypto1Filter (x &&& 0xffffff) = crypto1Filter x := by
  have hnibble : ∀ n ≤ 16, (x &&& 0xffffff) >>> n &&& (0xf : BitVec 32) =
      x >>> n &&& (0xf : BitVec 32) := by
    intro n hn
    have h : (0xffffff : BitVec 32) >>> n &&& (0xf : BitVec 32) = 0xf := by
      interval_cases n <;> decide
    rw [BitVec.ushiftRight_and_distrib, BitVec.and_assoc, h]
  have hlow : x &&& 0xffffff &&& 0xf = x &&& 0xf := by
    simpa using hnibble 0 (Nat.zero_le _)
  simp only [crypto1Filter, hlow, hnibble 4 (by decide), hnibble 8 (by decide),
    hnibble 12 (by decide), hnibble 16 (by decide)]

namespace Crypto1State

/-- The same register, but for what has been shifted out of it. -/
def Alike (s t : Crypto1State) : Prop :=
  s.odd &&& 0xffffff = t.odd &&& 0xffffff ∧ s.even &&& 0xffffff = t.even &&& 0xffffff

theorem lfsrRollbackBit_alike (fb input : Bool) {s t : Crypto1State} (h : Alike s t) :
    (lfsrRollbackBit fb input s).1 = (lfsrRollbackBit fb input t).1 ∧
      Alike (lfsrRollbackBit fb input s).2 (lfsrRollbackBit fb input t).2 := by
  obtain ⟨hodd, heven⟩ := h
  have hfilter : crypto1Filter s.even = crypto1Filter t.even := by
    rw [← crypto1Filter_and, heven, crypto1Filter_and]
  have hpoly : LF_POLY_ODD &&& s.even = LF_POLY_ODD &&& t.even := by
    rw [← lfPolyOdd_and, heven, lfPolyOdd_and]
  simp only [lfsrRollbackBit, Alike, hodd, hfilter, hpoly, heven, and_self]

theorem half_eq (x : BitVec 32) (b : Bool) :
    ((x <<< 1 ||| bitNum b) &&& 0xffffff) >>> 1 ||| bitNum (x.getLsbD 23) <<< 23 =
      x &&& 0xffffff := by
  refine BitVec.eq_of_getLsbD_eq fun i hi => ?_
  simp only [bitNum, BitVec.getLsbD_or, BitVec.getLsbD_ushiftRight, BitVec.getLsbD_and,
    BitVec.getLsbD_shiftLeft, BitVec.getLsbD_setWidth, BitVec.getLsbD_ofBool]
  interval_cases i <;> simp

theorem lowest_eq (x : BitVec 32) (b : Bool) :
    ((x <<< 1 ||| bitNum b) &&& 0xffffff) &&& 1 = bitNum b := by
  refine BitVec.eq_of_getLsbD_eq fun i hi => ?_
  simp only [bitNum, BitVec.getLsbD_or, BitVec.getLsbD_and,
    BitVec.getLsbD_shiftLeft, BitVec.getLsbD_setWidth, BitVec.getLsbD_ofBool]
  interval_cases i <;> simp

theorem lfPolyEven_eq (x : BitVec 32) (b : Bool) :
    (LF_POLY_EVEN &&& ((x <<< 1 ||| bitNum b) &&& 0xffffff) >>> 1) ^^^
      bitNum (x.getLsbD 23) <<< 23 = LF_POLY_EVEN &&& x := by
  refine BitVec.eq_of_getLsbD_eq fun i hi => ?_
  simp only [LF_POLY_EVEN, bitNum, BitVec.getLsbD_or, BitVec.getLsbD_ushiftRight,
    BitVec.getLsbD_and, BitVec.getLsbD_xor, BitVec.getLsbD_shiftLeft, BitVec.getLsbD_setWidth,
    BitVec.getLsbD_ofBool]
  interval_cases i <;> simp

theorem parity_rollback (s : Crypto1State) (fb input : Bool) :
    let t := (bit fb input s).2.odd &&& 0xffffff
    nfcUtilEvenParity32 ((t &&& (1 : BitVec 32)) ^^^ (LF_POLY_EVEN &&& t >>> 1) ^^^
      (LF_POLY_ODD &&& s.odd) ^^^ bitNum input ^^^ bitNum (crypto1Filter s.odd && fb)) =
        s.even.getLsbD 23 := by
  intro t
  have hlowest : t &&& 1 = bitNum (nfcUtilEvenParity32 (bitNum (crypto1Filter s.odd && fb) ^^^
      bitNum input ^^^ (LF_POLY_ODD &&& s.odd) ^^^ (LF_POLY_EVEN &&& s.even))) :=
    lowest_eq _ _
  have heven : nfcUtilEvenParity32 (LF_POLY_EVEN &&& s.even) =
      (nfcUtilEvenParity32 (LF_POLY_EVEN &&& t >>> 1) ^^ s.even.getLsbD 23) := by
    rw [← lfPolyEven_eq s.even, nfcUtilEvenParity32_xor, nfcUtilEvenParity32_bitNum_shift]
    rfl
  rw [hlowest]
  simp only [nfcUtilEvenParity32_xor, nfcUtilEvenParity32_bitNum, heven]
  have hcancel : ∀ a i o e x : Bool,
      (((((((a ^^ i) ^^ o) ^^ (e ^^ x)) ^^ e) ^^ o) ^^ i) ^^ a) = x := by decide
  exact hcancel ..

theorem undoes (fb : Bool) : Undoes (bit fb) (lfsrRollbackBit fb) Alike where
  back_step input s := by
    refine ⟨rfl, rfl, ?_⟩
    have hparity := parity_rollback s fb input
    have hhalf := half_eq s.even (nfcUtilEvenParity32 (bitNum (crypto1Filter s.odd && fb) ^^^
      bitNum input ^^^ (LF_POLY_ODD &&& s.odd) ^^^ (LF_POLY_EVEN &&& s.even)))
    rw [← hparity] at hhalf
    have heven : (lfsrRollbackBit fb input (bit fb input s).2).2.even = s.even &&& 0xffffff := hhalf
    rw [heven, BitVec.and_assoc, BitVec.and_self]
  back_alike input _ _ h := lfsrRollbackBit_alike fb input h
  trans h h' := ⟨h.1.trans h'.1, h.2.trans h'.2⟩

/-! ## Words -/

theorem nodup_bePlaces : bePlaces.Nodup := by decide

theorem bePlaces_lt : ∀ place ∈ bePlaces, place < 32 := by decide

theorem rollback_word (s : Crypto1State) (input : BitVec 32) (fb : Bool) :
    ((s.word input fb).2.lfsrRollbackWord input fb).1 = (s.word input fb).1 ∧
      Alike ((s.word input fb).2.lfsrRollbackWord input fb).2 s :=
  (undoes fb).words_undone input bePlaces s ⟨rfl, rfl⟩

theorem bit_feedback (input : Bool) (s : Crypto1State) :
    bit true (input ^^ (bit false input s).1) s = bit false input s := by
  have hfeed : bitNum (crypto1Filter s.odd && true) ^^^ bitNum (input ^^ crypto1Filter s.odd) =
      bitNum (crypto1Filter s.odd && false) ^^^ bitNum input := by
    cases crypto1Filter s.odd <;> cases input <;> rfl
  show (_, _) = (_, _)
  rw [show bitNum (crypto1Filter s.odd && true) ^^^ bitNum (input ^^ (bit false input s).1) = _
    from hfeed]

theorem word_feedback (s : Crypto1State) (input : BitVec 32) :
    s.word (input ^^^ (s.word input false).1) true = s.word input false :=
  words_feedback bit_feedback input nodup_bePlaces bePlaces_lt s

/-! ## Bytes -/

theorem bePlaces_eq : bePlaces =
    (List.range 8).map (· + 24) ++ ((List.range 8).map (· + 16) ++
      ((List.range 8).map (· + 8) ++ (List.range 8).map (· + 0))) := by decide

theorem map_bePlaces (a b c d : BitVec 8) : bePlaces.map (a ++ b ++ c ++ d).getLsbD =
    (List.range 8).map a.getLsbD ++ ((List.range 8).map b.getLsbD ++
      ((List.range 8).map c.getLsbD ++ (List.range 8).map d.getLsbD)) := by
  have hbyte : ∀ {offset : ℕ} {x : BitVec 8},
      (∀ i < 8, (a ++ b ++ c ++ d).getLsbD (i + offset) = x.getLsbD i) →
        ((List.range 8).map (· + offset)).map (a ++ b ++ c ++ d).getLsbD =
          (List.range 8).map x.getLsbD := fun h => by
    rw [List.map_map]
    exact List.map_congr_left fun i hi => h i (List.mem_range.1 hi)
  rw [bePlaces_eq, List.map_append, List.map_append, List.map_append]
  refine congrArg₂ _ (hbyte fun i hi => ?_) (congrArg₂ _ (hbyte fun i hi => ?_)
    (congrArg₂ _ (hbyte fun i hi => ?_) (hbyte fun i hi => ?_)))
  · have hlt : ¬i + 24 < 8 ∧ ¬i + 16 < 8 := by omega
    simp only [BitVec.getLsbD_append]
    simp [hi, hlt]
  all_goals
    simp only [BitVec.getLsbD_append]
    simp [hi]

theorem collect_byte (offset : ℕ) (outs : List Bool) :
    collect 32 (outs.zip ((List.range 8).map (· + offset))) =
      (collect 8 (outs.zip (List.range 8))).setWidth 32 <<< offset := by
  have hplaces : ∀ bit ∈ outs.zip (List.range 8), bit.2 < 8 :=
    fun bit hbit => List.mem_range.1 (List.of_mem_zip hbit).2
  rw [← collect_add offset hplaces, List.zip_map_right]
  rfl

theorem append_bytes (a b c d : BitVec 8) :
    a.setWidth 32 <<< 24 ||| (b.setWidth 32 <<< 16 ||| (c.setWidth 32 <<< 8 |||
      d.setWidth 32 <<< 0)) = a ++ b ++ c ++ d := by
  refine BitVec.eq_of_getLsbD_eq fun i hi => ?_
  simp only [BitVec.getLsbD_or, BitVec.getLsbD_shiftLeft, BitVec.getLsbD_setWidth,
    BitVec.getLsbD_append]
  interval_cases i <;> simp

theorem collect_bePlaces {as bs cs ds : List Bool} (ha : as.length = 8) (hb : bs.length = 8)
    (hc : cs.length = 8) :
    collect 32 ((as ++ (bs ++ (cs ++ ds))).zip bePlaces) =
      collect 8 (as.zip (List.range 8)) ++ collect 8 (bs.zip (List.range 8)) ++
        collect 8 (cs.zip (List.range 8)) ++ collect 8 (ds.zip (List.range 8)) := by
  rw [bePlaces_eq, List.zip_append (by simpa using ha), List.zip_append (by simpa using hb),
    List.zip_append (by simpa using hc), collect_append, collect_append, collect_append,
    collect_byte, collect_byte, collect_byte, collect_byte, append_bytes]

theorem word_append (s : Crypto1State) (a b c d : BitVec 8) (isEncrypted : Bool) :
    s.word (a ++ b ++ c ++ d) isEncrypted =
      let ra := s.byte a isEncrypted
      let rb := ra.2.byte b isEncrypted
      let rc := rb.2.byte c isEncrypted
      let rd := rc.2.byte d isEncrypted
      (ra.1 ++ rb.1 ++ rc.1 ++ rd.1, rd.2) := by
  simp only [word, byte, words_eq, map_bePlaces, stream_append]
  rw [collect_bePlaces (by simp) (by simp) (by simp)]

theorem encrypt_four (s : Crypto1State) {buff out : BitBuffer} {w x y z a b c d : UInt8}
    (hbytes : buff.bytes = [a, b, c, d]) (hsize : buff.sizeBits = 32) (hout : 4 ≤ out.capacityBytes)
    {ra rb rc rd : UInt8 × Crypto1State} (hra : s.cryptByte w a = ra)
    (hrb : ra.2.cryptByte x b = rb) (hrc : rb.2.cryptByte y c = rc)
    (hrd : rc.2.cryptByte z d = rd) :
    ∃ out', s.encrypt (some [w, x, y, z]) buff out = some (out', rd.2) ∧
      out'.bytes = [ra.1, rb.1, rc.1, rd.1] := by
  have hget : ∀ i < 4, buff.getByte i = [a, b, c, d][i]? := by
    intro i hi
    rw [← hbytes, BitBuffer.bytes, List.getElem?_take_of_lt (by simpa [BitBuffer.sizeBytes, hsize])]
    rfl
  have hcap : 32 ≤ out.capacityBytes * BITS_IN_BYTE := by
    unfold BITS_IN_BYTE
    omega
  obtain ⟨out₀, hset, hdata₀, hsize₀⟩ := BitBuffer.put_eq [] (Nat.zero_le out.capacityBytes) hcap
  have hbyte : ∀ {buf : BitBuffer} (i : ℕ) (e : UInt8), i < 4 → buf.sizeBits = 32 →
      ∃ buf', buf.setByte i e = some buf' ∧ buf'.data = overwrite buf.data i [e] ∧
        buf'.sizeBits = 32 := by
    intro buf i e hi hbuf
    have hbufBytes : buf.sizeBytes = 4 := by simp [BitBuffer.sizeBytes, hbuf, BITS_IN_BYTE]
    have hle := buf.sizeBytes_le
    have hi' : i ≤ buf.capacityBytes := by
      unfold BitBuffer.capacityBytes
      omega
    have hput := BitBuffer.put_eq [e] hi' buf.fits
    rwa [BitBuffer.setByte, if_pos (by omega), ← hbuf]
  obtain ⟨out₁, hset₁, hdata₁, hsize₁⟩ := hbyte 0 ra.1 (by decide) hsize₀
  obtain ⟨out₂, hset₂, hdata₂, hsize₂⟩ := hbyte 1 rb.1 (by decide) hsize₁
  obtain ⟨out₃, hset₃, hdata₃, hsize₃⟩ := hbyte 2 rc.1 (by decide) hsize₂
  obtain ⟨out₄, hset₄, hdata₄, hsize₄⟩ := hbyte 3 rd.1 (by decide) hsize₃
  refine ⟨out₄, ?_, ?_⟩
  · have hrange : List.range (32 / 8) = [0, 1, 2, 3] := by decide
    simp only [encrypt, BitBuffer.setSize, hsize, hset, hrange, List.foldlM_cons, List.foldlM_nil,
      hget 0 (by decide), hget 1 (by decide), hget 2 (by decide), hget 3 (by decide)]
    simp [hra, hrb, hrc, hrd, hset₁, hset₂, hset₃, hset₄]
  · have hfour : out₄.sizeBytes = 4 := by simp [BitBuffer.sizeBytes, hsize₄, BITS_IN_BYTE]
    rw [BitBuffer.bytes, hfour, hdata₄, hdata₃, hdata₂, hdata₁]
    have hone := overwrite_append (c := out₀.data) (Nat.zero_le _) [ra.1] [rb.1]
    have htwo := overwrite_append (c := out₀.data) (Nat.zero_le _) [ra.1, rb.1] [rc.1]
    have hthree := overwrite_append (c := out₀.data) (Nat.zero_le _) [ra.1, rb.1, rc.1] [rd.1]
    simp only [List.length_cons, List.length_nil, Nat.zero_add, Nat.reduceAdd, List.cons_append,
      List.nil_append] at hone htwo hthree
    rw [hone, htwo, hthree]
    rfl

end Crypto1State

theorem decryptNtEnc_word (cuid nt : BitVec 32) (knownKey : List UInt8) :
    crypto1DecryptNtEnc cuid (nt ^^^ ((Crypto1State.init (bitLibBytesToNumBe knownKey)).word
      (nt ^^^ cuid) false).1) knownKey = nt := by
  set s := Crypto1State.init (bitLibBytesToNumBe knownKey)
  have hinput : nt ^^^ (s.word (nt ^^^ cuid) false).1 ^^^ cuid =
      nt ^^^ cuid ^^^ (s.word (nt ^^^ cuid) false).1 := by
    rw [BitVec.xor_assoc, BitVec.xor_comm _ cuid, ← BitVec.xor_assoc]
  show nt ^^^ _ ^^^ ((s.word (_ ^^^ _ ^^^ cuid) true).2.lfsrRollbackWord (_ ^^^ _ ^^^ cuid)
    true).1 = nt
  rw [hinput, (Crypto1State.rollback_word s _ true).1, Crypto1State.word_feedback,
    BitVec.xor_assoc, BitVec.xor_self, BitVec.xor_zero]

/-! ## The nonce inside an authentication -/

theorem bytesToNumBe_four (a b c d : UInt8) : (bitLibBytesToNumBe [a, b, c, d]).toUInt32.toBitVec =
    a.toBitVec ++ b.toBitVec ++ c.toBitVec ++ d.toBitVec := by
  rw [← Crypto1State.append_bytes]
  refine BitVec.eq_of_getLsbD_eq fun i hi => ?_
  interval_cases i <;> simp [bitLibBytesToNumBe]

theorem exists_numToBytesBe (x : UInt32) : ∃ a b c d : UInt8,
    bitLibNumToBytesBe x.toUInt64 4 = [a, b, c, d] ∧
      a.toBitVec ++ b.toBitVec ++ c.toBitVec ++ d.toBitVec = x.toBitVec := by
  refine ⟨_, _, _, _, rfl, ?_⟩
  rw [← Crypto1State.append_bytes]
  refine BitVec.eq_of_getLsbD_eq fun i hi => ?_
  interval_cases i <;> simp

/-- The nonce that is sent in an authentication inside another one is fed in in plain, and what is
sent is the nonce with the key stream added to it. -/
theorem sendNonce_encrypted {l : MfClassicListener Crypto1State} (random : UInt32) (keyNum : UInt64)
    (hcomm : l.commState = .encrypted) (hplain : 4 ≤ l.txPlainBuffer.capacityBytes)
    (hencrypted : 4 ≤ l.txEncryptedBuffer.capacityBytes) :
    ∃ l' ntEnc, l.sendNonce crypto1Cipher random keyNum = some l' ∧
      l'.txEncryptedBuffer.bytes = ntEnc ∧ ntEnc.length = 4 ∧
      (bitLibBytesToNumBe ntEnc).toUInt32.toBitVec = random.toBitVec ^^^
        ((Crypto1State.init keyNum).word (random.toBitVec ^^^ l.data.cuid.toBitVec) false).1 := by
  obtain ⟨a, b, c, d, hnt, hrandom⟩ := exists_numToBytesBe random
  obtain ⟨w, x, y, z, hkeyStream, hinput⟩ := exists_numToBytesBe (random ^^^ l.data.cuid)
  have hbits : 32 ≤ l.txPlainBuffer.capacityBytes * BITS_IN_BYTE := by
    unfold BITS_IN_BYTE
    omega
  obtain ⟨txPlain, hcopy, hdata, hsize⟩ :=
    BitBuffer.put_eq [a, b, c, d] (Nat.zero_le _) hbits
  have hcopyBytes : l.txPlainBuffer.copyBytes [a, b, c, d] = some txPlain :=
    (if_pos hplain).trans hcopy
  obtain ⟨txEncrypted, hencrypt, hbytes⟩ := Crypto1State.encrypt_four
    (Crypto1State.init keyNum) (BitBuffer.bytes_copyBytes hcopyBytes) hsize hencrypted
    (w := w) (x := x) (y := y) (z := z) rfl rfl rfl rfl
  obtain ⟨crypto, hcrypto⟩ : ∃ crypto, (Crypto1State.init keyNum).encrypt (some [w, x, y, z])
      txPlain l.txEncryptedBuffer = some (txEncrypted, crypto) := ⟨_, hencrypt⟩
  have hsend : l.sendNonce crypto1Cipher random keyNum = some { l with
      crypto := crypto, txPlainBuffer := txPlain, txEncryptedBuffer := txEncrypted } := by
    rw [MfClassicListener.sendNonce, hnt, hkeyStream]
    simp [hcomm, hcopyBytes, crypto1Cipher, hcrypto]
  refine ⟨_, [_, _, _, _], hsend, hbytes, rfl, ?_⟩
  rw [bytesToNumBe_four, ← UInt32.toBitVec_xor, ← hinput, Crypto1State.word_append, ← hrandom,
    BitVec.xor_comm]
  simp only [Crypto1State.cryptByte, UInt8.toBitVec_xor, BitVec.xor_append]

theorem toNat_mod_of_alike {x y : BitVec 32} (h : x &&& 0xffffff = y &&& 0xffffff) :
    x.toNat % 2 ^ 24 = y.toNat % 2 ^ 24 := by
  have hmod : ∀ z : BitVec 32, (z &&& 0xffffff).toNat = z.toNat % 2 ^ 24 :=
    fun z => (BitVec.toNat_and ..).trans (Nat.and_two_pow_sub_one_eq_mod z.toNat 24)
  rw [← hmod, ← hmod, h]

/-- Going back over a word finds its key stream and the register, and so the nonce of an
authentication inside another one is decrypted with the key. -/
theorem rollback_decrypts_nonce :
    (∀ (crypto1 : Crypto1State) (input : BitVec 32) (fb : Bool),
      ((crypto1.word input fb).2.lfsrRollbackWord input fb).1 = (crypto1.word input fb).1 ∧
      ((crypto1.word input fb).2.lfsrRollbackWord input fb).2.odd.toNat % 2 ^ 24 =
        crypto1.odd.toNat % 2 ^ 24 ∧
      ((crypto1.word input fb).2.lfsrRollbackWord input fb).2.even.toNat % 2 ^ 24 =
        crypto1.even.toNat % 2 ^ 24) ∧
    ∀ (l : MfClassicListener Crypto1State) (nt : UInt32) (key : Vector UInt8 6),
      l.commState = .encrypted → 4 ≤ l.txPlainBuffer.capacityBytes →
      4 ≤ l.txEncryptedBuffer.capacityBytes →
      ∃ l' ntEnc, l.sendNonce crypto1Cipher nt (bitLibBytesToNumBe key.toList) = some l' ∧
        l'.txEncryptedBuffer.bytes = ntEnc ∧ ntEnc.length = 4 ∧
        crypto1DecryptNtEnc l.data.cuid.toBitVec (bitLibBytesToNumBe ntEnc).toUInt32.toBitVec
          key.toList = nt.toBitVec := by
  refine ⟨fun crypto1 input fb => ?_, fun l nt key hcomm hplain hencrypted => ?_⟩
  · obtain ⟨hword, hodd, heven⟩ := Crypto1State.rollback_word crypto1 input fb
    exact ⟨hword, toNat_mod_of_alike hodd, toNat_mod_of_alike heven⟩
  · obtain ⟨l', ntEnc, hsend, hbytes, hlen, hnum⟩ := sendNonce_encrypted nt
      (bitLibBytesToNumBe key.toList) hcomm hplain hencrypted
    refine ⟨l', ntEnc, hsend, hbytes, hlen, ?_⟩
    rw [hnum, decryptNtEnc_word]

/-- A listener that a reader has authenticated itself to. -/
def encryptedListener : MfClassicListener Crypto1State :=
  { MfClassicListener.alloc ⟨0x11223344, .type1k, fun _ => Vector.replicate 16 0⟩
      Crypto1State.reset (.alloc 64) (.alloc 64) (.alloc 64) with
    state := .authComplete
    commState := .encrypted }

theorem rollback_decrypts_nonce_delivered : ∃ l' ntEnc,
    encryptedListener.sendNonce crypto1Cipher 0x01200145
      (bitLibBytesToNumBe (Vector.replicate 6 0xFF).toList) = some l' ∧
    l'.txEncryptedBuffer.bytes = ntEnc ∧ ntEnc.length = 4 ∧
    crypto1DecryptNtEnc encryptedListener.data.cuid.toBitVec
      (bitLibBytesToNumBe ntEnc).toUInt32.toBitVec (Vector.replicate 6 0xFF).toList =
        (0x01200145 : UInt32).toBitVec :=
  rollback_decrypts_nonce.2 encryptedListener 0x01200145 (Vector.replicate 6 0xFF) rfl (by decide)
    (by decide)

/-!
## Weak nonces

The upper half of the register of the nonces goes on as a register of its own (`upper_prngStep`),
and after 16 steps what it was is the lower half (`lower_prngStep_iterate`). So a nonce is what 16
steps lead to when its upper half, as the bytes are swapped, follows from its lower one, which is
what is looked at.
-/

section Halves

def upper (x : BitVec 32) : BitVec 16 := (x >>> 16).setWidth 16

def lower (x : BitVec 32) : BitVec 16 := x.setWidth 16

theorem getLsbD_upper (x : BitVec 32) {i : ℕ} (hi : i < 16) :
    (upper x).getLsbD i = x.getLsbD (16 + i) := by
  simp [upper, hi]

theorem getLsbD_lower (x : BitVec 32) {i : ℕ} (hi : i < 16) :
    (lower x).getLsbD i = x.getLsbD i := by
  simp [lower, hi]

theorem ext_halves {x y : BitVec 32} (hupper : upper x = upper y) (hlower : lower x = lower y) :
    x = y := by
  refine BitVec.eq_of_getLsbD_eq fun i hi => ?_
  rcases Nat.lt_or_ge i 16 with hlt | hge
  · rw [← getLsbD_lower x hlt, ← getLsbD_lower y hlt, hlower]
  · have hi' : i - 16 < 16 := by omega
    have hadd : 16 + (i - 16) = i := by omega
    rw [← hadd, ← getLsbD_upper x hi', ← getLsbD_upper y hi', hupper]

theorem exists_upper (x : BitVec 16) : ∃ y, upper y = x := by
  refine ⟨x.setWidth 32 <<< 16, BitVec.eq_of_getLsbD_eq fun i hi => ?_⟩
  have hlt : 16 + i < 32 := by omega
  rw [getLsbD_upper _ hi]
  simp [hi, hlt]

theorem getLsbD_swapBytes (x : BitVec 16) {i : ℕ} (hi : i < 16) :
    (swapBytes x).getLsbD i = x.getLsbD (i ^^^ 8) := by
  rw [swapBytes, BitVec.getLsbD_or, BitVec.getLsbD_shiftLeft, BitVec.getLsbD_and,
    BitVec.getLsbD_ushiftRight]
  interval_cases i <;> simp

theorem swapBytes_swapBytes (x : BitVec 16) : swapBytes (swapBytes x) = x := by
  refine BitVec.eq_of_getLsbD_eq fun i hi => ?_
  have hxor : i ^^^ 8 < 16 := Nat.xor_lt_two_pow (n := 4) hi (by decide)
  rw [getLsbD_swapBytes _ hi, getLsbD_swapBytes _ hxor, Nat.xor_assoc, Nat.xor_self, Nat.xor_zero]

theorem getLsbD_swapEndian (x : BitVec 32) {i : ℕ} (hi : i < 32) :
    (swapEndian x).getLsbD i = x.getLsbD (i ^^^ 24) := by
  simp only [swapEndian, BitVec.getLsbD_or, BitVec.getLsbD_shiftLeft, BitVec.getLsbD_and,
    BitVec.getLsbD_ushiftRight]
  interval_cases i <;> simp

theorem swapEndian_swapEndian (x : BitVec 32) : swapEndian (swapEndian x) = x := by
  refine BitVec.eq_of_getLsbD_eq fun i hi => ?_
  have hxor : i ^^^ 24 < 32 := Nat.xor_lt_two_pow (n := 5) hi (by decide)
  rw [getLsbD_swapEndian _ hi, getLsbD_swapEndian _ hxor, Nat.xor_assoc, Nat.xor_self,
    Nat.xor_zero]

theorem upper_swapEndian (x : BitVec 32) : upper (swapEndian x) = swapBytes (lower x) := by
  refine BitVec.eq_of_getLsbD_eq fun i hi => ?_
  have hxor : i ^^^ 8 < 16 := Nat.xor_lt_two_pow (n := 4) hi (by decide)
  rw [getLsbD_upper _ hi, getLsbD_swapEndian _ (by omega), getLsbD_swapBytes _ hi,
    getLsbD_lower _ hxor]
  interval_cases i <;> rfl

theorem lower_swapEndian (x : BitVec 32) : lower (swapEndian x) = swapBytes (upper x) := by
  rw [← swapBytes_swapBytes (lower _), ← upper_swapEndian, swapEndian_swapEndian]

end Halves

section Steps

theorem upper_prngStep (x : BitVec 32) : upper (prngStep x) = weakStep (upper x) := by
  refine BitVec.eq_of_getLsbD_eq fun i hi => ?_
  rw [getLsbD_upper _ hi]
  simp only [prngStep, weakStep, upper, BitVec.getLsbD_or, BitVec.getLsbD_shiftLeft,
    BitVec.getLsbD_xor, BitVec.getLsbD_ushiftRight, BitVec.getLsbD_setWidth]
  interval_cases i <;> simp

theorem upper_prngStep_iterate (n : ℕ) (x : BitVec 32) :
    upper (prngStep^[n] x) = weakStep^[n] (upper x) :=
  Function.Semiconj.iterate_right upper_prngStep n x

theorem getLsbD_prngStep (x : BitVec 32) {i : ℕ} (hi : i + 1 < 32) :
    (prngStep x).getLsbD i = x.getLsbD (i + 1) := by
  have hlt : i < 31 := by omega
  simp [prngStep, hlt, Nat.add_comm]

theorem getLsbD_prngStep_iterate : ∀ (n : ℕ) (x : BitVec 32) {i : ℕ}, i + n < 32 →
    (prngStep^[n] x).getLsbD i = x.getLsbD (i + n)
  | 0, _, _, _ => rfl
  | n + 1, x, i, hi => by
    rw [Function.iterate_succ_apply', getLsbD_prngStep _ (by omega),
      getLsbD_prngStep_iterate n x (by omega), Nat.add_assoc, Nat.add_comm 1 n]

theorem lower_prngStep_iterate (x : BitVec 32) : lower (prngStep^[16] x) = upper x := by
  refine BitVec.eq_of_getLsbD_eq fun i hi => ?_
  rw [getLsbD_lower _ hi, getLsbD_prngStep_iterate 16 x (by omega), getLsbD_upper _ hi,
    Nat.add_comm]

theorem prngSuccessor_add (x : BitVec 32) (m n : ℕ) :
    crypto1PrngSuccessor x (m + n) = crypto1PrngSuccessor (crypto1PrngSuccessor x n) m := by
  rw [crypto1PrngSuccessor, crypto1PrngSuccessor, crypto1PrngSuccessor, swapEndian_swapEndian,
    Function.iterate_add_apply]

theorem halves_prngSuccessor (x : BitVec 32) :
    upper (crypto1PrngSuccessor x 16) = swapBytes (upper (swapEndian x)) ∧
      lower (crypto1PrngSuccessor x 16) = swapBytes (weakStep^[16] (upper (swapEndian x))) := by
  rw [crypto1PrngSuccessor, upper_swapEndian, lower_swapEndian, lower_prngStep_iterate,
    upper_prngStep_iterate]
  exact ⟨rfl, rfl⟩

theorem isWeakPrngNonce_iff_halves (nonce : BitVec 32) : crypto1IsWeakPrngNonce nonce = true ↔
    nonce ≠ 0 ∧ swapBytes (weakStep^[16] (swapBytes (upper nonce))) = lower nonce := by
  rw [crypto1IsWeakPrngNonce]
  split_ifs with hzero
  · simp [hzero]
  · simp only [hzero, beq_iff_eq, ne_eq, not_false_eq_true, true_and]
    exact Iff.rfl

theorem halves_iff_successor (nonce : BitVec 32) :
    swapBytes (weakStep^[16] (swapBytes (upper nonce))) = lower nonce ↔
      ∃ x, nonce = crypto1PrngSuccessor x 16 := by
  constructor
  · intro h
    obtain ⟨y, hy⟩ := exists_upper (swapBytes (upper nonce))
    obtain ⟨hupper, hlower⟩ := halves_prngSuccessor (swapEndian y)
    rw [swapEndian_swapEndian, hy] at hupper hlower
    exact ⟨swapEndian y, ext_halves (by rw [hupper, swapBytes_swapBytes]) (by rw [hlower, h])⟩
  · rintro ⟨x, rfl⟩
    obtain ⟨hupper, hlower⟩ := halves_prngSuccessor x
    rw [hupper, hlower, swapBytes_swapBytes]

end Steps

/-- What is called weak is what 16 steps can lead to, and so is what more of them lead to. -/
theorem isWeakPrngNonce_iff_successor :
    (∀ n, crypto1IsWeakPrngNonce n = true ↔ n ≠ 0 ∧ ∃ x, n = crypto1PrngSuccessor x 16) ∧
      ∀ x k, 16 ≤ k → crypto1PrngSuccessor x k ≠ 0 →
        crypto1IsWeakPrngNonce (crypto1PrngSuccessor x k) = true := by
  have hiff : ∀ n, crypto1IsWeakPrngNonce n = true ↔
      n ≠ 0 ∧ ∃ x, n = crypto1PrngSuccessor x 16 := fun n => by
    rw [isWeakPrngNonce_iff_halves, halves_iff_successor]
  refine ⟨hiff, fun x k hk hne => (hiff _).2 ⟨hne, crypto1PrngSuccessor x (k - 16), ?_⟩⟩
  rw [← prngSuccessor_add, Nat.add_sub_cancel' hk]

theorem isWeakPrngNonce_of_successor :
    crypto1PrngSuccessor 0x12345678 20 ≠ 0 ∧
      crypto1IsWeakPrngNonce (crypto1PrngSuccessor 0x12345678 20) = true :=
  have hne : crypto1PrngSuccessor 0x12345678 20 ≠ 0 := by decide
  ⟨hne, isWeakPrngNonce_iff_successor.2 0x12345678 20 (by decide) hne⟩

end KiisuFirmware
