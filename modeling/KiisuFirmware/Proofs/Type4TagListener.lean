import KiisuFirmware.Type4Tag

/-!
# An emulated Type 4 Tag is a file of bytes

The lengths and the data of a frame are found as ISO 7816-4 orders them (`apduBody_eq_some`,
`apduBody_of_some`), so a frame that is handled is an instruction. Frames that are sound read and
update the file, whose length is not stored but put in front of the message (`listener_byteFile`).
-/

namespace KiisuFirmware

open Type4Tag

/-! ## Numbers of one and two bytes -/

theorem toNat_bytesToNumBe_one (b : UInt8) : (bitLibBytesToNumBe [b]).toNat = b.toNat := by
  have hb := b.toNat_lt
  simp [bitLibBytesToNumBe]

theorem toNat_bytesToNumBe_two (high low : UInt8) :
    (bitLibBytesToNumBe [high, low]).toNat = uint16Be high low := by
  have hhigh := high.toNat_lt
  have hlow := low.toNat_lt
  have hor : high.toNat <<< 8 ||| low.toNat = high.toNat <<< 8 + low.toNat :=
    (Nat.shiftLeft_add_eq_or_of_lt hlow _).symm
  have hshift : ((0 : UInt64) <<< 8 ||| high.toUInt64) = high.toUInt64 := by simp
  rw [bitLibBytesToNumBe, List.foldl_cons, List.foldl_cons, List.foldl_nil, hshift, UInt64.toNat_or,
    UInt64.toNat_shiftLeft, UInt8.toNat_toUInt64, UInt8.toNat_toUInt64,
    show (8 : UInt64).toNat % 64 = 8 from rfl, Nat.mod_eq_of_lt (by rw [Nat.shiftLeft_eq]; omega), hor,
    Nat.shiftLeft_eq]
  rfl

namespace Type4Tag

variable {bytes before data after : List UInt8} {ptr count : ℕ}

theorem copyFrom_append (before data after : List UInt8) :
    copyFrom (before ++ (data ++ after)) before.length data.length = .ok data := by
  rw [copyFrom, if_pos (by simp), List.drop_left, List.take_left]

theorem copyFrom_at (hptr : before.length = ptr) (hcount : data.length = count) :
    copyFrom (before ++ (data ++ after)) ptr count = .ok data := by
  subst hptr hcount
  exact copyFrom_append before data after

theorem bytesToNum_one {b : UInt8} (hptr : before.length = ptr) :
    bytesToNum (before ++ b :: after) ptr 1 = .ok b.toNat := by
  have hread := @copyFrom_at before [b] after ptr 1 hptr rfl
  rw [List.singleton_append] at hread
  rw [bytesToNum, hread, ← toNat_bytesToNumBe_one]
  rfl

theorem bytesToNum_two {high low : UInt8} (hptr : before.length = ptr) :
    bytesToNum (before ++ high :: low :: after) ptr 2 = .ok (uint16Be high low) := by
  have hread := @copyFrom_at before [high, low] after ptr 2 hptr rfl
  rw [List.cons_append, List.singleton_append] at hread
  rw [bytesToNum, hread, ← toNat_bytesToNumBe_two]
  rfl

end Type4Tag

/-! ## Bodies of APDUs -/

namespace Type4TagListener

/-- Where the data of a body are; if there are none, they are nowhere. -/
inductive DataAt (body data : List UInt8) : Option ℕ → Prop
  | none (h : data = []) : DataAt body data none
  | some {before after : List UInt8} (hpos : 0 < data.length) (h : body = before ++ (data ++ after)) :
      DataAt body data (some before.length)

/-- What is read behind the data, if they end there or one length follows them. -/
def behind (body : List UInt8) (lc data left size most : ℕ) :
    Except Type4TagFault (Option (ℕ × Option ℕ × ℕ)) :=
  if lc = 0 ∨ left < lc then .ok none
  else if left = lc then .ok (some (lc, some data, 0))
  else if left = lc + size then
    (bytesToNum body (data + lc) size).map fun le => some (lc, some data, expected le most)
  else .ok none

theorem apduBody_short {first : UInt8} {rest : List UInt8} (hrest : rest ≠ []) (hfirst : first ≠ 0) :
    apduBody (first :: rest) = behind (first :: rest) first.toNat 1 rest.length 1 256 := by
  have hne : first.toNat ≠ 0 := fun h => hfirst (UInt8.toNat_inj.1 h)
  have hlength : rest.length ≠ 0 := fun h => hrest (List.eq_nil_of_length_eq_zero h)
  have hread : bytesToNum (first :: rest) 0 1 = .ok first.toNat := @bytesToNum_one [] rest 0 first rfl
  have hnot : ¬(first :: rest).length = 0 := Nat.succ_ne_zero _
  have hone : ¬(first :: rest).length = 1 := fun h => hlength (Nat.succ_inj.1 h)
  unfold apduBody behind
  rw [hread, if_neg hnot]
  dsimp only [bind, Except.bind]
  rw [if_neg hone, if_neg (fun h => hne h.2), if_neg hne, if_neg hne]
  dsimp only [pure, Except.pure]
  rw [List.length_cons, Nat.add_sub_cancel]
  by_cases hlc : first.toNat = 0 ∨ rest.length < first.toNat
  · rw [if_pos hlc, if_pos hlc]
  rw [if_neg hlc, if_neg hlc]
  by_cases hend : rest.length = first.toNat
  · rw [if_pos hend, if_pos hend]
  rw [if_neg hend, if_neg hend]
  have hiff : (first.toNat ≠ 0 ∧ rest.length - first.toNat = 1) ↔ rest.length = first.toNat + 1 := by
    omega
  simp only [hiff, hne, false_and, if_false]
  rfl

theorem apduBody_extended {high low : UInt8} {tail : List UInt8} (htail : tail ≠ []) :
    apduBody (0 :: high :: low :: tail) =
      behind (0 :: high :: low :: tail) (uint16Be high low) 3 tail.length 2 65536 := by
  have hlength : tail.length ≠ 0 := fun h => htail (List.eq_nil_of_length_eq_zero h)
  have hread : bytesToNum (0 :: high :: low :: tail) 0 1 = .ok 0 :=
    @bytesToNum_one [] (high :: low :: tail) 0 0 rfl
  have hlc : bytesToNum (0 :: high :: low :: tail) 1 2 = .ok (uint16Be high low) :=
    @bytesToNum_two [0] tail 1 high low rfl
  have hnot : ¬(0 :: high :: low :: tail).length = 0 := Nat.succ_ne_zero _
  have hone : ¬(0 :: high :: low :: tail).length = 1 := fun h => by simp at h
  have hthree : ¬(0 :: high :: low :: tail).length = 3 := fun h => hlength (by simpa using h)
  unfold apduBody behind
  rw [hread, if_neg hnot]
  dsimp only [bind, Except.bind]
  rw [if_neg hone, if_neg (fun h => hthree h.1), if_pos rfl, if_pos rfl, hlc]
  dsimp only [pure, Except.pure]
  have hleft : (0 :: high :: low :: tail).length - (1 + 2) = tail.length := by simp
  rw [hleft]
  by_cases hshort : uint16Be high low = 0 ∨ tail.length < uint16Be high low
  · rw [if_pos hshort, if_pos hshort]
  rw [if_neg hshort, if_neg hshort]
  by_cases hend : tail.length = uint16Be high low
  · rw [if_pos hend, if_pos hend]
  rw [if_neg hend, if_neg hend, if_neg fun h => h.1 rfl]
  have hiff : tail.length - uint16Be high low = 2 ↔ tail.length = uint16Be high low + 2 := by omega
  simp only [true_and, hiff]
  rfl

theorem behind_data {header data : List UInt8} {lc : ℕ} (hpos : 0 < data.length)
    (hlc : lc = data.length) (size most : ℕ) :
    behind (header ++ data) lc header.length data.length size most =
      .ok (some (data.length, some header.length, 0)) := by
  rw [behind, if_neg (by omega), if_pos hlc.symm, hlc]

theorem behind_short {header data : List UInt8} {lc : ℕ} (hpos : 0 < data.length)
    (hlc : lc = data.length) (le : UInt8) (most : ℕ) :
    behind (header ++ (data ++ [le])) lc header.length (data ++ [le]).length 1 most =
      .ok (some (data.length, some header.length, expected le.toNat most)) := by
  have hread : bytesToNum (header ++ (data ++ [le])) (header.length + lc) 1 = .ok le.toNat := by
    rw [← List.append_assoc]
    exact bytesToNum_one (by rw [List.length_append, hlc])
  rw [behind, List.length_append, List.length_singleton, if_neg (by omega), if_neg (by omega),
    if_pos (by omega), hread, hlc]
  rfl

theorem behind_extended {header data : List UInt8} {lc : ℕ} (hpos : 0 < data.length)
    (hlc : lc = data.length) (high low : UInt8) (most : ℕ) :
    behind (header ++ (data ++ [high, low])) lc header.length (data ++ [high, low]).length 2 most =
      .ok (some (data.length, some header.length, expected (uint16Be high low) most)) := by
  have hread : bytesToNum (header ++ (data ++ [high, low])) (header.length + lc) 2 =
      .ok (uint16Be high low) := by
    rw [← List.append_assoc]
    exact bytesToNum_two (by rw [List.length_append, hlc])
  rw [behind, List.length_append, List.length_cons, List.length_singleton, if_neg (by omega),
    if_neg (by omega), if_pos (by omega), hread, hlc]
  rfl

theorem apduBody_eq_some {body data : List UInt8} {le : ℕ} (h : ApduBody body data le) :
    ∃ ptr, apduBody body = .ok (some (data.length, ptr, le)) ∧ DataAt body data ptr := by
  cases h with
  | empty => exact ⟨none, rfl, .none rfl⟩
  | short le =>
    refine ⟨none, ?_, .none rfl⟩
    have hread : bytesToNum [le] 0 1 = .ok le.toNat := @bytesToNum_one [] [] 0 le rfl
    unfold apduBody
    rw [hread]
    rfl
  | extended high low =>
    refine ⟨none, ?_, .none rfl⟩
    have hread : bytesToNum [0, high, low] 0 1 = .ok 0 := @bytesToNum_one [] [high, low] 0 0 rfl
    have hle : bytesToNum [0, high, low] 1 2 = .ok (uint16Be high low) :=
      @bytesToNum_two [0] [] 1 high low rfl
    unfold apduBody
    rw [hread]
    dsimp only [bind, Except.bind]
    rw [hle]
    rfl
  | @data lc data hpos hlc =>
    have hne : lc ≠ 0 := fun h => by rw [h] at hlc; exact absurd hlc (by simpa using hpos.ne)
    refine ⟨some 1, ?_, @DataAt.some _ _ [lc] [] hpos (by simp)⟩
    rw [apduBody_short (List.ne_nil_of_length_pos hpos) hne]
    exact @behind_data [lc] data lc.toNat hpos hlc 1 256
  | @dataShort lc data hpos hlc le =>
    have hne : lc ≠ 0 := fun h => by rw [h] at hlc; exact absurd hlc (by simpa using hpos.ne)
    refine ⟨some 1, ?_, @DataAt.some _ _ [lc] [le] hpos rfl⟩
    rw [apduBody_short (by simp) hne]
    exact @behind_short [lc] data lc.toNat hpos hlc le 256
  | @extendedData high low data hpos hlc =>
    refine ⟨some 3, ?_, @DataAt.some _ _ [0, high, low] [] hpos (by simp)⟩
    rw [apduBody_extended (List.ne_nil_of_length_pos hpos)]
    exact @behind_data [0, high, low] data _ hpos hlc 2 65536
  | @extendedDataExtended high low data hpos hlc high' low' =>
    refine ⟨some 3, ?_, @DataAt.some _ _ [0, high, low] [high', low'] hpos rfl⟩
    rw [apduBody_extended (by simp)]
    exact @behind_extended [0, high, low] data _ hpos hlc high' low' 65536

theorem behind_eq_ok {header tail : List UInt8} {lc size most lc' le : ℕ} {ptr : Option ℕ}
    (h : behind (header ++ tail) lc header.length tail.length size most = .ok (some (lc', ptr, le))) :
    ∃ data after, tail = data ++ after ∧ 0 < data.length ∧ lc = data.length ∧ lc' = data.length ∧
      ptr = some header.length ∧ (after = [] ∧ le = 0 ∨ after.length = size) := by
  unfold behind at h
  split_ifs at h with hlc hend hsize
  · cases h
  · cases h
    exact ⟨tail, [], (List.append_nil _).symm, by omega, hend.symm, hend.symm, rfl, .inl ⟨rfl, rfl⟩⟩
  · have htail : (tail.take lc).length = lc := by simp; omega
    have hptr : lc' = lc ∧ ptr = some header.length := by
      rcases hnum : bytesToNum (header ++ tail) (header.length + lc) size with e | n
      · rw [hnum] at h
        cases h
      · rw [hnum] at h
        cases h
        exact ⟨rfl, rfl⟩
    exact ⟨tail.take lc, tail.drop lc, (List.take_append_drop _ _).symm, by omega, htail.symm,
      hptr.1.trans htail.symm, hptr.2, .inr (by rw [List.length_drop]; omega)⟩
  · cases h

theorem behind_short_body {lc : UInt8} {rest : List UInt8} {lc' le : ℕ} {ptr : Option ℕ}
    (h : behind (lc :: rest) lc.toNat 1 rest.length 1 256 = .ok (some (lc', ptr, le))) :
    ∃ data, ApduBody (lc :: rest) data le ∧ data.length = lc' ∧ DataAt (lc :: rest) data ptr := by
  obtain ⟨data, after, rfl, hpos, hlc, rfl, rfl, hafter⟩ := @behind_eq_ok [lc] rest _ _ _ _ _ _ h
  refine ⟨data, ?_, rfl, @DataAt.some _ _ [lc] after hpos rfl⟩
  rcases hafter with ⟨rfl, rfl⟩ | hafter
  · rw [List.append_nil]
    exact .data hpos hlc
  · obtain ⟨b, rfl⟩ := List.length_eq_one_iff.1 hafter
    have hle := (@behind_short [lc] data _ hpos hlc b 256).symm.trans h
    cases hle
    exact .dataShort hpos hlc b

theorem behind_extended_body {high low : UInt8} {rest : List UInt8} {lc' le : ℕ} {ptr : Option ℕ}
    (h : behind (0 :: high :: low :: rest) (uint16Be high low) 3 rest.length 2 65536 =
      .ok (some (lc', ptr, le))) :
    ∃ data, ApduBody (0 :: high :: low :: rest) data le ∧ data.length = lc' ∧
      DataAt (0 :: high :: low :: rest) data ptr := by
  obtain ⟨data, after, rfl, hpos, hlc, rfl, rfl, hafter⟩ :=
    @behind_eq_ok [0, high, low] rest _ _ _ _ _ _ h
  refine ⟨data, ?_, rfl, @DataAt.some _ _ [0, high, low] after hpos rfl⟩
  rcases hafter with ⟨rfl, rfl⟩ | hafter
  · rw [List.append_nil]
    exact .extendedData hpos hlc
  · obtain ⟨high', low', rfl⟩ := List.length_eq_two.1 hafter
    have hle := (@behind_extended [0, high, low] data _ hpos hlc high' low' 65536).symm.trans h
    cases hle
    exact .extendedDataExtended hpos hlc high' low'

theorem apduBody_of_some {body : List UInt8} {lc le : ℕ} {ptr : Option ℕ}
    (h : apduBody body = .ok (some (lc, ptr, le))) :
    ∃ data, ApduBody body data le ∧ data.length = lc ∧ DataAt body data ptr := by
  rcases body with _ | ⟨first, _ | ⟨second, rest⟩⟩
  · cases h
    exact ⟨[], .empty, rfl, .none rfl⟩
  · obtain ⟨ptr', hptr, hdata⟩ := apduBody_eq_some (.short first)
    rw [hptr] at h
    cases h
    exact ⟨[], .short first, rfl, hdata⟩
  by_cases hfirst : first = 0
  · subst hfirst
    rcases rest with _ | ⟨third, _ | ⟨fourth, rest⟩⟩
    · cases h
    · obtain ⟨ptr', hptr, hdata⟩ := apduBody_eq_some (.extended second third)
      rw [hptr] at h
      cases h
      exact ⟨[], .extended second third, rfl, hdata⟩
    · rw [apduBody_extended (List.cons_ne_nil _ _)] at h
      exact behind_extended_body h
  · rw [apduBody_short (List.cons_ne_nil _ _) hfirst] at h
    exact behind_short_body h

theorem behind_ne_error {header tail : List UInt8} {lc size most : ℕ} {fault : Type4TagFault}
    (h : behind (header ++ tail) lc header.length tail.length size most = .error fault) : False := by
  unfold behind at h
  split_ifs at h with hlc hend hsize
  have hread : copyFrom (header ++ tail) (header.length + lc) size =
      .ok (((header ++ tail).drop (header.length + lc)).take size) := by
    rw [copyFrom, if_pos (by rw [List.length_append]; omega)]
  rw [bytesToNum, hread] at h
  cases h

theorem apduBody_eq_error {body : List UInt8} {fault : Type4TagFault}
    (h : apduBody body = .error fault) : ∃ byte, body = [0, byte] := by
  rcases body with _ | ⟨first, _ | ⟨second, rest⟩⟩
  · cases h
  · obtain ⟨ptr', hptr, -⟩ := apduBody_eq_some (.short first)
    rw [hptr] at h
    cases h
  by_cases hfirst : first = 0
  · subst hfirst
    rcases rest with _ | ⟨third, _ | ⟨fourth, rest⟩⟩
    · exact ⟨second, rfl⟩
    · obtain ⟨ptr', hptr, -⟩ := apduBody_eq_some (.extended second third)
      rw [hptr] at h
      cases h
    · rw [apduBody_extended (List.cons_ne_nil _ _)] at h
      exact (@behind_ne_error [0, second, third] _ _ _ _ _ h).elim
  · rw [apduBody_short (List.cons_ne_nil _ _) hfirst] at h
    exact (@behind_ne_error [first] _ _ _ _ _ h).elim

end Type4TagListener

/-! ## The file with the message -/

/-- The file with the message: two bytes with its length, and the message. -/
def ndefFile (message : List UInt8) : List UInt8 :=
  UInt8.ofNat (message.length / 256) :: UInt8.ofNat message.length :: message

/-- What an update leaves of a file. The length is that of the file, so an update that reaches beyond
its end sets the length to the new end. -/
structure Updated (file : List UInt8) (offset : ℕ) (bytes file' : List UInt8) : Prop where
  written : (file'.drop offset).take bytes.length = bytes
  kept : ∀ i, 2 ≤ i → i < offset ∨ offset + bytes.length ≤ i → i < file.length → i < file'.length →
    file'[i]? = file[i]?
  lengthKept : bytes = [] ∨ offset + bytes.length ≤ file.length →
    ∀ i < 2, i < offset ∨ offset + bytes.length ≤ i → file'[i]? = file[i]?
  grown : 2 ≤ offset → file.length < offset + bytes.length → file'.length = offset + bytes.length

@[simp] theorem length_ndefFile (message : List UInt8) :
    (ndefFile message).length = 2 + message.length := by
  rw [ndefFile, List.length_cons, List.length_cons]
  omega

theorem drop_ndefFile (message : List UInt8) {offset : ℕ} (h : 2 ≤ offset) :
    (ndefFile message).drop offset = message.drop (offset - 2) := by
  obtain ⟨i, rfl⟩ := Nat.exists_eq_add_of_le' h
  rfl

theorem getElem?_ndefFile (message : List UInt8) {i : ℕ} (h : 2 ≤ i) :
    (ndefFile message)[i]? = message[i - 2]? := by
  obtain ⟨i, rfl⟩ := Nat.exists_eq_add_of_le' h
  rfl

theorem getElem?_ndefFile_of_length_eq {message message' : List UInt8}
    (h : message'.length = message.length) {i : ℕ} (hi : i < 2) :
    (ndefFile message')[i]? = (ndefFile message)[i]? := by
  rw [ndefFile, ndefFile, h]
  rcases i with _ | _ | i
  · rfl
  · rfl
  · omega

theorem ofNat_uint16Be (high low : UInt8) :
    UInt8.ofNat (uint16Be high low / 256) = high ∧ UInt8.ofNat (uint16Be high low) = low := by
  have hhigh := high.toNat_lt
  have hlow := low.toNat_lt
  unfold uint16Be
  constructor
  · rw [show (high.toNat * 256 + low.toNat) / 256 = high.toNat by omega, UInt8.ofNat_toNat]
  · apply UInt8.toNat_inj.1
    rw [UInt8.toNat_ofNat']
    omega

theorem num16_eq (n : ℕ) : Type4TagData.num16 n = [UInt8.ofNat (n / 256), UInt8.ofNat n] := by
  have hn : n.toUInt64.toNat = n % 2 ^ 64 := rfl
  have hhigh : (n.toUInt64 >>> 8).toUInt8 = UInt8.ofNat (n / 256) := by
    apply UInt8.toNat_inj.1
    rw [UInt64.toNat_toUInt8, UInt64.toNat_shiftRight, hn, UInt8.toNat_ofNat',
      show (8 : UInt64).toNat % 64 = 8 from rfl, Nat.shiftRight_eq_div_pow]
    omega
  have hlow : n.toUInt64.toUInt8 = UInt8.ofNat n := by
    apply UInt8.toNat_inj.1
    rw [UInt64.toNat_toUInt8, hn, UInt8.toNat_ofNat']
    omega
  rw [Type4TagData.num16, bitLibNumToBytesBe, bitLibNumToBytesBe, bitLibNumToBytesBe, hhigh, hlow]
  rfl

namespace Type4TagListener

theorem length_resized (message : List UInt8) (len : ℕ) : (resized message len).length = len := by
  rw [resized, List.length_append, List.length_take, List.length_replicate]
  omega

theorem resized_length (message : List UInt8) : resized message message.length = message := by
  rw [resized, List.take_length, Nat.sub_self, List.replicate_zero, List.append_nil]

theorem getElem?_resized (message : List UInt8) {len i : ℕ} (hi : i < message.length)
    (hlen : i < len) : (resized message len)[i]? = message[i]? := by
  rw [resized, List.getElem?_append_left (by rw [List.length_take]; omega), List.getElem?_take,
    if_pos hlen]

section Stored

variable {message bytes : List UInt8} {len offset : ℕ} (hlen : offset + bytes.length ≤ len)
include hlen

theorem length_stored : (overwrite (resized message len) offset bytes).length = len := by
  rw [length_overwrite (by rw [length_resized]; omega), length_resized]
  omega

theorem take_drop_stored :
    ((overwrite (resized message len) offset bytes).drop offset).take bytes.length = bytes := by
  rw [drop_overwrite (by rw [length_resized]; omega), List.take_left]

theorem getElem?_stored {i : ℕ} (hout : i < offset ∨ offset + bytes.length ≤ i)
    (hi : i < message.length) (hilen : i < len) :
    (overwrite (resized message len) offset bytes)[i]? = message[i]? := by
  have hresized := length_resized message len
  rw [← getElem?_resized message hi hilen]
  rcases hout with hout | hout
  · have htake := congrArg (fun l => l[i]?) (take_overwrite (show offset ≤ (resized message len).length by
      omega) bytes)
    simpa only [List.getElem?_take, if_pos hout] using htake
  · have hdrop := congrArg (fun l => l[i - (offset + bytes.length)]?)
      (drop_overwrite_length (show offset ≤ (resized message len).length by omega) bytes)
    simpa only [List.getElem?_drop, Nat.add_sub_cancel' hout] using hdrop

end Stored

end Type4TagListener

/-! ## Frames -/

/-- A frame that reads the file; an offset has fifteen bits. -/
structure IsRead (frame : List UInt8) (offset le : ℕ) : Prop where
  apdu : ∃ p1 p2 data, p1 &&& 0x80 = 0 ∧ offset = uint16Be p1 p2 ∧ IsApdu frame 0xB0 p1 p2 data le

/-- A frame that updates the file. -/
structure IsUpdate (frame : List UInt8) (offset : ℕ) (bytes : List UInt8) : Prop where
  apdu : ∃ p1 p2 le, p1 &&& 0x80 = 0 ∧ offset = uint16Be p1 p2 ∧ IsApdu frame 0xD6 p1 p2 bytes le

def Succeeds (reply : List UInt8) : Prop := ∃ data, reply = data ++ [0x90, 0x00]

/-- A status other than that of success, and nothing else. -/
def IsError (reply : List UInt8) : Prop := reply.length = 2 ∧ reply ≠ [0x90, 0x00]

theorem IsError.not_succeeds {reply : List UInt8} (h : IsError reply) : ¬Succeeds reply := by
  rintro ⟨data, rfl⟩
  have hlength := h.1
  rw [List.length_append, List.length_cons, List.length_singleton] at hlength
  rw [List.eq_nil_of_length_eq_zero (show data.length = 0 by omega)] at h
  exact h.2 rfl

namespace Type4TagListener

variable {listener : Type4TagListener} {frame body data : List UInt8} {p1 p2 : UInt8} {lc le : ℕ}
  {ptr : Option ℕ}

theorem DataAt.unique {data' : List UInt8} (h : DataAt body data ptr) (h' : DataAt body data' ptr)
    (hlength : data.length = data'.length) : data = data' := by
  cases h with
  | none h =>
    subst h
    exact (List.eq_nil_of_length_eq_zero hlength.symm).symm
  | @some before after hpos h =>
    generalize hptr : before.length = n at h'
    cases h' with
    | @some before' after' hpos' h' =>
      rw [h] at h'
      obtain ⟨-, hrest⟩ := List.append_inj h' hptr
      exact (List.append_inj hrest hlength).1

theorem isApdu_unique {ins ins' p1' p2' : UInt8} {data' : List UInt8} {le' : ℕ}
    (h : IsApdu frame ins p1 p2 data le) (h' : IsApdu frame ins' p1' p2' data' le') :
    ins = ins' ∧ p1 = p1' ∧ p2 = p2' ∧ data = data' ∧ le = le' := by
  obtain ⟨body, rfl, hbody⟩ := h.body
  obtain ⟨body', heq, hbody'⟩ := h'.body
  cases heq
  obtain ⟨ptr, hptr, hdata⟩ := apduBody_eq_some hbody
  obtain ⟨ptr', hptr', hdata'⟩ := apduBody_eq_some hbody'
  rw [hptr] at hptr'
  simp only [Except.ok.injEq, Option.some.injEq, Prod.mk.injEq] at hptr'
  obtain ⟨hlength, rfl, rfl⟩ := hptr'
  exact ⟨rfl, rfl, rfl, hdata.unique hdata' hlength, rfl⟩

theorem dataBytes_eq (h : DataAt body data ptr) (hpos : 0 < data.length) :
    dataBytes body ptr data.length = .ok data := by
  cases h with
  | none h =>
    rw [h] at hpos
    cases hpos
  | @some before after _ h =>
    rw [h]
    exact copyFrom_append before data after

/-- The tag cannot be written. -/
def Locked (listener : Type4TagListener) : Prop :=
  listener.data.isTagSpecific = true ∧ listener.data.ndefWriteLock ≠ TYPE_4_TAG_T4T_CC_RW_LOCK_NONE

/-- An answer to a frame, and the listener after it. Reads return what is in the file, updates change
what they are to change, and nothing else does. -/
structure Right (listener : Type4TagListener) (frame reply : List UInt8) (after : Type4TagListener) :
    Prop where
  fits : reply.length ≤ TYPE_4_TAG_BUF_SIZE
  read : listener.state = .selectedNdefMessage → ∀ offset le, IsRead frame offset le →
    Succeeds reply → reply = ((ndefFile listener.data.ndefData).drop offset).take le ++ [0x90, 0x00]
  updated : listener.state = .selectedNdefMessage → ∀ offset bytes, IsUpdate frame offset bytes →
    Succeeds reply → Updated (ndefFile listener.data.ndefData) offset bytes (ndefFile after.data.ndefData)
  refused : ∀ offset bytes, IsUpdate frame offset bytes →
    listener.state = .selectedCapabilityContainer ∨ listener.state = .selectedNdefMessage ∧
      (listener.Locked ∨ 2 + listener.data.maxLen < offset + bytes.length) →
    after.data = listener.data ∧ IsError reply
  kept : ¬(listener.state = .selectedNdefMessage ∧
    ∃ offset bytes, IsUpdate frame offset bytes ∧ Succeeds reply) → after.data = listener.data
  file : listener.data.ndefData.length < 2 ^ 16 → after.data.ndefData.length < 2 ^ 16

theorem right_of_isError {reply : List UInt8} {after : Type4TagListener} (hreply : IsError reply)
    (hdata : after.data = listener.data) : Right listener frame reply after where
  fits := by
    rw [hreply.1]
    decide
  read _ _ _ _ h := absurd h hreply.not_succeeds
  updated _ _ _ _ h := absurd h hreply.not_succeeds
  refused _ _ _ _ := ⟨hdata, hreply⟩
  kept _ := hdata
  file h := by rwa [hdata]

theorem right_of_not_binary {ins : UInt8} {reply : List UInt8} {after : Type4TagListener}
    (hframe : IsApdu frame ins p1 p2 data le) (hread : ins ≠ 0xB0) (hupdate : ins ≠ 0xD6)
    (hfits : reply.length ≤ TYPE_4_TAG_BUF_SIZE) (hdata : after.data = listener.data) :
    Right listener frame reply after where
  fits := hfits
  read _ _ _ h _ := by
    obtain ⟨_, _, _, -, -, happ⟩ := h.apdu
    exact absurd (isApdu_unique hframe happ).1 hread
  updated _ _ _ h _ := by
    obtain ⟨_, _, _, -, -, happ⟩ := h.apdu
    exact absurd (isApdu_unique hframe happ).1 hupdate
  refused _ _ h _ := by
    obtain ⟨_, _, _, -, -, happ⟩ := h.apdu
    exact absurd (isApdu_unique hframe happ).1 hupdate
  kept _ := hdata
  file h := by rwa [hdata]

/-- A handler ends well, and answers rightly. -/
def Answers (listener : Type4TagListener) (frame : List UInt8) (handled : Handled) : Prop :=
  ∃ error reply after, handled = .ok (error, reply, after) ∧ Right listener frame reply after

theorem answers_error {error : Type4TagError} {status : List UInt8} (h : IsError status) :
    Answers listener frame (listener.answer error status) := by
  refine ⟨error, status, listener, ?_, right_of_isError h rfl⟩
  rw [answer, appendReply, if_pos (by rw [h.1]; decide)]
  rfl

theorem isError_noSupport : IsError TYPE_4_TAG_ISO_STATUS_NO_SUPPORT := ⟨rfl, by decide⟩

theorem isError_notFound : IsError TYPE_4_TAG_ISO_STATUS_NOT_FOUND := ⟨rfl, by decide⟩

theorem isError_offsetErr : IsError TYPE_4_TAG_ISO_STATUS_OFFSET_ERR := ⟨rfl, by decide⟩

theorem isError_badParams : IsError TYPE_4_TAG_ISO_STATUS_BAD_PARAMS := ⟨rfl, by decide⟩

theorem isError_noCmd : IsError TYPE_4_TAG_ISO_STATUS_NO_CMD := ⟨rfl, by decide⟩

/-! ## Selecting -/

theorem answers_isoSelect (hframe : IsApdu frame 0xA4 p1 p2 data le) (hdata : DataAt body data ptr) :
    Answers listener frame (listener.isoSelect p1 p2 data.length body ptr le) := by
  have hselected : ∀ state, Answers listener frame
      ((listener.setState state).answer .none TYPE_4_TAG_ISO_STATUS_SUCCESS) := fun state =>
    ⟨_, _, _, rfl, right_of_not_binary hframe (by decide) (by decide) (by decide) rfl⟩
  have hmissing : Answers listener frame
      (listener.answer .customCommand TYPE_4_TAG_ISO_STATUS_NOT_FOUND) :=
    answers_error isError_notFound
  unfold isoSelect
  split_ifs with hname hid
  · have hread : dataBytes body ptr TYPE_4_TAG_ISO_NAME_LEN = .ok data := by
      rw [← hname.2]
      exact dataBytes_eq hdata (by rw [hname.2]; decide)
    rw [hread]
    dsimp only [bind, Except.bind]
    split_ifs
    · exact hselected _
    · exact hselected _
    · exact hmissing
  · have hread : dataBytes body ptr 2 = .ok data := by
      rw [← show data.length = 2 from hid.2]
      exact dataBytes_eq hdata (by rw [hid.2]; decide)
    rw [hread]
    dsimp only [bind, Except.bind]
    split_ifs
    · exact hselected _
    · exact hselected _
    · exact hselected _
    · exact hselected _
    · exact hmissing
  · exact hmissing

/-! ## Reading -/

theorem appendReply_eq {tx bytes : List UInt8} (h : tx.length + bytes.length ≤ TYPE_4_TAG_BUF_SIZE) :
    appendReply tx bytes = .ok (tx ++ bytes) := if_pos h

theorem copyFrom_min {bytes : List UInt8} {offset : ℕ} (h : offset ≤ bytes.length) (le : ℕ) :
    copyFrom bytes offset (min (bytes.length - offset) le) = .ok ((bytes.drop offset).take le) := by
  have htake : (bytes.drop offset).take (min (bytes.length - offset) le) =
      (bytes.drop offset).take le := by
    rw [← List.length_drop, ← List.take_take, List.take_of_length_le (by rw [List.length_take]; omega)]
  rw [copyFrom, if_pos (by omega), htake]

theorem readNdefData_eq {tx : List UInt8} {includedLen : Bool} {offset : ℕ}
    (hin : includedLen = true ∨ offset < listener.data.ndefData.length)
    (hfits : tx.length + ((listener.data.ndefData.drop offset).take le).length + 2 ≤ TYPE_4_TAG_BUF_SIZE) :
    listener.readNdefData tx includedLen offset le =
      .ok (.none, tx ++ (listener.data.ndefData.drop offset).take le ++ [0x90, 0x00], listener) := by
  have hstatus : TYPE_4_TAG_ISO_STATUS_SUCCESS = [0x90, 0x00] := rfl
  unfold readNdefData
  dsimp only
  split_ifs with hend hlen
  · have hnil : (listener.data.ndefData.drop offset).take le = [] := by
      rw [List.drop_eq_nil_of_le hend, List.take_nil]
    rw [hnil, List.append_nil, hstatus, appendReply_eq (by simp at hfits ⊢; omega)]
    rfl
  · rcases hin with h | h
    · exact absurd h hlen
    · omega
  · have htx : appendReply tx ((listener.data.ndefData.drop offset).take le) =
        .ok (tx ++ (listener.data.ndefData.drop offset).take le) := appendReply_eq (by omega)
    have hend : appendReply (tx ++ (listener.data.ndefData.drop offset).take le) [0x90, 0x00] =
        .ok (tx ++ (listener.data.ndefData.drop offset).take le ++ [0x90, 0x00]) :=
      appendReply_eq (by rw [List.length_append, List.length_cons, List.length_singleton]; omega)
    rw [copyFrom_min (by omega)]
    dsimp only [bind, Except.bind]
    rw [htx]
    dsimp only
    rw [hstatus, hend]
    rfl

theorem take_drop_append (as bs : List UInt8) {offset : ℕ} (h : offset ≤ as.length) (le : ℕ) :
    ((as ++ bs).drop offset).take le =
      (as.drop offset).take le ++ bs.take (le - min (as.length - offset) le) := by
  rw [List.drop_append_of_le_length h, List.take_append, List.length_drop]
  congr 2
  omega

theorem readNdef_eq {offset : ℕ} (hin : offset < 2 + listener.data.ndefData.length)
    (hfits : (((ndefFile listener.data.ndefData).drop offset).take le).length + 2 ≤ TYPE_4_TAG_BUF_SIZE) :
    listener.readNdef offset le = .ok (.none,
      ((ndefFile listener.data.ndefData).drop offset).take le ++ [0x90, 0x00], listener) := by
  unfold readNdef
  split_ifs with hoffset
  · have hfile : ndefFile listener.data.ndefData =
        Type4TagData.num16 listener.data.ndefData.length ++ listener.data.ndefData := by
      rw [num16_eq]
      rfl
    have htwo : (Type4TagData.num16 listener.data.ndefData.length).length = 2 := by rw [num16_eq]; rfl
    rw [hfile, take_drop_append _ _ (by omega), htwo] at hfits ⊢
    have hread := @copyFrom_min (Type4TagData.num16 listener.data.ndefData.length) offset (by omega) le
    rw [htwo] at hread
    dsimp only
    rw [hread]
    dsimp only [bind, Except.bind]
    rw [List.length_append] at hfits
    rw [appendReply_eq (by rw [List.length_nil]; omega)]
    dsimp only
    rw [List.nil_append]
    exact readNdefData_eq (.inl rfl) (by rw [List.drop_zero]; omega)
  · rw [drop_ndefFile _ (by omega)] at hfits ⊢
    have heq := @readNdefData_eq listener le [] false (offset - 2) (.inr (by omega))
      (by rw [List.length_nil]; omega)
    rw [List.nil_append] at heq
    exact heq

theorem length_ccDump (data : Type4TagData) : data.ccDump.length = TYPE_4_TAG_T4T_CC_MIN_SIZE := by
  simp [Type4TagData.ccDump, num16_eq, TYPE_4_TAG_T4T_CC_MIN_SIZE]

theorem answers_readCc (hframe : IsApdu frame 0xB0 p1 p2 data le)
    (hstate : listener.state = .selectedCapabilityContainer) (offset : ℕ) :
    Answers listener frame (listener.readCc offset le) := by
  have hfifteen : TYPE_4_TAG_T4T_CC_MIN_SIZE = 15 := rfl
  have hsize : TYPE_4_TAG_BUF_SIZE = 251 := rfl
  have hlength := length_ccDump listener.data
  have htwo : TYPE_4_TAG_ISO_STATUS_SUCCESS.length = 2 := rfl
  unfold readCc
  dsimp only
  split_ifs with hend
  · exact answers_error isError_offsetErr
  have htake : ((listener.data.ccDump.drop offset).take le).length ≤ 15 := by
    rw [List.length_take, List.length_drop]
    omega
  rw [copyFrom_min (by omega)]
  dsimp only [bind, Except.bind]
  rw [appendReply_eq (by rw [List.length_nil]; omega)]
  dsimp only
  rw [List.nil_append, appendReply_eq (by omega)]
  refine ⟨_, _, _, rfl, ?_⟩
  refine ⟨by rw [List.length_append]; omega, fun h => ?_, fun h => ?_, fun _ _ h _ => ?_, fun _ => rfl, id⟩
  · rw [hstate] at h
    cases h
  · rw [hstate] at h
    cases h
  · obtain ⟨_, _, _, -, -, happ⟩ := h.apdu
    exact absurd (isApdu_unique hframe happ).1 (by decide)

theorem answers_isoRead (hframe : IsApdu frame 0xB0 p1 p2 data le)
    (hfits : listener.state = .selectedNdefMessage → p1 &&& 0x80 = 0 →
      (((ndefFile listener.data.ndefData).drop (uint16Be p1 p2)).take le).length + 2 ≤
        TYPE_4_TAG_BUF_SIZE) :
    Answers listener frame (listener.isoRead p1 p2 lc body ptr le) := by
  have hmissing : Answers listener frame
      (listener.answer .customCommand TYPE_4_TAG_ISO_STATUS_NOT_FOUND) :=
    answers_error isError_notFound
  unfold isoRead
  split_ifs with hmask
  · exact answers_error isError_noSupport
  rcases hstate : listener.state with _ | _ | _ | _ | _
  · exact hmissing
  · exact hmissing
  · exact hmissing
  · exact answers_readCc hframe hstate _
  have hmask' : p1 &&& 0x80 = 0 := not_not.1 hmask
  have hfits' := hfits hstate hmask'
  by_cases hin : uint16Be p1 p2 < 2 + listener.data.ndefData.length
  · refine ⟨_, _, _, readNdef_eq hin hfits', ?_⟩
    refine ⟨by rw [List.length_append]; exact hfits', fun _ offset le' hread _ => ?_,
      fun _ offset bytes h => ?_, fun offset bytes h _ => ?_, fun _ => rfl, id⟩
    · obtain ⟨_, _, _, -, rfl, happ⟩ := hread.apdu
      obtain ⟨-, rfl, rfl, -, rfl⟩ := isApdu_unique hframe happ
      rfl
    · obtain ⟨_, _, _, -, -, happ⟩ := h.apdu
      exact absurd (isApdu_unique hframe happ).1 (by decide)
    · obtain ⟨_, _, _, -, -, happ⟩ := h.apdu
      exact absurd (isApdu_unique hframe happ).1 (by decide)
  · have hread : listener.readNdef (uint16Be p1 p2) le =
        listener.answer .wrongFormat TYPE_4_TAG_ISO_STATUS_OFFSET_ERR := by
      rw [readNdef, if_neg (by omega), readNdefData, if_pos (by omega)]
      rfl
    show Answers listener frame (listener.readNdef (uint16Be p1 p2) le)
    rw [hread]
    exact answers_error isError_offsetErr

/-! ## Updating -/

/-- An update that says as much as it carries: one that states the length states that of what follows
it at least, one that changes only the lower byte of the length changes nothing else of it, and one
that carries nothing begins in the file. -/
structure Whole (message : List UInt8) (offset : ℕ) (bytes : List UInt8) : Prop where
  length : offset = 0 → ∃ high low rest, bytes = high :: low :: rest ∧ rest.length ≤ uint16Be high low
  lower : offset = 1 → bytes.length = 1 ∧ message.length < 256
  nothing : 2 ≤ offset → bytes = [] → offset ≤ 2 + message.length

theorem writeNdefData_eq {bytes : List UInt8} {lenNew offset : ℕ}
    (hread : 0 < bytes.length → dataBytes body ptr bytes.length = .ok bytes) :
    listener.writeNdefData body lenNew offset ptr bytes.length = .ok (.none, [0x90, 0x00],
      listener.setNdefData (overwrite
        (resized listener.data.ndefData (max lenNew (offset + bytes.length))) offset bytes)) := by
  have hresized : (if max lenNew (offset + bytes.length) ≠ listener.data.ndefData.length then
      resized listener.data.ndefData (max lenNew (offset + bytes.length)) else listener.data.ndefData) =
        resized listener.data.ndefData (max lenNew (offset + bytes.length)) := by
    split_ifs with h
    · rfl
    · rw [not_not.1 h, resized_length]
  unfold writeNdefData
  dsimp only
  rw [hresized]
  split_ifs with hpos
  · rw [hread hpos.2]
    dsimp only [bind, Except.bind]
    rw [copyTo, if_pos (by rw [length_resized]; exact le_max_right _ _)]
    rfl
  · have hnil : bytes = [] := List.eq_nil_of_length_eq_zero (by
      rcases Nat.eq_zero_or_pos bytes.length with h | h
      · exact h
      · exact absurd ⟨lt_of_lt_of_le (by omega) (le_max_right _ _), h⟩ hpos)
    rw [hnil, overwrite_nil]
    rfl

theorem updated_behind {message bytes : List UInt8} {offset : ℕ} (hoffset : 2 ≤ offset)
    (hwhole : bytes = [] → offset ≤ 2 + message.length) :
    Updated (ndefFile message) offset bytes (ndefFile (overwrite
      (resized message (max message.length (offset - 2 + bytes.length))) (offset - 2) bytes)) := by
  have hle : offset - 2 + bytes.length ≤ max message.length (offset - 2 + bytes.length) :=
    le_max_right _ _
  have hlength := @length_stored message bytes _ _ hle
  refine ⟨?_, fun i hi hout hfile hfile' => ?_, fun hkept i hi _ => ?_, fun _ hgrown => ?_⟩
  · rw [drop_ndefFile _ hoffset]
    exact take_drop_stored hle
  · rw [length_ndefFile] at hfile hfile'
    rw [hlength] at hfile'
    rw [getElem?_ndefFile _ hi, getElem?_ndefFile _ hi]
    exact getElem?_stored hle (by omega) (by omega) (by omega)
  · refine getElem?_ndefFile_of_length_eq ?_ hi
    rw [hlength]
    rcases hkept with rfl | hkept
    · have hin := hwhole rfl
      rw [List.length_nil]
      omega
    · rw [length_ndefFile] at hkept
      omega
  · rw [length_ndefFile] at hgrown ⊢
    rw [hlength]
    omega

theorem updated_length {message rest : List UInt8} {high low : UInt8}
    (hlength : rest.length ≤ uint16Be high low) :
    Updated (ndefFile message) 0 (high :: low :: rest)
      (ndefFile (overwrite (resized message (max (uint16Be high low) (0 + rest.length))) 0 rest)) := by
  have hle : 0 + rest.length ≤ max (uint16Be high low) (0 + rest.length) := le_max_right _ _
  have hstored := @length_stored message rest _ _ hle
  have hmax : max (uint16Be high low) (0 + rest.length) = uint16Be high low := by omega
  obtain ⟨hhigh, hlow⟩ := ofNat_uint16Be high low
  refine ⟨?_, fun i hi hout hfile hfile' => ?_, fun _ i hi hout => ?_, fun h => ?_⟩
  · have htake := @take_drop_stored message rest _ _ hle
    rw [List.drop_zero] at htake ⊢
    rw [ndefFile, hstored, hmax, hhigh, hlow, ← hmax]
    rw [List.length_cons, List.length_cons, List.take_succ_cons, List.take_succ_cons, htake]
  · rw [length_ndefFile] at hfile hfile'
    rw [hstored] at hfile'
    rw [getElem?_ndefFile _ hi, getElem?_ndefFile _ hi]
    rw [List.length_cons, List.length_cons] at hout
    exact getElem?_stored hle (by omega) (by omega) (by omega)
  · rw [List.length_cons, List.length_cons] at hout
    omega
  · omega

theorem updated_lower {message : List UInt8} {low : UInt8} (hmessage : message.length < 256) :
    Updated (ndefFile message) 1 [low]
      (ndefFile (overwrite (resized message (max low.toNat (0 + ([] : List UInt8).length))) 0 [])) := by
  have hlow := low.toNat_lt
  have hlength : (resized message (max low.toNat (0 + ([] : List UInt8).length))).length = low.toNat := by
    rw [length_resized]
    exact Nat.max_eq_left (Nat.zero_le _)
  rw [overwrite_nil]
  refine ⟨?_, fun i hi hout hfile hfile' => ?_, fun _ i hi hout => ?_, fun h => ?_⟩
  · rw [ndefFile, hlength, UInt8.ofNat_toNat]
    rfl
  · rw [length_ndefFile] at hfile hfile'
    rw [getElem?_ndefFile _ hi, getElem?_ndefFile _ hi]
    rw [length_resized] at hfile'
    exact getElem?_resized message (by omega) (by omega)
  · rw [List.length_singleton] at hout
    obtain rfl : i = 0 := by omega
    rw [ndefFile, ndefFile, hlength, Nat.div_eq_of_lt hlow, Nat.div_eq_of_lt hmessage]
    rfl
  · omega

theorem right_of_updated {after : Type4TagListener} (hframe : IsApdu frame 0xD6 p1 p2 data le)
    (hstate : listener.state = .selectedNdefMessage) (hmask : p1 &&& 0x80 = 0)
    (hin : uint16Be p1 p2 + data.length ≤ 2 + listener.data.maxLen) (hlocked : ¬listener.Locked)
    (hupdated : Updated (ndefFile listener.data.ndefData) (uint16Be p1 p2) data
      (ndefFile after.data.ndefData))
    (hfile : listener.data.ndefData.length < 2 ^ 16 → after.data.ndefData.length < 2 ^ 16) :
    Right listener frame [0x90, 0x00] after := by
  refine ⟨by decide, fun _ offset le' h _ => ?_, fun _ offset bytes h _ => ?_,
    fun offset bytes h hrefused => ?_, fun h => ?_, hfile⟩
  · obtain ⟨_, _, _, -, -, happ⟩ := h.apdu
    exact absurd (isApdu_unique hframe happ).1 (by decide)
  · obtain ⟨_, _, _, -, rfl, happ⟩ := h.apdu
    obtain ⟨-, rfl, rfl, rfl, -⟩ := isApdu_unique hframe happ
    exact hupdated
  · obtain ⟨_, _, _, -, rfl, happ⟩ := h.apdu
    obtain ⟨-, rfl, rfl, rfl, -⟩ := isApdu_unique hframe happ
    rcases hrefused with hcc | ⟨-, hlock | hout⟩
    · rw [hstate] at hcc
      cases hcc
    · exact absurd hlock hlocked
    · omega
  · exact absurd ⟨hstate, _, _, ⟨p1, p2, le, hmask, rfl, hframe⟩, [], rfl⟩ h

theorem maxLen_lt (data : Type4TagData) : data.maxLen < 2 ^ 16 := by
  unfold Type4TagData.maxLen
  split_ifs
  · exact data.ndefMaxLen.toNat_lt
  · decide

theorem length_setNdefData_lt {message bytes : List UInt8} {lenNew offset : ℕ}
    (hlen : lenNew < 2 ^ 16) (hend : offset + bytes.length < 2 ^ 16) :
    ((listener.setNdefData (overwrite (resized message (max lenNew (offset + bytes.length))) offset
      bytes)).data.ndefData).length < 2 ^ 16 := by
  have hlength := @length_stored message bytes _ _ (le_max_right lenNew (offset + bytes.length))
  show (overwrite _ offset bytes).length < 2 ^ 16
  omega

theorem answers_isoWrite (hframe : IsApdu frame 0xD6 p1 p2 data le) (hdata : DataAt body data ptr)
    (hsound : listener.state = .selectedNdefMessage → p1 &&& 0x80 = 0 →
      uint16Be p1 p2 + data.length ≤ 2 + listener.data.maxLen →
        ¬listener.Locked ∧ Whole listener.data.ndefData (uint16Be p1 p2) data) :
    Answers listener frame (listener.isoWrite p1 p2 data.length body ptr le) := by
  have hmissing : Answers listener frame
      (listener.answer .customCommand TYPE_4_TAG_ISO_STATUS_NOT_FOUND) :=
    answers_error isError_notFound
  unfold isoWrite
  split_ifs with hmask
  · exact answers_error isError_noSupport
  rcases hstate : listener.state with _ | _ | _ | _ | _
  · exact hmissing
  · exact hmissing
  · exact hmissing
  · exact answers_error isError_noSupport
  have hmask' : p1 &&& 0x80 = 0 := not_not.1 hmask
  show Answers listener frame (listener.writeNdef body (uint16Be p1 p2) ptr data.length)
  unfold writeNdef
  split_ifs with hout hoffset
  · exact answers_error isError_offsetErr
  · have hin : uint16Be p1 p2 + data.length ≤ 2 + listener.data.maxLen := not_lt.1 hout
    obtain ⟨hlocked, hwhole⟩ := hsound hstate hmask' hin
    have hmax := maxLen_lt listener.data
    have hright := fun after => @right_of_updated listener frame data p1 p2 le after hframe hstate
      hmask' hin hlocked
    rcases Nat.lt_or_ge (uint16Be p1 p2) 1 with hzero | hone
    · have hzero' : uint16Be p1 p2 = 0 := by omega
      obtain ⟨high, low, rest, rfl, hlength⟩ := hwhole.length hzero'
      rw [hzero'] at hright ⊢
      cases hdata with
      | none h => cases h
      | @some before after hpos h =>
        have hnum : dataBytes body (some before.length) 2 = .ok [high, low] := by
          rw [h]
          exact @copyFrom_at before [high, low] (rest ++ after) _ _ rfl rfl
        have hrest : dataBytes body (some (before.length + 2)) rest.length = .ok rest := by
          rw [h, show before ++ (high :: low :: rest ++ after) = (before ++ [high, low]) ++ (rest ++ after)
            by simp]
          exact copyFrom_at (by simp) rfl
        dsimp only
        rw [hnum]
        dsimp only [bind, Except.bind]
        rw [if_neg (by simp), toNat_bytesToNumBe_two]
        exact ⟨_, _, _, writeNdefData_eq fun _ => hrest, hright _ (updated_length hlength) fun _ =>
          length_setNdefData_lt (uint16Be_lt high low)
            (by rw [List.length_cons, List.length_cons] at hin; omega)⟩
    · have hone' : uint16Be p1 p2 = 1 := by omega
      obtain ⟨hlength, hmessage⟩ := hwhole.lower hone'
      obtain ⟨low, rfl⟩ := List.length_eq_one_iff.1 hlength
      rw [hone'] at hright ⊢
      have hnum : dataBytes body ptr 1 = .ok [low] := dataBytes_eq hdata (by simp)
      dsimp only
      rw [hnum]
      dsimp only [bind, Except.bind]
      rw [if_neg (by simp), toNat_bytesToNumBe_one]
      exact ⟨_, _, _, @writeNdefData_eq listener body (ptr.map (· + 2)) [] low.toNat 0
        (fun h => absurd h (by simp)), hright _ (updated_lower hmessage) fun _ =>
          length_setNdefData_lt (low.toNat_lt.trans (by decide)) (by simp)⟩
  · have hin : uint16Be p1 p2 + data.length ≤ 2 + listener.data.maxLen := not_lt.1 hout
    obtain ⟨hlocked, hwhole⟩ := hsound hstate hmask' hin
    have htwo : 2 ≤ uint16Be p1 p2 := not_lt.1 hoffset
    refine ⟨_, _, _, writeNdefData_eq (dataBytes_eq hdata), right_of_updated hframe hstate hmask' hin
      hlocked ?_ fun hfile => ?_⟩
    · exact updated_behind htwo (hwhole.nothing htwo)
    · have hmax := maxLen_lt listener.data
      exact length_setNdefData_lt hfile (by omega)

/-! ## Frames and runs -/

/-- A frame for which the tag is a file of bytes: its length is complete, what is read fits into an
answer, and what is updated is not locked and says as much as it carries. -/
structure Sound (listener : Type4TagListener) (frame : List UInt8) : Prop where
  complete : ∀ ins p1 p2 byte, frame = [0x00, ins, p1, p2, 0, byte] →
    ins ≠ 0xA4 ∧ ins ≠ 0xB0 ∧ ins ≠ 0xD6
  fits : listener.state = .selectedNdefMessage → ∀ offset le, IsRead frame offset le →
    (((ndefFile listener.data.ndefData).drop offset).take le).length + 2 ≤ TYPE_4_TAG_BUF_SIZE
  whole : listener.state = .selectedNdefMessage → ∀ offset bytes, IsUpdate frame offset bytes →
    offset + bytes.length ≤ 2 + listener.data.maxLen →
      ¬listener.Locked ∧ Whole listener.data.ndefData offset bytes

theorem answers_dispatch (h : listener.Sound frame) :
    Answers listener frame (listener.dispatch frame) := by
  have hshort : frame.length < 4 → Answers listener frame (.ok (.wrongFormat, [], listener)) := by
    intro hlt
    have hnot : ∀ {ins p1 p2 data le}, ¬IsApdu frame ins p1 p2 data le := by
      intro ins p1 p2 data le happ
      obtain ⟨body, rfl, -⟩ := happ.body
      simp only [List.length_cons] at hlt
      omega
    refine ⟨_, _, _, rfl, by decide, fun _ _ _ h => ?_, fun _ _ _ h => ?_, fun _ _ h => ?_, fun _ => rfl, id⟩
    · obtain ⟨_, _, _, -, -, happ⟩ := h.apdu
      exact absurd happ hnot
    · obtain ⟨_, _, _, -, -, happ⟩ := h.apdu
      exact absurd happ hnot
    · obtain ⟨_, _, _, -, -, happ⟩ := h.apdu
      exact absurd happ hnot
  rcases frame with _ | ⟨cla, _ | ⟨ins, _ | ⟨p1, _ | ⟨p2, body⟩⟩⟩⟩
  · exact hshort (by simp)
  · exact hshort (by simp)
  · exact hshort (by simp)
  · exact hshort (by simp)
  have hbody : ∀ handler : ApduHandler, cla = 0x00 → ins = 0xA4 ∨ ins = 0xB0 ∨ ins = 0xD6 →
      (∀ data le ptr, ApduBody body data le → DataAt body data ptr →
        Answers listener (cla :: ins :: p1 :: p2 :: body)
          (handler listener p1 p2 data.length body ptr le)) →
      Answers listener (cla :: ins :: p1 :: p2 :: body) (listener.handleBody handler p1 p2 body) := by
    intro handler hcla hins hhandler
    unfold handleBody
    rcases hparse : apduBody body with fault | _ | ⟨lc, ptr, le⟩
    · obtain ⟨byte, rfl⟩ := apduBody_eq_error hparse
      have hne := h.complete ins p1 p2 byte (by rw [hcla])
      rcases hins with hins | hins | hins
      · exact absurd hins hne.1
      · exact absurd hins hne.2.1
      · exact absurd hins hne.2.2
    · exact answers_error isError_badParams
    · obtain ⟨data, happ, rfl, hdata⟩ := apduBody_of_some hparse
      exact hhandler data le ptr happ hdata
  rw [dispatch, apduHandler]
  by_cases hselect : cla = 0x00 ∧ ins = 0xA4
  · rw [if_pos hselect]
    obtain ⟨rfl, rfl⟩ := hselect
    exact hbody isoSelect rfl (.inl rfl) fun data le ptr happ hdata =>
      answers_isoSelect ⟨body, rfl, happ⟩ hdata
  rw [if_neg hselect]
  by_cases hread : cla = 0x00 ∧ ins = 0xB0
  · rw [if_pos hread]
    obtain ⟨rfl, rfl⟩ := hread
    refine hbody isoRead rfl (.inr (.inl rfl)) fun data le ptr happ hdata =>
      answers_isoRead ⟨body, rfl, happ⟩ fun hstate hmask => ?_
    exact h.fits hstate _ _ ⟨p1, p2, data, hmask, rfl, body, rfl, happ⟩
  rw [if_neg hread]
  by_cases hwrite : cla = 0x00 ∧ ins = 0xD6
  · rw [if_pos hwrite]
    obtain ⟨rfl, rfl⟩ := hwrite
    refine hbody isoWrite rfl (.inr (.inr rfl)) fun data le ptr happ hdata =>
      answers_isoWrite ⟨body, rfl, happ⟩ hdata fun hstate hmask hin => ?_
    exact h.whole hstate _ _ ⟨p1, p2, le, hmask, rfl, body, rfl, happ⟩ hin
  rw [if_neg hwrite]
  exact answers_error isError_noCmd

end Type4TagListener

/-- Two bytes with the number of those that follow them. -/
def IsFile (file : List UInt8) : Prop :=
  ∃ high low message, file = high :: low :: message ∧ uint16Be high low = message.length

theorem isFile_ndefFile {message : List UInt8} (h : message.length < 2 ^ 16) :
    IsFile (ndefFile message) := by
  refine ⟨_, _, message, rfl, ?_⟩
  rw [uint16Be, UInt8.toNat_ofNat', UInt8.toNat_ofNat']
  omega

namespace Type4TagListener

variable (sendBlock : List UInt8 → Iso14443_4aError)

def step (listener : Type4TagListener) (event : Type4TagListenerEvent) :
    Except Type4TagFault Type4TagListener :=
  (listener.run sendBlock event).map Prod.snd

/-- The tag is a file of bytes, and an event leaves it one. -/
def Behaves (listener : Type4TagListener) (event : Type4TagListenerEvent) : Prop :=
  IsFile (ndefFile listener.data.ndefData) ∧ ∃ reply after,
    listener.run sendBlock event = .ok (reply, after) ∧ IsFile (ndefFile after.data.ndefData) ∧
      match event with
      | .receivedData frame => Right listener frame reply after
      | _ => reply = [] ∧ after.data = listener.data

/-- An event is sound if it is no frame, or one that is. -/
def SoundEvent (listener : Type4TagListener) (event : Type4TagListenerEvent) : Prop :=
  ∀ frame, event = .receivedData frame → listener.Sound frame

/-- What has been written is read, if nothing has been updated since. -/
def ReadsBack (listener : Type4TagListener) (frame : List UInt8)
    (between : List Type4TagListenerEvent) (frame' : List UInt8) : Prop :=
  ∀ offset bytes reply written selected reply' after,
    listener.state = .selectedNdefMessage → IsUpdate frame offset bytes →
    listener.run sendBlock (.receivedData frame) = .ok (reply, written) → Succeeds reply →
    (∀ event ∈ between, ∀ frame, event = .receivedData frame → ∀ offset bytes, ¬IsUpdate frame offset bytes) →
    exec (step sendBlock) written between = .ok selected → selected.state = .selectedNdefMessage →
    IsRead frame' offset bytes.length →
    selected.run sendBlock (.receivedData frame') = .ok (reply', after) → Succeeds reply' →
    reply' = bytes ++ [0x90, 0x00]

variable {sendBlock} {listener : Type4TagListener}

theorem run_receivedData {frame reply : List UInt8} {error : Type4TagError} {after : Type4TagListener}
    (h : listener.dispatch frame = .ok (error, reply, after)) :
    listener.run sendBlock (.receivedData frame) = .ok (reply, after) := by
  rw [run, handleApdu, h]
  dsimp only [bind, Except.bind]
  split_ifs
  · rfl
  · rfl

theorem behaves_of_sound {event : Type4TagListenerEvent}
    (hfile : listener.data.ndefData.length < 2 ^ 16) (h : listener.SoundEvent event) :
    listener.Behaves sendBlock event ∧ ∀ after, step sendBlock listener event = .ok after →
      after.data.ndefData.length < 2 ^ 16 := by
  have hisFile := isFile_ndefFile hfile
  cases event with
  | fieldOff =>
    refine ⟨⟨hisFile, [], listener.resetState, rfl, hisFile, rfl, rfl⟩, fun after hafter => ?_⟩
    cases hafter
    exact hfile
  | halted =>
    refine ⟨⟨hisFile, [], listener.resetState, rfl, hisFile, rfl, rfl⟩, fun after hafter => ?_⟩
    cases hafter
    exact hfile
  | receivedData frame =>
    obtain ⟨error, reply, after, hdispatch, hright⟩ := answers_dispatch (h frame rfl)
    have hrun := @run_receivedData sendBlock listener frame reply error after hdispatch
    refine ⟨⟨hisFile, reply, after, hrun, isFile_ndefFile (hright.file hfile), hright⟩,
      fun after' hafter => ?_⟩
    rw [step, hrun] at hafter
    cases hafter
    exact hright.file hfile

theorem execAlong_behaves : ∀ {events : List Type4TagListenerEvent} {listener : Type4TagListener},
    listener.data.ndefData.length < 2 ^ 16 → ExecAlong SoundEvent (step sendBlock) listener events →
    ExecAlong (Behaves sendBlock) (step sendBlock) listener events
  | [], _, _, _ => trivial
  | event :: events, listener, hfile, ⟨hevent, hevents⟩ => by
    obtain ⟨hbehaves, hkeeps⟩ := @behaves_of_sound sendBlock listener event hfile hevent
    exact ⟨hbehaves, fun after hafter => execAlong_behaves (hkeeps after hafter) (hevents after hafter)⟩

theorem exec_data_eq : ∀ {events : List Type4TagListenerEvent} {listener after : Type4TagListener},
    ExecAlong (Behaves sendBlock) (step sendBlock) listener events →
    (∀ event ∈ events, ∀ frame, event = .receivedData frame → ∀ offset bytes, ¬IsUpdate frame offset bytes) →
    exec (step sendBlock) listener events = .ok after → after.data = listener.data
  | [], listener, after, _, _, h => by
    cases h
    rfl
  | event :: events, listener, after, ⟨⟨_, reply, next, hrun, _, hright⟩, hevents⟩, hnone, h => by
    have hstep : step sendBlock listener event = .ok next := by rw [step, hrun]; rfl
    rw [exec, List.foldlM_cons, hstep] at h
    have hdata : next.data = listener.data := by
      cases event with
      | fieldOff => exact hright.2
      | halted => exact hright.2
      | receivedData frame =>
        refine hright.kept ?_
        rintro ⟨-, offset, bytes, hupdate, -⟩
        exact hnone _ List.mem_cons_self frame rfl offset bytes hupdate
    rw [← hdata]
    exact exec_data_eq (hevents next hstep)
      (fun event hevent => hnone event (List.mem_cons_of_mem _ hevent)) h

theorem readsBack {frame frame' : List UInt8} {between rest : List Type4TagListenerEvent}
    (h : ExecAlong (Behaves sendBlock) (step sendBlock) listener
      (.receivedData frame :: (between ++ .receivedData frame' :: rest))) :
    ReadsBack sendBlock listener frame between frame' := by
  intro offset bytes reply written selected reply' after hstate hupdate hrun hreply hnone hexec hselected
    hread hrun' hreply'
  obtain ⟨⟨-, _, _, hrun₁, -, hright⟩, hrest⟩ := h
  rw [hrun] at hrun₁
  cases hrun₁
  have hwritten : step sendBlock listener (.receivedData frame) = .ok written := by rw [step, hrun]; rfl
  have hrest' := hrest written hwritten
  have hdata : selected.data = written.data := exec_data_eq hrest'.left hnone hexec
  obtain ⟨⟨-, _, _, hrun₂, -, hright'⟩, -⟩ := hrest'.right hexec
  rw [hrun'] at hrun₂
  cases hrun₂
  have hfile := hright'.read hselected offset bytes.length hread hreply'
  rw [hdata, (hright.updated hstate offset bytes hupdate hreply).written] at hfile
  exact hfile

/-- In a run of sound events the tag is a file of bytes. -/
theorem listener_byteFile (sendBlock : List UInt8 → Iso14443_4aError) (data : Type4TagData)
    (events : List Type4TagListenerEvent) (hdata : data.ndefData.length < 2 ^ 16)
    (hsound : ExecAlong SoundEvent (step sendBlock) (alloc data) events) :
    ExecAlong (Behaves sendBlock) (step sendBlock) (alloc data) events ∧
      ∀ before frame between frame' rest listener,
        events = before ++ .receivedData frame :: (between ++ .receivedData frame' :: rest) →
        exec (step sendBlock) (alloc data) before = .ok listener →
        ReadsBack sendBlock listener frame between frame' := by
  have hbehaves := execAlong_behaves hdata hsound
  refine ⟨hbehaves, fun before frame between frame' rest listener hevents hexec => ?_⟩
  rw [hevents] at hbehaves
  exact readsBack (hbehaves.right hexec)

/-- A tag without a message, as it is loaded. -/
def emptyTag : Type4TagData where
  isTagSpecific := false
  t4tVersion := 0
  chunkMaxRead := 0
  chunkMaxWrite := 0
  ndefFileId := 0
  ndefMaxLen := 0
  ndefReadLock := 0
  ndefWriteLock := 0
  ndefData := []

/-- The application and the file are selected, a message of one byte is written and read. -/
def oneByteFrames : List (List UInt8) :=
  [[0x00, 0xA4, 0x04, 0x0C, 7, 0xD2, 0x76, 0x00, 0x00, 0x85, 0x01, 0x01],
    [0x00, 0xA4, 0x00, 0x0C, 2, 0xE1, 0x04],
    [0x00, 0xD6, 0x00, 0x00, 3, 0x00, 0x01, 0xAA],
    [0x00, 0xB0, 0x00, 0x00, 3]]

theorem sound_select {body data : List UInt8} {p1 p2 : UInt8} (hbody : ApduBody body data 0)
    (hlength : body.length ≠ 2) : listener.Sound (0x00 :: 0xA4 :: p1 :: p2 :: body) := by
  have hframe : IsApdu (0x00 :: 0xA4 :: p1 :: p2 :: body) 0xA4 p1 p2 data 0 := ⟨body, rfl, hbody⟩
  refine ⟨fun ins p1 p2 byte h => ?_, fun _ offset le h => ?_, fun _ offset bytes h => ?_⟩
  · cases h
    exact absurd rfl hlength
  · obtain ⟨_, _, _, -, -, happ⟩ := h.apdu
    exact absurd (isApdu_unique hframe happ).1 (by decide)
  · obtain ⟨_, _, _, -, -, happ⟩ := h.apdu
    exact absurd (isApdu_unique hframe happ).1 (by decide)

theorem sound_oneByteUpdate (hdata : listener.data = emptyTag) :
    listener.Sound [0x00, 0xD6, 0x00, 0x00, 3, 0x00, 0x01, 0xAA] := by
  have hbody : ApduBody [3, 0x00, 0x01, 0xAA] [0x00, 0x01, 0xAA] 0 := .data (by decide) rfl
  have hframe : IsApdu [0x00, 0xD6, 0x00, 0x00, 3, 0x00, 0x01, 0xAA] 0xD6 0 0 [0x00, 0x01, 0xAA] 0 :=
    ⟨_, rfl, hbody⟩
  refine ⟨fun ins p1 p2 byte h => (by cases h), fun _ offset le h => ?_, fun _ offset bytes h _ => ?_⟩
  · obtain ⟨_, _, _, -, -, happ⟩ := h.apdu
    exact absurd (isApdu_unique hframe happ).1 (by decide)
  · obtain ⟨_, _, _, -, rfl, happ⟩ := h.apdu
    obtain ⟨-, rfl, rfl, rfl, -⟩ := isApdu_unique hframe happ
    refine ⟨fun hlocked => ?_, fun _ => ⟨0x00, 0x01, [0xAA], rfl, by decide⟩, fun h => ?_, fun h => ?_⟩
    · rw [Locked, hdata] at hlocked
      exact absurd hlocked.1 (by decide)
    · exact absurd h (by decide)
    · exact absurd h (by decide)

theorem sound_oneByteRead (hdata : listener.data.ndefData = [0xAA]) :
    listener.Sound [0x00, 0xB0, 0x00, 0x00, 3] := by
  have hframe : IsApdu [0x00, 0xB0, 0x00, 0x00, 3] 0xB0 0 0 [] 3 := ⟨[3], rfl, .short 3⟩
  refine ⟨fun ins p1 p2 byte h => (by cases h), fun _ offset le h => ?_, fun _ offset bytes h _ => ?_⟩
  · have hsize : TYPE_4_TAG_BUF_SIZE = 251 := rfl
    rw [List.length_take, List.length_drop, hdata, length_ndefFile, List.length_singleton]
    omega
  · obtain ⟨_, _, _, -, -, happ⟩ := h.apdu
    exact absurd (isApdu_unique hframe happ).1 (by decide)

theorem execAlong_cons_of_eq {event : Type4TagListenerEvent} {events : List Type4TagListenerEvent}
    {after : Type4TagListener} (hstep : step sendBlock listener event = .ok after)
    (h : listener.SoundEvent event) (hrest : ExecAlong SoundEvent (step sendBlock) after events) :
    ExecAlong SoundEvent (step sendBlock) listener (event :: events) := by
  refine ⟨h, fun after' hafter => ?_⟩
  rw [hstep] at hafter
  cases hafter
  exact hrest

theorem soundEvent_of_sound {frame : List UInt8} (h : listener.Sound frame) :
    listener.SoundEvent (.receivedData frame) := by
  rintro frame ⟨⟩
  exact h

theorem listener_byteFile_oneByte :
    ExecAlong (Behaves fun _ => .none) (step fun _ => .none) (alloc emptyTag)
        (oneByteFrames.map .receivedData) ∧
      ∀ before frame between frame' rest listener,
        oneByteFrames.map .receivedData =
          before ++ .receivedData frame :: (between ++ .receivedData frame' :: rest) →
        exec (step fun _ => .none) (alloc emptyTag) before = .ok listener →
        ReadsBack (fun _ => .none) listener frame between frame' := by
  refine listener_byteFile (fun _ => .none) emptyTag _ (by decide) ?_
  have hname : ApduBody [7, 0xD2, 0x76, 0x00, 0x00, 0x85, 0x01, 0x01]
      [0xD2, 0x76, 0x00, 0x00, 0x85, 0x01, 0x01] 0 := .data (by decide) rfl
  have hid : ApduBody [2, 0xE1, 0x04] [0xE1, 0x04] 0 := .data (by decide) rfl
  refine @execAlong_cons_of_eq _ _ _ _ ⟨emptyTag, .selectedApplication⟩ rfl
    (soundEvent_of_sound (sound_select hname (by decide))) ?_
  refine @execAlong_cons_of_eq _ _ _ _ ⟨emptyTag, .selectedNdefMessage⟩ rfl
    (soundEvent_of_sound (sound_select hid (by decide))) ?_
  refine @execAlong_cons_of_eq _ _ _ _ ⟨{ emptyTag with ndefData := [0xAA] }, .selectedNdefMessage⟩ rfl
    (soundEvent_of_sound (sound_oneByteUpdate rfl)) ?_
  exact ⟨soundEvent_of_sound (sound_oneByteRead rfl), fun _ _ => trivial⟩

/-- The second byte of a length is read behind the frame. -/
theorem not_listener_byteFile_shortLength :
    ¬∀ (sendBlock : List UInt8 → Iso14443_4aError) (data : Type4TagData)
      (events : List Type4TagListenerEvent), data.ndefData.length < 2 ^ 16 →
        ExecAlong (Behaves sendBlock) (step sendBlock) (alloc data) events := by
  intro h
  have hbehaves := h (fun _ => .none) emptyTag [.receivedData [0x00, 0xB0, 0x00, 0x00, 0x00, 0x01]]
    (by decide)
  obtain ⟨⟨-, reply, after, hrun, -⟩, -⟩ := hbehaves
  cases hrun

end Type4TagListener

end KiisuFirmware
