import KiisuFirmware.Proofs.Type4TagListener
import KiisuFirmware.Type4TagPoller

/-!
# Whole messages of Type 4 Tags

A loop that reads or writes takes an exchange for each piece, so it ends if a piece has any bytes
(`isoReadLoop_yields`, `isoWriteLoop_yields`), and goes on with a card that answers otherwise
(`silentCard`). With a card that is a file of bytes it moves what lies there
(`isoReadLoop_byteFile`, `isoWriteLoop_byteFile`).
-/

namespace KiisuFirmware

open Type4Tag

namespace Type4TagPoller

variable {σ : Type} {send : Type4TagCard σ} {poller : Type4TagPoller σ}

/-! ## What is exchanged -/

theorem apduTrx_yields {tx : List UInt8} (htx : tx.length ≤ TYPE_4_TAG_BUF_SIZE) :
    Yields (fun r => r.2.2.data = poller.data ∧ poller.left = r.2.2.left + 1)
      (fun stop => stop = .exhausted ∧ poller.left = 0) (poller.apduTrx send tx) := by
  unfold apduTrx
  rw [appendReply, if_pos (by rw [List.length_nil]; omega), List.nil_append]
  dsimp only [check, bind, Except.bind]
  rcases hleft : poller.left with _ | left
  · exact ⟨rfl, rfl⟩
  · dsimp only
    split_ifs
    · exact ⟨rfl, rfl⟩
    · exact ⟨rfl, rfl⟩
    · exact ⟨rfl, rfl⟩
    · exact ⟨rfl, rfl⟩

theorem apduTrx_eq {tx bytes : List UInt8} {card : σ} (htx : tx.length ≤ TYPE_4_TAG_BUF_SIZE)
    (hleft : 0 < poller.left)
    (hsend : send poller.card tx = ((.none, bytes ++ [0x90, 0x00]), card)) :
    poller.apduTrx send tx = .ok (.none, bytes, ⟨poller.data, card, poller.left - 1⟩) := by
  obtain ⟨left, hleft⟩ := Nat.exists_eq_succ_of_ne_zero hleft.ne'
  have hlength : (bytes ++ [0x90, 0x00]).length = bytes.length + 2 := by
    rw [List.length_append]
    rfl
  unfold apduTrx
  rw [appendReply, if_pos (by rw [List.length_nil]; omega), List.nil_append]
  dsimp only [check, bind, Except.bind]
  rw [hleft, hsend]
  dsimp only
  rw [if_neg (fun h => h rfl), hlength, if_neg (by rw [TYPE_4_TAG_ISO_STATUS_LEN]; omega),
    Nat.add_sub_cancel, List.drop_left, List.take_left]
  rfl

theorem isoSelectFile_yields (fileId : UInt16) :
    Yields (fun r => r.2.data = poller.data ∧ poller.left = r.2.left + 1)
      (fun stop => stop = .exhausted ∧ poller.left = 0) (poller.isoSelectFile send fileId) := by
  have htx : ([0x00, 0xA4, TYPE_4_TAG_ISO_SELECT_P1_BY_EF_ID, 0x0C, 2] ++
      Type4TagData.num16 fileId.toNat).length ≤ TYPE_4_TAG_BUF_SIZE := by
    rw [num16_eq]
    show 7 ≤ 251
    decide
  exact (apduTrx_yields htx).bind fun _ h => h

theorem chunkMax_le (data : Type4TagData) (chunk : UInt16) : data.chunkMax chunk ≤ 246 := by
  have hlen : TYPE_4_TAG_CHUNK_LEN = 246 := rfl
  unfold Type4TagData.chunkMax
  split_ifs
  · omega
  · omega

theorem length_header (ins : UInt8) (offset : ℕ) (chunkLen : UInt8) :
    ([0x00, ins] ++ Type4TagData.num16 offset ++ [chunkLen]).length = 5 := by
  rw [num16_eq]
  rfl

theorem check_copyTo {buffer bytes : List UInt8} {ptr : ℕ} (h : ptr + bytes.length ≤ buffer.length) :
    check (copyTo buffer ptr bytes) = .ok (overwrite buffer ptr bytes) := by
  rw [copyTo, if_pos h]
  rfl

theorem check_copyFrom {buffer : List UInt8} {ptr count : ℕ} (h : ptr + count ≤ buffer.length) :
    check (copyFrom buffer ptr count) = .ok ((buffer.drop ptr).take count) := by
  rw [copyFrom, if_pos h]
  rfl

/-- A read keeps the size of its buffer, and has an exchange for each byte at most, if a piece has
any bytes. -/
theorem isoReadLoop_yields {chunkMax : ℕ} : ∀ {fuel offset length ptr : ℕ} {buffer : List UInt8}
    {poller : Type4TagPoller σ}, ptr + length ≤ buffer.length →
    Yields (fun r => r.2.1.length = buffer.length ∧ r.2.2.data = poller.data ∧
        (0 < chunkMax → poller.left ≤ r.2.2.left + length))
      (fun stop => stop = .exhausted ∧ (0 < chunkMax → poller.left < length ∨ fuel < length))
      (isoReadLoop send chunkMax fuel offset length ptr buffer poller)
  | 0, offset, length, ptr, buffer, poller, _ => by
    unfold isoReadLoop
    split_ifs with hlength
    · exact ⟨rfl, rfl, fun _ => Nat.le_add_right _ _⟩
    · exact ⟨rfl, fun _ => .inr (by omega)⟩
  | fuel + 1, offset, length, ptr, buffer, poller, hbuffer => by
    unfold isoReadLoop
    split_ifs with hlength
    · exact ⟨rfl, rfl, fun _ => Nat.le_add_right _ _⟩
    have hsize : TYPE_4_TAG_BUF_SIZE = 251 := rfl
    have htx := @apduTrx_yields σ send poller
      ([0x00, 0xB0] ++ Type4TagData.num16 offset ++ [UInt8.ofNat (min length chunkMax)])
      (by rw [length_header]; omega)
    dsimp only
    refine (htx.mono (fun _ h => h) fun stop h => ⟨h.1, fun _ => .inl (by omega)⟩).bind ?_
    rintro ⟨error, rx, after⟩ ⟨hdata, hleft⟩
    dsimp only at hdata hleft ⊢
    split_ifs with herror hrx
    · exact ⟨rfl, hdata, fun _ => by dsimp only; omega⟩
    · exact ⟨rfl, hdata, fun _ => by dsimp only; omega⟩
    have hrx' : rx.length = min length chunkMax := not_not.1 hrx
    rw [check_copyTo (by omega)]
    have hlength' : (overwrite buffer ptr rx).length = buffer.length := by
      rw [length_overwrite (by omega)]
      omega
    refine (isoReadLoop_yields (by rw [hlength']; omega)).mono ?_ ?_
    · rintro r ⟨hr, hrdata, hrleft⟩
      exact ⟨hr.trans hlength', hrdata.trans hdata, fun h => by have := hrleft h; omega⟩
    · rintro stop ⟨hstop, hleft'⟩
      exact ⟨hstop, fun h => by have := hleft' h; omega⟩

theorem isoWriteLoop_yields {chunkMax : ℕ} {buffer : List UInt8} (hchunk : chunkMax ≤ 246) :
    ∀ {fuel offset length ptr : ℕ} {poller : Type4TagPoller σ}, ptr + length ≤ buffer.length →
    Yields (fun r => r.2.data = poller.data ∧ (0 < chunkMax → poller.left ≤ r.2.left + length))
      (fun stop => stop = .exhausted ∧ (0 < chunkMax → poller.left < length ∨ fuel < length))
      (isoWriteLoop send chunkMax buffer fuel offset length ptr poller)
  | 0, offset, length, ptr, poller, _ => by
    unfold isoWriteLoop
    split_ifs with hlength
    · exact ⟨rfl, fun _ => Nat.le_add_right _ _⟩
    · exact ⟨rfl, fun _ => .inr (by omega)⟩
  | fuel + 1, offset, length, ptr, poller, hbuffer => by
    unfold isoWriteLoop
    split_ifs with hlength
    · exact ⟨rfl, fun _ => Nat.le_add_right _ _⟩
    have hsize : TYPE_4_TAG_BUF_SIZE = 251 := rfl
    have hbytes : ((buffer.drop ptr).take (min length chunkMax)).length ≤ 246 := by
      rw [List.length_take]
      omega
    have htx := @apduTrx_yields σ send poller ([0x00, 0xD6] ++ Type4TagData.num16 offset ++
      [UInt8.ofNat (min length chunkMax)] ++ (buffer.drop ptr).take (min length chunkMax))
      (by rw [List.length_append, length_header]; omega)
    dsimp only
    rw [check_copyFrom (by omega)]
    refine (htx.mono (fun _ h => h) fun stop h => ⟨h.1, fun _ => .inl (by omega)⟩).bind ?_
    rintro ⟨error, rx, after⟩ ⟨hdata, hleft⟩
    dsimp only at hdata hleft ⊢
    generalize (if error = .apduFailed then Type4TagError.cardLocked else error) = error'
    split_ifs with herror
    · exact ⟨hdata, fun _ => by dsimp only; omega⟩
    refine (isoWriteLoop_yields hchunk (by omega)).mono ?_ ?_
    · rintro r ⟨hrdata, hrleft⟩
      exact ⟨hrdata.trans hdata, fun h => by have := hrleft h; omega⟩
    · rintro stop ⟨hstop, hleft'⟩
      exact ⟨hstop, fun h => by have := hleft' h; omega⟩

theorem isoRead_yields (offset : ℕ) (buffer : List UInt8) :
    Yields (fun r => r.2.1.length = buffer.length ∧ r.2.2.data = poller.data ∧
        (0 < poller.data.chunkMax poller.data.chunkMaxRead → poller.left ≤ r.2.2.left + buffer.length))
      (fun stop => stop = .exhausted ∧
        (0 < poller.data.chunkMax poller.data.chunkMaxRead → poller.left < buffer.length))
      (poller.isoRead send offset buffer) := by
  unfold isoRead
  dsimp only
  split_ifs
  · exact ⟨rfl, rfl, fun _ => Nat.le_add_right _ _⟩
  · refine (isoReadLoop_yields (Nat.zero_add _).le).mono (fun _ h => h) ?_
    rintro stop ⟨hstop, hleft⟩
    exact ⟨hstop, fun h => by have := hleft h; omega⟩

theorem isoWrite_yields (offset : ℕ) (buffer : List UInt8) :
    Yields (fun r => r.2.data = poller.data ∧
        (0 < poller.data.chunkMax poller.data.chunkMaxWrite → poller.left ≤ r.2.left + buffer.length))
      (fun stop => stop = .exhausted ∧
        (0 < poller.data.chunkMax poller.data.chunkMaxWrite → poller.left < buffer.length))
      (poller.isoWrite send offset buffer) := by
  unfold isoWrite
  dsimp only
  split_ifs
  · exact ⟨rfl, fun _ => Nat.le_add_right _ _⟩
  · refine (isoWriteLoop_yields (chunkMax_le _ _) (Nat.zero_add _).le).mono (fun _ h => h) ?_
    rintro stop ⟨hstop, hleft⟩
    exact ⟨hstop, fun h => by have := hleft h; omega⟩

theorem readFileLen_yields (fileId : UInt16) :
    Yields (fun r => r.2.1 < 2 ^ 16 ∧ r.2.2.data = poller.data ∧
        (0 < poller.data.chunkMax poller.data.chunkMaxRead → poller.left ≤ r.2.2.left + 3))
      (fun stop => stop = .exhausted ∧
        (0 < poller.data.chunkMax poller.data.chunkMaxRead → poller.left < 3))
      (poller.readFileLen send fileId) := by
  unfold readFileLen
  refine ((isoSelectFile_yields fileId).mono (fun _ h => h) fun stop h =>
    ⟨h.1, fun _ => by omega⟩).bind ?_
  rintro ⟨error, selected⟩ ⟨hdata, hleft⟩
  dsimp only at hdata hleft ⊢
  split_ifs
  · exact ⟨Nat.two_pow_pos 16, hdata, fun _ => by dsimp only; omega⟩
  have hread := @isoRead_yields σ send selected 0 [0, 0]
  rw [hdata] at hread
  refine (hread.mono (fun _ h => h) fun stop h => ⟨h.1, fun hpos => ?_⟩).bind ?_
  rotate_left
  · have hlt : selected.left < 2 := h.2 hpos
    omega
  rintro ⟨error', lenBe, after⟩ ⟨hlenBe, hafter, hleft'⟩
  dsimp only at hlenBe hafter hleft' ⊢
  obtain ⟨high, low, rfl⟩ := List.length_eq_two.1 hlenBe
  refine ⟨?_, hafter, fun hpos => ?_⟩
  · rw [toNat_bytesToNumBe_two]
    exact uint16Be_lt high low
  · have hle := hleft' hpos
    rw [show ([0, 0] : List UInt8).length = 2 from rfl] at hle
    dsimp only
    omega

/-- The exchanges for reading a file: three for its length, and not more than that length. -/
def Used (poller : Type4TagPoller σ) (send : Type4TagCard σ) (fileId : UInt16)
    (after : Type4TagPoller σ) : Prop :=
  ∀ error len selected, poller.readFileLen send fileId = .ok (error, len, selected) →
    poller.left ≤ after.left + 3 + len

theorem used_of_ok {fileId : UInt16} {error : Type4TagError} {len : ℕ}
    {selected after : Type4TagPoller σ}
    (hok : poller.readFileLen send fileId = .ok (error, len, selected))
    (hle : poller.left ≤ after.left + 3 + len) : poller.Used send fileId after := by
  intro error' len' selected' hok'
  rw [hok] at hok'
  cases hok'
  exact hle

theorem readCc_yields (behind : ℕ → UInt8) :
    Yields (fun r => 0 < poller.data.chunkMax poller.data.chunkMaxRead →
        poller.Used send TYPE_4_TAG_T4T_CC_EF_ID r.2)
      (fun stop => stop = .exhausted ∧
        (0 < poller.data.chunkMax poller.data.chunkMaxRead → poller.left < 3 + 2 ^ 16))
      (poller.readCc send behind) := by
  have hlen := @readFileLen_yields σ send poller TYPE_4_TAG_T4T_CC_EF_ID
  unfold readCc
  rcases hok : poller.readFileLen send TYPE_4_TAG_T4T_CC_EF_ID with stop | ⟨error, len, selected⟩
  · rw [hok] at hlen
    exact ⟨hlen.1, fun hpos => (hlen.2 hpos).trans (by decide)⟩
  rw [hok] at hlen
  obtain ⟨hlt, hdata, hleft⟩ := hlen
  dsimp only [bind, Except.bind] at hlt hdata hleft ⊢
  split_ifs
  · exact fun hpos => used_of_ok hok ((hleft hpos).trans (Nat.le_add_right _ _))
  have hread := @isoRead_yields σ send selected 0 (List.replicate len 0)
  rw [hdata, List.length_replicate] at hread
  refine Yields.bind (P := fun r => r.2.2.data = poller.data ∧
    (0 < poller.data.chunkMax poller.data.chunkMaxRead → poller.left ≤ r.2.2.left + 3 + len)) ?_ ?_
  · refine hread.mono (fun r h => ⟨h.2.1, fun hpos => ?_⟩) fun stop h => ⟨h.1, fun hpos => ?_⟩
    · have h₁ := hleft hpos
      have h₂ := h.2.2 hpos
      omega
    · have h₁ := hleft hpos
      have h₂ := h.2 hpos
      omega
  rintro ⟨error', ccBuf, after⟩ ⟨hafter, hleft'⟩
  dsimp only at hafter hleft' ⊢
  split_ifs
  · exact fun hpos => used_of_ok hok (hleft' hpos)
  · exact fun hpos => used_of_ok hok (hleft' hpos)
  · exact fun hpos => used_of_ok hok (hleft' hpos)

theorem readNdef_yields :
    Yields (fun r => 0 < poller.data.chunkMax poller.data.chunkMaxRead →
        poller.Used send poller.data.ndefFileId r.2)
      (fun stop => stop = .exhausted ∧
        (0 < poller.data.chunkMax poller.data.chunkMaxRead → poller.left < 3 + 2 ^ 16))
      (poller.readNdef send) := by
  have hlen := @readFileLen_yields σ send poller poller.data.ndefFileId
  unfold readNdef
  rcases hok : poller.readFileLen send poller.data.ndefFileId with stop | ⟨error, len, selected⟩
  · rw [hok] at hlen
    exact ⟨hlen.1, fun hpos => (hlen.2 hpos).trans (by decide)⟩
  rw [hok] at hlen
  obtain ⟨hlt, hdata, hleft⟩ := hlen
  dsimp only [bind, Except.bind] at hlt hdata hleft ⊢
  split_ifs
  · exact fun hpos => used_of_ok hok ((hleft hpos).trans (Nat.le_add_right _ _))
  · exact fun hpos => used_of_ok hok ((hleft hpos).trans (Nat.le_add_right _ _))
  have hread := @isoRead_yields σ send selected 2 (List.replicate len 0)
  rw [hdata, List.length_replicate] at hread
  refine (hread.mono (fun r h => ?_) fun stop h => ⟨h.1, fun hpos => ?_⟩).bind fun _ h => h
  · intro hpos
    have h₁ := hleft hpos
    have h₂ := h.2.2 hpos
    exact @used_of_ok σ send poller _ error len selected (r.2.2.setData _) hok
      (show poller.left ≤ r.2.2.left + 3 + len by omega)
  · have h₁ := hleft hpos
    have h₂ := h.2 hpos
    omega

theorem writeNdef_yields :
    Yields (fun r => 0 < poller.data.chunkMax poller.data.chunkMaxWrite →
        poller.left ≤ r.2.left + 3 + poller.data.ndefData.length)
      (fun stop => stop = .exhausted ∧ (0 < poller.data.chunkMax poller.data.chunkMaxWrite →
        poller.left < 3 + poller.data.ndefData.length))
      (poller.writeNdef send) := by
  unfold writeNdef
  refine ((isoSelectFile_yields _).mono (fun _ h => h) fun stop h => ⟨h.1, fun _ => by omega⟩).bind ?_
  rintro ⟨error, selected⟩ ⟨hdata, hleft⟩
  dsimp only at hdata hleft ⊢
  by_cases herror : error = .none
  swap
  · rw [if_pos herror]
    exact fun _ => by dsimp only; omega
  rw [if_neg (not_not.2 herror)]
  have hlen := @isoWrite_yields σ send selected 0
    (Type4TagData.num16 (selected.data.ndefData.length % 2 ^ 16))
  have htwo : (Type4TagData.num16 (selected.data.ndefData.length % 2 ^ 16)).length = 2 := by
    rw [num16_eq]
    rfl
  rw [hdata] at hlen htwo ⊢
  rw [htwo] at hlen
  refine (hlen.mono (fun _ h => h) fun stop h => ⟨h.1, fun hpos => ?_⟩).bind ?_
  rotate_left
  · have hlt := h.2 hpos
    omega
  rintro ⟨error', after⟩ ⟨hafter, hleft'⟩
  dsimp only at hafter hleft' ⊢
  split_ifs
  · exact fun hpos => by have := hleft' hpos; dsimp only; omega
  · exact fun hpos => by have := hleft' hpos; dsimp only; omega
  have hmessage := @isoWrite_yields σ send after 2
    (poller.data.ndefData.take (poller.data.ndefData.length % 2 ^ 16))
  have hle : (poller.data.ndefData.take (poller.data.ndefData.length % 2 ^ 16)).length ≤
      poller.data.ndefData.length := by
    rw [List.length_take]
    exact min_le_right _ _
  rw [hafter] at hmessage ⊢
  refine hmessage.mono (fun r h hpos => ?_) fun stop h => ⟨h.1, fun hpos => ?_⟩
  · have h₁ := hleft' hpos
    have h₂ := h.2 hpos
    omega
  · have h₁ := hleft' hpos
    have h₂ := h.2 hpos
    omega

/-! ## A card that answers with nothing -/

/-- A card that answers with a success and no bytes. -/
def silentCard : Type4TagCard Unit := fun _ _ => ((.none, [0x90, 0x00]), ())

theorem isoReadLoop_silent : ∀ {fuel offset length ptr : ℕ} {buffer : List UInt8}
    {poller : Type4TagPoller Unit}, 0 < length → ptr + length ≤ buffer.length →
    isoReadLoop silentCard 0 fuel offset length ptr buffer poller = .error .exhausted
  | 0, offset, length, ptr, buffer, poller, hlength, _ => by
    rw [isoReadLoop, if_neg hlength.ne']
  | fuel + 1, offset, length, ptr, buffer, poller, hlength, hbuffer => by
    have htx : ([0x00, 0xB0] ++ Type4TagData.num16 offset ++
        [UInt8.ofNat (min length 0)]).length ≤ TYPE_4_TAG_BUF_SIZE := by
      rw [length_header]
      decide
    rw [isoReadLoop, if_neg hlength.ne']
    dsimp only
    rcases Nat.eq_zero_or_pos poller.left with hleft | hleft
    · have hstop := @apduTrx_yields Unit silentCard poller _ htx
      rcases htrx : poller.apduTrx silentCard ([0x00, 0xB0] ++ Type4TagData.num16 offset ++
          [UInt8.ofNat (min length 0)]) with stop | ⟨error, rx, after⟩
      · rw [htrx] at hstop
        rw [hstop.1]
        rfl
      · rw [htrx] at hstop
        exact absurd hstop.2 (by omega)
    · rw [@apduTrx_eq Unit silentCard poller _ [] () htx hleft rfl]
      dsimp only [bind, Except.bind]
      rw [if_neg (fun h => h rfl), if_neg (by simp), check_copyTo (by simp; omega), overwrite_nil,
        Nat.min_zero, Nat.sub_zero]
      exact isoReadLoop_silent hlength (by omega)

theorem isoWriteLoop_silent {buffer : List UInt8} : ∀ {fuel offset length ptr : ℕ}
    {poller : Type4TagPoller Unit}, 0 < length → ptr + length ≤ buffer.length →
    isoWriteLoop silentCard 0 buffer fuel offset length ptr poller = .error .exhausted
  | 0, offset, length, ptr, poller, hlength, _ => by
    rw [isoWriteLoop, if_neg hlength.ne']
  | fuel + 1, offset, length, ptr, poller, hlength, hbuffer => by
    have htx : ([0x00, 0xD6] ++ Type4TagData.num16 offset ++ [UInt8.ofNat (min length 0)] ++
        (buffer.drop ptr).take (min length 0)).length ≤ TYPE_4_TAG_BUF_SIZE := by
      rw [List.length_append, length_header, Nat.min_zero, List.take_zero]
      decide
    rw [isoWriteLoop, if_neg hlength.ne']
    dsimp only
    rw [check_copyFrom (by omega)]
    rcases Nat.eq_zero_or_pos poller.left with hleft | hleft
    · have hstop := @apduTrx_yields Unit silentCard poller _ htx
      rcases htrx : poller.apduTrx silentCard ([0x00, 0xD6] ++ Type4TagData.num16 offset ++
          [UInt8.ofNat (min length 0)] ++ (buffer.drop ptr).take (min length 0))
        with stop | ⟨error, rx, after⟩
      · rw [htrx] at hstop
        dsimp only [bind, Except.bind]
        rw [htrx, hstop.1]
      · rw [htrx] at hstop
        exact absurd hstop.2 (by omega)
    · dsimp only [bind, Except.bind]
      rw [@apduTrx_eq Unit silentCard poller _ [] () htx hleft rfl]
      dsimp only
      rw [if_neg (show ¬Type4TagError.none = .apduFailed by decide), if_neg (fun h => h rfl),
        Nat.min_zero, Nat.sub_zero]
      exact isoWriteLoop_silent hlength (by omega)

theorem isoSelectFile_silent (poller : Type4TagPoller Unit) (fileId : UInt16) (hleft : 0 < poller.left) :
    poller.isoSelectFile silentCard fileId = .ok (.none, ⟨poller.data, (), poller.left - 1⟩) := by
  have htx : ([0x00, 0xA4, TYPE_4_TAG_ISO_SELECT_P1_BY_EF_ID, 0x0C, 2] ++
      Type4TagData.num16 fileId.toNat).length ≤ TYPE_4_TAG_BUF_SIZE := by
    rw [num16_eq]
    show 7 ≤ 251
    decide
  unfold isoSelectFile
  dsimp only
  rw [@apduTrx_eq Unit silentCard poller _ [] () htx hleft rfl]
  rfl

theorem readNdef_silent {data : Type4TagData} (hzero : data.chunkMax data.chunkMaxRead = 0) {left : ℕ}
    (hleft : 0 < left) :
    readNdef silentCard ⟨data, (), left⟩ = .error .exhausted := by
  have hread : isoRead silentCard ⟨data, (), left - 1⟩ 0 [0, 0] = .error .exhausted := by
    unfold isoRead
    dsimp only
    rw [hzero, if_neg (by decide)]
    exact isoReadLoop_silent (by decide) (by decide)
  unfold readNdef readFileLen
  rw [isoSelectFile_silent _ _ hleft]
  dsimp only [bind, Except.bind]
  rw [if_neg (fun h => h rfl), hread]

theorem writeNdef_silent {data : Type4TagData} (hzero : data.chunkMax data.chunkMaxWrite = 0) {left : ℕ}
    (hleft : 0 < left) :
    writeNdef silentCard ⟨data, (), left⟩ = .error .exhausted := by
  have htwo : (Type4TagData.num16 (data.ndefData.length % 2 ^ 16)).length = 2 := by
    rw [num16_eq]
    rfl
  have hwrite : isoWrite silentCard ⟨data, (), left - 1⟩ 0
      (Type4TagData.num16 (data.ndefData.length % 2 ^ 16)) = .error .exhausted := by
    unfold isoWrite
    dsimp only
    rw [hzero, htwo, if_neg (by decide)]
    exact isoWriteLoop_silent (by decide) (by rw [htwo])
  unfold writeNdef
  rw [isoSelectFile_silent _ _ hleft]
  dsimp only [bind, Except.bind]
  rw [if_neg (fun h => h rfl), hwrite]

/-! ## A card that is a file of bytes -/

/-- A card with a file of a fixed size that can be selected. What is read or written of the file is
inside of it, at an offset of fifteen bits, and not longer than a piece. -/
structure IsByteFile (send : Type4TagCard σ) (file : σ → List UInt8) (selected : σ → Prop)
    (fileId : UInt16) (mostRead mostWrite : ℕ) : Prop where
  select : ∀ card, ∃ card', send card ([0x00, 0xA4, 0x02, 0x0C, 2] ++ Type4TagData.num16 fileId.toNat) =
    ((.none, [0x90, 0x00]), card') ∧ selected card' ∧ file card' = file card
  read : ∀ card offset count, selected card → offset ≤ TYPE_4_TAG_ISO_READ_P_OFFSET_MAX →
    0 < count → count ≤ mostRead → offset + count ≤ (file card).length →
    ∃ card', send card ([0x00, 0xB0] ++ Type4TagData.num16 offset ++ [UInt8.ofNat count]) =
      ((.none, ((file card).drop offset).take count ++ [0x90, 0x00]), card') ∧
      selected card' ∧ file card' = file card
  update : ∀ card offset (bytes : List UInt8), selected card →
    offset ≤ TYPE_4_TAG_ISO_READ_P_OFFSET_MAX → 0 < bytes.length → bytes.length ≤ mostWrite →
    offset + bytes.length ≤ (file card).length →
    ∃ card', send card ([0x00, 0xD6] ++ Type4TagData.num16 offset ++ [UInt8.ofNat bytes.length] ++ bytes) =
      ((.none, [0x90, 0x00]), card') ∧ selected card' ∧ file card' = overwrite (file card) offset bytes

/-- Every piece begins at an offset of fifteen bits. -/
def OffsetsFit (chunkMax offset length : ℕ) : Prop :=
  ∀ i, i * chunkMax < length → offset + i * chunkMax ≤ TYPE_4_TAG_ISO_READ_P_OFFSET_MAX

theorem OffsetsFit.first {chunkMax offset length : ℕ} (h : OffsetsFit chunkMax offset length)
    (hlength : 0 < length) : offset ≤ TYPE_4_TAG_ISO_READ_P_OFFSET_MAX := by
  have h₀ := h 0 (by omega)
  omega

theorem OffsetsFit.next {chunkMax offset length : ℕ} (h : OffsetsFit chunkMax offset length) :
    OffsetsFit chunkMax (offset + min length chunkMax) (length - min length chunkMax) := by
  intro i hi
  rcases Nat.lt_or_ge length chunkMax with hlt | hge
  · omega
  rw [Nat.min_eq_right hge] at hi ⊢
  have hnext := h (i + 1) (by rw [Nat.succ_mul]; omega)
  rw [Nat.succ_mul] at hnext
  omega

section ByteFile

variable {file : σ → List UInt8} {selected : σ → Prop} {fileId : UInt16} {mostRead mostWrite chunkMax : ℕ}
variable (hcard : IsByteFile send file selected fileId mostRead mostWrite)
include hcard

theorem isoSelectFile_byteFile (hleft : 0 < poller.left) :
    ∃ card, poller.isoSelectFile send fileId = .ok (.none, ⟨poller.data, card, poller.left - 1⟩) ∧
      selected card ∧ file card = file poller.card := by
  obtain ⟨card, hsend, hselected, hfile⟩ := hcard.select poller.card
  have htx : ([0x00, 0xA4, TYPE_4_TAG_ISO_SELECT_P1_BY_EF_ID, 0x0C, 2] ++
      Type4TagData.num16 fileId.toNat).length ≤ TYPE_4_TAG_BUF_SIZE := by
    rw [num16_eq]
    show 7 ≤ 251
    decide
  refine ⟨card, ?_, hselected, hfile⟩
  unfold isoSelectFile
  dsimp only
  rw [@apduTrx_eq σ send poller _ [] card htx hleft hsend]
  rfl

theorem isoReadLoop_byteFile (hpos : 0 < chunkMax) (hmost : chunkMax ≤ mostRead) :
    ∀ {fuel offset length ptr : ℕ} {buffer : List UInt8} {poller : Type4TagPoller σ},
    selected poller.card → OffsetsFit chunkMax offset length →
    offset + length ≤ (file poller.card).length → ptr + length ≤ buffer.length →
    length ≤ fuel → length ≤ poller.left →
    ∃ card left, isoReadLoop send chunkMax fuel offset length ptr buffer poller =
        .ok (.none, overwrite buffer ptr (((file poller.card).drop offset).take length),
          ⟨poller.data, card, left⟩) ∧
      selected card ∧ file card = file poller.card ∧ poller.left ≤ left + length
  | 0, offset, length, ptr, buffer, poller, hselected, _, _, _, hfuel, _ => by
    obtain rfl : length = 0 := by omega
    refine ⟨poller.card, poller.left, ?_, hselected, rfl, le_rfl⟩
    rw [isoReadLoop, if_pos rfl, List.take_zero, overwrite_nil]
  | fuel + 1, offset, length, ptr, buffer, poller, hselected, hoffsets, hin, hbuffer, hfuel, hleft => by
    rcases Nat.eq_zero_or_pos length with rfl | hlength
    · refine ⟨poller.card, poller.left, ?_, hselected, rfl, le_rfl⟩
      rw [isoReadLoop, if_pos rfl, List.take_zero, overwrite_nil]
    have hcount : 0 < min length chunkMax := by omega
    obtain ⟨card, hsend, hselected', hfile⟩ := hcard.read poller.card offset (min length chunkMax)
      hselected (hoffsets.first hlength) hcount (by omega) (by omega)
    have htx : ([0x00, 0xB0] ++ Type4TagData.num16 offset ++
        [UInt8.ofNat (min length chunkMax)]).length ≤ TYPE_4_TAG_BUF_SIZE := by
      rw [length_header]
      decide
    have hpiece : (((file poller.card).drop offset).take (min length chunkMax)).length =
        min length chunkMax := by
      rw [List.length_take, List.length_drop]
      omega
    have hbuffer' : (overwrite buffer ptr
        (((file poller.card).drop offset).take (min length chunkMax))).length = buffer.length := by
      rw [length_overwrite (by omega)]
      omega
    obtain ⟨card', left, hrest, hselected'', hfile', hleft'⟩ := @isoReadLoop_byteFile hpos hmost fuel
      (offset + min length chunkMax) (length - min length chunkMax) (ptr + min length chunkMax)
      (overwrite buffer ptr (((file poller.card).drop offset).take (min length chunkMax)))
      ⟨poller.data, card, poller.left - 1⟩ hselected' hoffsets.next (by dsimp only; rw [hfile]; omega)
      (by rw [hbuffer']; omega) (by omega) (by dsimp only; omega)
    dsimp only at hrest hfile' hleft'
    refine ⟨card', left, ?_, hselected'', hfile'.trans hfile, by omega⟩
    have hjoin : overwrite (overwrite buffer ptr
        (((file poller.card).drop offset).take (min length chunkMax))) (ptr + min length chunkMax)
        (((file poller.card).drop (offset + min length chunkMax)).take (length - min length chunkMax)) =
        overwrite buffer ptr (((file poller.card).drop offset).take length) := by
      have happend := @overwrite_append _ buffer ptr (by omega)
        (((file poller.card).drop offset).take (min length chunkMax))
        (((file poller.card).drop (offset + min length chunkMax)).take (length - min length chunkMax))
      rw [hpiece] at happend
      rw [happend, ← List.drop_drop, ← List.take_add, Nat.add_sub_cancel' (Nat.min_le_left _ _)]
    rw [isoReadLoop, if_neg hlength.ne']
    dsimp only
    rw [apduTrx_eq htx (by omega) hsend]
    dsimp only [bind, Except.bind]
    rw [if_neg (fun h => h rfl), if_neg (not_not.2 hpiece), check_copyTo (by rw [hpiece]; omega)]
    dsimp only
    rw [hrest, hfile, hjoin]

theorem isoWriteLoop_byteFile {buffer : List UInt8} (hpos : 0 < chunkMax) (hmost : chunkMax ≤ mostWrite)
    (hchunk : chunkMax ≤ 246) :
    ∀ {fuel offset length ptr : ℕ} {poller : Type4TagPoller σ},
    selected poller.card → OffsetsFit chunkMax offset length →
    offset + length ≤ (file poller.card).length → ptr + length ≤ buffer.length →
    length ≤ fuel → length ≤ poller.left →
    ∃ card left, isoWriteLoop send chunkMax buffer fuel offset length ptr poller =
        .ok (.none, ⟨poller.data, card, left⟩) ∧
      selected card ∧
      file card = overwrite (file poller.card) offset ((buffer.drop ptr).take length) ∧
      poller.left ≤ left + length
  | 0, offset, length, ptr, poller, hselected, _, _, _, hfuel, _ => by
    obtain rfl : length = 0 := by omega
    refine ⟨poller.card, poller.left, ?_, hselected, ?_, le_rfl⟩
    · rw [isoWriteLoop, if_pos rfl]
    · rw [List.take_zero, overwrite_nil]
  | fuel + 1, offset, length, ptr, poller, hselected, hoffsets, hin, hbuffer, hfuel, hleft => by
    rcases Nat.eq_zero_or_pos length with rfl | hlength
    · refine ⟨poller.card, poller.left, ?_, hselected, ?_, le_rfl⟩
      · rw [isoWriteLoop, if_pos rfl]
      · rw [List.take_zero, overwrite_nil]
    have hpiece : ((buffer.drop ptr).take (min length chunkMax)).length = min length chunkMax := by
      rw [List.length_take, List.length_drop]
      omega
    obtain ⟨card, hsend, hselected', hfile⟩ := hcard.update poller.card offset
      ((buffer.drop ptr).take (min length chunkMax)) hselected (hoffsets.first hlength)
      (by omega) (by omega) (by omega)
    rw [hpiece] at hsend
    have hsize : TYPE_4_TAG_BUF_SIZE = 251 := rfl
    have htx : ([0x00, 0xD6] ++ Type4TagData.num16 offset ++ [UInt8.ofNat (min length chunkMax)] ++
        (buffer.drop ptr).take (min length chunkMax)).length ≤ TYPE_4_TAG_BUF_SIZE := by
      rw [List.length_append, length_header, hpiece]
      omega
    have hlength' : (file card).length = (file poller.card).length := by
      rw [hfile, length_overwrite (by omega)]
      omega
    obtain ⟨card', left, hrest, hselected'', hfile', hleft'⟩ := @isoWriteLoop_byteFile buffer hpos hmost
      hchunk fuel (offset + min length chunkMax) (length - min length chunkMax)
      (ptr + min length chunkMax) ⟨poller.data, card, poller.left - 1⟩ hselected' hoffsets.next
      (by dsimp only; omega) (by omega) (by omega) (by dsimp only; omega)
    dsimp only at hrest hfile' hleft'
    refine ⟨card', left, ?_, hselected'', ?_, by omega⟩
    · rw [isoWriteLoop, if_neg hlength.ne']
      dsimp only
      rw [check_copyFrom (by omega)]
      dsimp only [bind, Except.bind]
      rw [@apduTrx_eq σ send poller _ [] card htx (by omega) hsend]
      dsimp only
      rw [if_neg (show ¬Type4TagError.none = .apduFailed by decide), if_neg (fun h => h rfl), hrest]
    · have happend := @overwrite_append _ (file poller.card) offset (by omega)
        ((buffer.drop ptr).take (min length chunkMax))
        ((buffer.drop (ptr + min length chunkMax)).take (length - min length chunkMax))
      rw [hpiece] at happend
      rw [hfile', hfile, happend, ← List.drop_drop, ← List.take_add,
        Nat.add_sub_cancel' (Nat.min_le_left _ _)]

theorem isoRead_byteFile {offset : ℕ} {buffer : List UInt8}
    (hpos : 0 < poller.data.chunkMax poller.data.chunkMaxRead)
    (hmost : poller.data.chunkMax poller.data.chunkMaxRead ≤ mostRead)
    (hselected : selected poller.card)
    (hend : offset + buffer.length ≤ endMax (poller.data.chunkMax poller.data.chunkMaxRead))
    (hoffsets : OffsetsFit (poller.data.chunkMax poller.data.chunkMaxRead) offset buffer.length)
    (hin : offset + buffer.length ≤ (file poller.card).length) (hleft : buffer.length ≤ poller.left) :
    ∃ card left, poller.isoRead send offset buffer =
        .ok (.none, ((file poller.card).drop offset).take buffer.length, ⟨poller.data, card, left⟩) ∧
      selected card ∧ file card = file poller.card ∧ poller.left ≤ left + buffer.length := by
  have hslice : (((file poller.card).drop offset).take buffer.length).length = buffer.length := by
    rw [List.length_take, List.length_drop]
    omega
  have hall : overwrite buffer 0 (((file poller.card).drop offset).take buffer.length) =
      ((file poller.card).drop offset).take buffer.length := by
    rw [overwrite, List.take_zero, List.nil_append, Nat.zero_add, hslice, List.drop_length,
      List.append_nil]
  rw [isoRead, if_neg (not_lt.2 hend)]
  obtain ⟨card, left, hloop, hrest⟩ := @isoReadLoop_byteFile σ send file selected fileId mostRead
    mostWrite (poller.data.chunkMax poller.data.chunkMaxRead) hcard hpos hmost (poller.left + 1) offset
    buffer.length 0 buffer poller hselected hoffsets hin (Nat.zero_add _).le (by omega) hleft
  rw [hall] at hloop
  exact ⟨card, left, hloop, hrest⟩

theorem isoWrite_byteFile {offset : ℕ} {buffer : List UInt8}
    (hpos : 0 < poller.data.chunkMax poller.data.chunkMaxWrite)
    (hmost : poller.data.chunkMax poller.data.chunkMaxWrite ≤ mostWrite)
    (hselected : selected poller.card)
    (hend : offset + buffer.length ≤ endMax (poller.data.chunkMax poller.data.chunkMaxWrite))
    (hoffsets : OffsetsFit (poller.data.chunkMax poller.data.chunkMaxWrite) offset buffer.length)
    (hin : offset + buffer.length ≤ (file poller.card).length) (hleft : buffer.length ≤ poller.left) :
    ∃ card left, poller.isoWrite send offset buffer = .ok (.none, ⟨poller.data, card, left⟩) ∧
      selected card ∧ file card = overwrite (file poller.card) offset buffer ∧
      poller.left ≤ left + buffer.length := by
  rw [isoWrite, if_neg (not_lt.2 hend)]
  obtain ⟨card, left, hloop, hselected', hfile, hleft'⟩ := @isoWriteLoop_byteFile σ send file selected
    fileId mostRead mostWrite (poller.data.chunkMax poller.data.chunkMaxWrite) hcard buffer hpos hmost
    (chunkMax_le _ _) (poller.left + 1) offset buffer.length 0 poller hselected hoffsets hin
    (Nat.zero_add _).le (by omega) hleft
  rw [List.drop_zero, List.take_length] at hfile
  exact ⟨card, left, hloop, hselected', hfile, hleft'⟩

omit hcard in
theorem length_fits (data : Type4TagData) (chunk : UInt16) :
    0 + 2 ≤ endMax (data.chunkMax chunk) ∧ OffsetsFit (data.chunkMax chunk) 0 2 := by
  have hmax : TYPE_4_TAG_ISO_READ_P_OFFSET_MAX = 32767 := rfl
  exact ⟨by unfold endMax; omega, fun i hi => by omega⟩

/-- A message whose file ends where the poller reads and writes, in pieces at offsets of fifteen bits. -/
structure Supported (chunkMax len : ℕ) : Prop where
  ends : 2 + len ≤ endMax chunkMax
  offsets : OffsetsFit chunkMax 2 len

omit hcard in
theorem Supported.lt {data : Type4TagData} {chunk : UInt16} {len : ℕ}
    (h : Supported (data.chunkMax chunk) len) : len < 2 ^ 16 := by
  have hmax : TYPE_4_TAG_ISO_READ_P_OFFSET_MAX = 32767 := rfl
  have hle := chunkMax_le data chunk
  have hend := h.ends
  unfold endMax at hend
  omega

theorem writeNdef_byteFile (hfileId : poller.data.ndefFileId = fileId)
    (hpos : 0 < poller.data.chunkMax poller.data.chunkMaxWrite)
    (hmost : poller.data.chunkMax poller.data.chunkMaxWrite ≤ mostWrite)
    (hin : 2 + poller.data.ndefData.length ≤ (file poller.card).length)
    (hsupported : Supported (poller.data.chunkMax poller.data.chunkMaxWrite) poller.data.ndefData.length)
    (hleft : 3 + poller.data.ndefData.length ≤ poller.left) :
    ∃ card left, poller.writeNdef send = .ok (.none, ⟨poller.data, card, left⟩) ∧
      file card = overwrite (file poller.card) 0 (ndefFile poller.data.ndefData) := by
  have hlt := hsupported.lt
  have hmod : poller.data.ndefData.length % 2 ^ 16 = poller.data.ndefData.length := Nat.mod_eq_of_lt hlt
  have hnum := num16_eq poller.data.ndefData.length
  have htwo : (Type4TagData.num16 poller.data.ndefData.length).length = 2 := by rw [hnum]; rfl
  have hfile : ndefFile poller.data.ndefData =
      Type4TagData.num16 poller.data.ndefData.length ++ poller.data.ndefData := by
    rw [hnum]
    rfl
  obtain ⟨hend, hoffsets⟩ := length_fits poller.data poller.data.chunkMaxWrite
  obtain ⟨card₁, hselect, hselected₁, hfile₁⟩ :=
    @isoSelectFile_byteFile σ send poller file selected fileId mostRead mostWrite hcard (by omega)
  obtain ⟨card₂, left₂, hlen, hselected₂, hfile₂, hleft₂⟩ := @isoWrite_byteFile σ send
    ⟨poller.data, card₁, poller.left - 1⟩ file selected fileId mostRead mostWrite hcard 0
    (Type4TagData.num16 poller.data.ndefData.length) hpos hmost hselected₁ (by rw [htwo]; exact hend)
    (by rw [htwo]; exact hoffsets) (by dsimp only; rw [hfile₁, htwo]; omega)
    (by dsimp only; rw [htwo]; omega)
  dsimp only at hlen hfile₂ hleft₂
  rw [htwo] at hleft₂
  rw [hfile₁] at hfile₂
  have hlength₂ : (file card₂).length = (file poller.card).length := by
    rw [hfile₂, length_overwrite (Nat.zero_le _), htwo]
    omega
  unfold writeNdef
  rw [hfileId, hselect]
  dsimp only [bind, Except.bind]
  rw [if_neg (fun h => h rfl), hmod, hlen]
  dsimp only
  rw [if_neg (fun h => h rfl)]
  rcases Nat.eq_zero_or_pos poller.data.ndefData.length with hzero | hmessage
  · have hnil := List.eq_nil_of_length_eq_zero hzero
    refine ⟨card₂, left₂, ?_, ?_⟩
    · rw [if_pos hzero]
      rfl
    · rw [hfile₂, hfile, hnil, List.append_nil]
  · obtain ⟨card₃, left₃, hwrite, -, hfile₃, -⟩ := @isoWrite_byteFile σ send
      ⟨poller.data, card₂, left₂⟩ file selected fileId mostRead mostWrite hcard 2 poller.data.ndefData
      hpos hmost hselected₂ hsupported.ends hsupported.offsets (by dsimp only; omega)
      (by dsimp only; omega)
    have happend := @overwrite_append _ (file poller.card) 0 (Nat.zero_le _)
      (Type4TagData.num16 poller.data.ndefData.length) poller.data.ndefData
    rw [htwo, Nat.zero_add] at happend
    refine ⟨card₃, left₃, ?_, ?_⟩
    · rw [if_neg hmessage.ne', List.take_length]
      exact hwrite
    · rw [hfile₃]
      dsimp only
      rw [hfile₂, happend, hfile]

theorem readNdef_byteFile {message rest : List UInt8} (hfileId : poller.data.ndefFileId = fileId)
    (hpos : 0 < poller.data.chunkMax poller.data.chunkMaxRead)
    (hmost : poller.data.chunkMax poller.data.chunkMaxRead ≤ mostRead)
    (hfile : file poller.card = ndefFile message ++ rest)
    (hsupported : Supported (poller.data.chunkMax poller.data.chunkMaxRead) message.length)
    (hleft : 3 + message.length ≤ poller.left) (hfresh : poller.data.ndefData = []) :
    ∃ after, poller.readNdef send = .ok (.none, after) ∧ after.data.ndefData = message := by
  have hlt := hsupported.lt
  have hlength : (file poller.card).length = 2 + message.length + rest.length := by
    rw [hfile, List.length_append, length_ndefFile]
  obtain ⟨hend, hoffsets⟩ := length_fits poller.data poller.data.chunkMaxRead
  obtain ⟨card₁, hselect, hselected₁, hfile₁⟩ :=
    @isoSelectFile_byteFile σ send poller file selected fileId mostRead mostWrite hcard (by omega)
  obtain ⟨card₂, left₂, hlen, hselected₂, hfile₂, hleft₂⟩ := @isoRead_byteFile σ send
    ⟨poller.data, card₁, poller.left - 1⟩ file selected fileId mostRead mostWrite hcard 0 [0, 0]
    hpos hmost hselected₁ hend hoffsets (by dsimp only; rw [hfile₁, hlength]; simp; omega)
    (by dsimp only; simp; omega)
  dsimp only at hlen hfile₂ hleft₂
  have hnum : (bitLibBytesToNumBe (((file card₁).drop 0).take ([0, 0] : List UInt8).length)).toNat =
      message.length := by
    rw [hfile₁, hfile]
    show (bitLibBytesToNumBe [UInt8.ofNat (message.length / 256), UInt8.ofNat message.length]).toNat = _
    rw [toNat_bytesToNumBe_two, uint16Be, UInt8.toNat_ofNat', UInt8.toNat_ofNat']
    omega
  have hleft₂' : poller.left - 1 ≤ left₂ + 2 := hleft₂
  unfold readNdef readFileLen
  rw [hfileId, hselect]
  dsimp only [bind, Except.bind]
  rw [if_neg (fun h => h rfl), hlen]
  dsimp only [pure, Except.pure]
  rw [if_neg (fun h => h rfl), hnum]
  rcases Nat.eq_zero_or_pos message.length with hzero | hmessage
  · rw [if_pos hzero]
    exact ⟨_, rfl, hfresh.trans (List.eq_nil_of_length_eq_zero hzero).symm⟩
  · obtain ⟨card₃, left₃, hread, -⟩ := @isoRead_byteFile σ send ⟨poller.data, card₂, left₂⟩ file selected
      fileId mostRead mostWrite hcard 2 (List.replicate message.length 0) hpos hmost hselected₂
      (by rw [List.length_replicate]; exact hsupported.ends)
      (by rw [List.length_replicate]; exact hsupported.offsets)
      (by rw [List.length_replicate]; dsimp only; rw [hfile₂, hfile₁]; omega)
      (by rw [List.length_replicate]; dsimp only; omega)
    rw [if_neg hmessage.ne', hread]
    refine ⟨_, rfl, ?_⟩
    show ((file card₂).drop 2).take (List.replicate message.length (0 : UInt8)).length = message
    rw [List.length_replicate, hfile₂, hfile₁, hfile]
    exact List.take_left

end ByteFile

/-! ## Transfers -/

/-- What is read and written with these data goes over whole. No more is stored than there is room
for, whatever a card answers; the exchanges end, and there are three for the beginning of a file and
at most one for each byte of what follows; and what has been written to a file of bytes is read from
it. -/
structure Transfers (data : Type4TagData) : Prop where
  bounded : ∀ {σ : Type} (send : Type4TagCard σ) (card : σ) (behind : ℕ → UInt8) (left : ℕ) (fault),
    readCc send ⟨data, card, left⟩ behind ≠ .error (.fault fault) ∧
      readNdef send ⟨data, card, left⟩ ≠ .error (.fault fault) ∧
      writeNdef send ⟨data, card, left⟩ ≠ .error (.fault fault)
  readEnds : ∀ {σ : Type} (send : Type4TagCard σ) (card : σ) (behind : ℕ → UInt8) (left : ℕ),
    3 + 2 ^ 16 ≤ left →
    (∃ error after, readCc send ⟨data, card, left⟩ behind = .ok (error, after) ∧
      Used ⟨data, card, left⟩ send TYPE_4_TAG_T4T_CC_EF_ID after) ∧
    ∃ error after, readNdef send ⟨data, card, left⟩ = .ok (error, after) ∧
      Used ⟨data, card, left⟩ send data.ndefFileId after
  writeEnds : ∀ {σ : Type} (send : Type4TagCard σ) (card : σ) (left : ℕ),
    3 + data.ndefData.length ≤ left →
    ∃ error after, writeNdef send ⟨data, card, left⟩ = .ok (error, after) ∧
      left ≤ after.left + 3 + data.ndefData.length
  roundTrip : ∀ {σ : Type} (send : Type4TagCard σ) (file : σ → List UInt8) (selected : σ → Prop)
    (mostRead mostWrite : ℕ) (card : σ) (fresh : Type4TagData) (left left' : ℕ),
    IsByteFile send file selected data.ndefFileId mostRead mostWrite →
    2 + data.ndefData.length ≤ (file card).length →
    0 < data.chunkMax data.chunkMaxWrite → data.chunkMax data.chunkMaxWrite ≤ mostWrite →
    0 < fresh.chunkMax fresh.chunkMaxRead → fresh.chunkMax fresh.chunkMaxRead ≤ mostRead →
    Supported (data.chunkMax data.chunkMaxWrite) data.ndefData.length →
    Supported (fresh.chunkMax fresh.chunkMaxRead) data.ndefData.length →
    3 + data.ndefData.length ≤ left → 3 + data.ndefData.length ≤ left' →
    fresh.ndefFileId = data.ndefFileId → fresh.ndefData = [] →
    ∃ written read, writeNdef send ⟨data, card, left⟩ = .ok (.none, written) ∧
      readNdef send ⟨fresh, written.card, left'⟩ = .ok (.none, read) ∧
      read.data.ndefData = data.ndefData

theorem ne_fault_of_yields {α : Type} {P : α → Prop} {Q : Prop} {r : Except Type4TagPollerStop α}
    (h : Yields P (fun stop => stop = .exhausted ∧ Q) r) (fault : Type4TagFault) :
    r ≠ .error (.fault fault) := by
  rintro rfl
  cases h.1

theorem exists_ok_of_yields {α : Type} {P : α → Prop} {Q : Prop} {r : Except Type4TagPollerStop α}
    (h : Yields P (fun stop => stop = .exhausted ∧ Q) r) (hQ : ¬Q) : ∃ a, r = .ok a ∧ P a := by
  rcases r with stop | a
  · exact absurd h.2 hQ
  · exact ⟨a, rfl, h⟩

theorem roundTrip_byteFile {data fresh : Type4TagData} {file : σ → List UInt8} {selected : σ → Prop}
    {mostRead mostWrite : ℕ} {card : σ} {left left' : ℕ}
    (hcard : IsByteFile send file selected data.ndefFileId mostRead mostWrite)
    (hin : 2 + data.ndefData.length ≤ (file card).length)
    (hwrite : 0 < data.chunkMax data.chunkMaxWrite) (hmostWrite : data.chunkMax data.chunkMaxWrite ≤ mostWrite)
    (hread : 0 < fresh.chunkMax fresh.chunkMaxRead) (hmostRead : fresh.chunkMax fresh.chunkMaxRead ≤ mostRead)
    (hsupported : Supported (data.chunkMax data.chunkMaxWrite) data.ndefData.length)
    (hsupported' : Supported (fresh.chunkMax fresh.chunkMaxRead) data.ndefData.length)
    (hleft : 3 + data.ndefData.length ≤ left) (hleft' : 3 + data.ndefData.length ≤ left')
    (hfileId : fresh.ndefFileId = data.ndefFileId) (hfresh : fresh.ndefData = []) :
    ∃ written read, writeNdef send ⟨data, card, left⟩ = .ok (.none, written) ∧
      readNdef send ⟨fresh, written.card, left'⟩ = .ok (.none, read) ∧
      read.data.ndefData = data.ndefData := by
  obtain ⟨card', left₁, hwritten, hfile⟩ := @writeNdef_byteFile σ send ⟨data, card, left⟩ file selected
    data.ndefFileId mostRead mostWrite hcard rfl hwrite hmostWrite hin hsupported hleft
  have hbegins : file card' = ndefFile data.ndefData ++
      (file card).drop (ndefFile data.ndefData).length := by
    rw [hfile, overwrite, List.take_zero, List.nil_append, Nat.zero_add]
  obtain ⟨after, hok, hmessage⟩ := @readNdef_byteFile σ send ⟨fresh, card', left'⟩ file selected
    data.ndefFileId mostRead mostWrite hcard _ _ hfileId hread hmostRead hbegins hsupported' hleft' hfresh
  exact ⟨_, after, hwritten, hok, hmessage⟩

/-- Messages go over whole just if a piece has any bytes. -/
theorem transfers_iff (data : Type4TagData) :
    Transfers data ↔
      0 < data.chunkMax data.chunkMaxRead ∧ 0 < data.chunkMax data.chunkMaxWrite := by
  constructor
  · intro h
    constructor
    · refine Nat.pos_of_ne_zero fun hzero => ?_
      obtain ⟨-, error, after, hok, -⟩ := h.readEnds silentCard () (fun _ => 0) (3 + 2 ^ 16) le_rfl
      rw [readNdef_silent hzero (by decide)] at hok
      cases hok
    · refine Nat.pos_of_ne_zero fun hzero => ?_
      obtain ⟨error, after, hok, -⟩ := h.writeEnds silentCard () (3 + data.ndefData.length) le_rfl
      rw [writeNdef_silent hzero (by omega)] at hok
      cases hok
  · rintro ⟨hread, hwrite⟩
    refine ⟨fun send card behind left fault => ⟨ne_fault_of_yields (readCc_yields behind) fault,
      ne_fault_of_yields readNdef_yields fault, ne_fault_of_yields writeNdef_yields fault⟩,
      fun send card behind left hleft => ⟨?_, ?_⟩, fun send card left hleft => ?_,
      fun _ _ _ _ _ _ _ _ _ => roundTrip_byteFile⟩
    · obtain ⟨⟨error, after⟩, hok, hused⟩ := exists_ok_of_yields
        (@readCc_yields _ send ⟨data, card, left⟩ behind) fun h => absurd (h hread) (not_lt.2 hleft)
      exact ⟨error, after, hok, hused hread⟩
    · obtain ⟨⟨error, after⟩, hok, hused⟩ := exists_ok_of_yields
        (@readNdef_yields _ send ⟨data, card, left⟩) fun h => absurd (h hread) (not_lt.2 hleft)
      exact ⟨error, after, hok, hused hread⟩
    · obtain ⟨⟨error, after⟩, hok, hused⟩ := exists_ok_of_yields
        (@writeNdef_yields _ send ⟨data, card, left⟩) fun h => absurd (h hwrite) (not_lt.2 hleft)
      exact ⟨error, after, hok, hused hwrite⟩

/-- A container that states that the card sends nothing at once. -/
def zeroReadCc : List UInt8 := [0, 15, 0x20, 0, 0, 0, 0xF6, 0x04, 6, 0xE1, 0x04, 0x08, 0x00, 0, 0]

/-- The data of the poller when it has read that container. -/
def zeroReadData : Type4TagData :=
  { (Type4TagListener.emptyTag.ccParse zeroReadCc fun _ => 0).2 with isTagSpecific := true }

theorem chunkMax_zeroReadData : zeroReadData.chunkMax zeroReadData.chunkMaxRead = 0 := by
  have hfind : Type4TagData.findNdefFileCtrl (Type4TagData.rawByte zeroReadCc fun _ => 0) 15 7 = some 7 := by
    rw [Type4TagData.findNdefFileCtrl, if_pos (by decide), if_pos (by decide)]
  have hparse : Type4TagListener.emptyTag.ccParse zeroReadCc (fun _ => 0) = (.none,
      { Type4TagListener.emptyTag with
        t4tVersion := 0x20, chunkMaxRead := 0, chunkMaxWrite := 0xF6, ndefFileId := 0xE104
        ndefMaxLen := 0x7FE, ndefReadLock := 0, ndefWriteLock := 0 }) := by
    rw [Type4TagData.ccParse, if_neg (by decide)]
    dsimp only
    rw [if_neg (by decide), show min (uint16Be (Type4TagData.rawByte zeroReadCc (fun _ => 0) 1)
      (Type4TagData.rawByte zeroReadCc (fun _ => 0) 0)) zeroReadCc.length = 15 by decide, hfind]
    rfl
  rw [zeroReadData, hparse]
  rfl

/-- A card that has stated that it sends nothing at once is read forever. -/
theorem not_transfers_zeroRead : ¬∀ data, Transfers data := by
  intro h
  obtain ⟨-, error, after, hok, -⟩ :=
    (h zeroReadData).readEnds silentCard () (fun _ => 0) (3 + 2 ^ 16) le_rfl
  rw [readNdef_silent chunkMax_zeroReadData (by decide)] at hok
  cases hok

/-! ## A card that is a file of bytes -/

end Type4TagPoller

end KiisuFirmware
