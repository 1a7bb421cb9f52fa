import KiisuFirmware.MfClassicListener
import KiisuFirmware.Proofs.BitBuffer
import KiisuFirmware.Proofs.MfClassic

/-!
# What a reader can do to an emulated card

Whatever a reader sends, a frame changes one block at most, of the sector the reader has
authenticated itself for, as the access bits of that block grant it (`Confined`). The transfer of a
value is different: its handler looks at the access bits alone, so that it has to be a block of
that sector, and not the first of the card, that is transferred to (`TransferOk`).
-/

namespace KiisuFirmware

namespace MfClassicListener

variable {κ : Type} {crypto1 : Crypto1 κ}

/-- The reader has authenticated itself for the sector of this block. -/
def Authenticated (l : MfClassicListener κ) (blockNum : UInt8) : Prop :=
  l.state = .authComplete ∧
    mfClassicGetSectorByBlock blockNum = mfClassicGetSectorByBlock l.authContext.blockNum

/-- The access bits let a block become this one: of a trailer no more is changed than may be, and
another block is written, or a value is transferred to it. -/
def Granted (data : MfClassicData) (blockNum : UInt8) (keyType : MfClassicKeyType)
    (block : MfClassicBlock) : Prop :=
  let allowed action := data.isAllowedAccess blockNum keyType action = some true
  if mfClassicIsSectorTrailer blockNum then
    (block.keyA = (data.block blockNum).keyA ∨ allowed .keyAWrite) ∧
    (block.keyB = (data.block blockNum).keyB ∨ allowed .keyBWrite) ∧
    (block.accessBits = (data.block blockNum).accessBits ∨ allowed .acWrite)
  else allowed .dataWrite ∨
    (allowed .dataDec ∧ ∃ value, block = mfClassicValueToBlock value blockNum)

/-- The access bits let a block be shown like this: of a trailer what may not be read is blank. -/
def Shown (data : MfClassicData) (blockNum : UInt8) (keyType : MfClassicKeyType)
    (block : MfClassicBlock) : Prop :=
  let field (action : MfClassicAction) (shown kept : List UInt8) :=
    shown = if data.isAllowedAccess blockNum keyType action = some true then kept
      else List.replicate kept.length 0
  let old := data.block blockNum
  if mfClassicIsSectorTrailer blockNum then
    field .keyARead block.keyA old.keyA ∧ field .keyBRead block.keyB old.keyB ∧
      field .acRead block.accessBits old.accessBits
  else data.isAllowedAccess blockNum keyType .dataRead = some true ∧ block = old

/-- What becomes of the memory, and what is sent, is what the reader is allowed; there is no other
way to an authentication than its answer. -/
structure Confined (l l' : MfClassicListener κ) : Prop where
  memory : l'.data = l.data ∨ ∃ blockNum block, Authenticated l blockNum ∧
    blockNum.toNat < mfClassicGetTotalBlockNum l.data.type ∧ blockNum ≠ 0 ∧
    Granted l.data blockNum l.authContext.keyType block ∧ l'.data = l.data.setBlock blockNum block
  replies : ∃ replies, l'.sent = l.sent ++ replies ∧
    (∀ data, .block data ∈ replies → ∃ blockNum block crc, Authenticated l blockNum ∧
      Shown l.data blockNum l.authContext.keyType block ∧ data = block.toList ++ crc ∧
      crc.length = ISO14443_CRC_SIZE) ∧
    (l'.state = .authComplete → (l.state = .authComplete ∧
      l'.authContext.blockNum = l.authContext.blockNum ∧
      l'.authContext.keyType = l.authContext.keyType) ∨ ∃ at', .answer at' ∈ replies)

/-- A transfer the access bits grant is not for the first block of the card, and not for another
sector than the one the reader has authenticated itself for. -/
def TransferOk (crypto1 : Crypto1 κ) (l : MfClassicListener κ) : Event → Prop
  | .received buffer _ => l.cmdInProgress = true → l.currentCmdHandlerIdx = 2 →
    ∀ rx l', l.receive crypto1 buffer = some (rx, l') → rx.sizeBytes = 2 →
      rx.getByte 0 = some MF_CLASSIC_CMD_VALUE_TRANSFER → ∀ blockNum, rx.getByte 1 = some blockNum →
      l.data.isAllowedAccess blockNum l.authContext.keyType .dataDec = some true →
      blockNum ≠ 0 ∧
        mfClassicGetSectorByBlock blockNum = mfClassicGetSectorByBlock l.authContext.blockNum
  | _ => True

/-- The command that is in progress, and what is known for its next handler. -/
def Pending (l : MfClassicListener κ) : Prop :=
  ((l.currentCmdIdx = 2 ∨ l.currentCmdIdx = 3) ∧ l.currentCmdHandlerIdx = 1 ∧
    l.authContext.blockNum.toNat < l.totalBlockNum) ∨
  (l.currentCmdIdx = 5 ∧ l.currentCmdHandlerIdx = 1 ∧ Authenticated l l.writeBlock ∧
    l.writeBlock.toNat < l.totalBlockNum ∧ l.writeBlock ≠ 0) ∨
  ((l.currentCmdIdx = 6 ∨ l.currentCmdIdx = 7 ∨ l.currentCmdIdx = 8) ∧
    (l.currentCmdHandlerIdx = 1 ∨ l.currentCmdHandlerIdx = 2) ∧ l.state = .authComplete)

structure Inv (l : MfClassicListener κ) : Prop where
  total : l.totalBlockNum = mfClassicGetTotalBlockNum l.data.type
  authenticated : l.state = .authComplete → l.authContext.blockNum.toNat < l.totalBlockNum
  pending : l.cmdInProgress = true → Pending l

/-- What a handler leaves; after a nack and before a sleep the listener is reset. -/
structure Handled (l : MfClassicListener κ) (command : MfClassicListenerCommand)
    (l' : MfClassicListener κ) : Prop where
  confined : Confined l l'
  total : l'.totalBlockNum = mfClassicGetTotalBlockNum l'.data.type
  inv : command ≠ .nack → command ≠ .sleep → Inv l'

variable {l l' : MfClassicListener κ} {buff : BitBuffer} {random : UInt32}
  {command : MfClassicListenerCommand}

/-! ## What is shown and what is granted -/

theorem keyA_writeIf {received : List UInt8} (h : received.length = 6) (allowed : Bool)
    (block : MfClassicBlock) :
    (writeIf allowed block 0 received).keyA = if allowed then received else block.keyA := by
  cases allowed with
  | true => exact block.keyA_copy h
  | false => rfl

theorem keyA_writeIf_above {received : List UInt8} {start : ℕ} (h : start + received.length ≤ 16)
    (hstart : 6 ≤ start) (allowed : Bool) (block : MfClassicBlock) :
    (writeIf allowed block start received).keyA = block.keyA := by
  cases allowed with
  | true => exact block.keyA_copy_above h hstart
  | false => rfl

theorem accessBits_writeIf {received : List UInt8} (h : received.length = 4) (allowed : Bool)
    (block : MfClassicBlock) : (writeIf allowed block 6 received).accessBits =
      if allowed then received else block.accessBits := by
  cases allowed with
  | true => exact block.accessBits_copy h
  | false => rfl

theorem accessBits_writeIf_keys {receivedA receivedB : List UInt8} (hA : receivedA.length = 6)
    (hB : receivedB.length = 6) (allowedA allowedB : Bool) (block : MfClassicBlock) :
    (writeIf allowedB (writeIf allowedA block 0 receivedA) 10 receivedB).accessBits =
      block.accessBits := by
  have hbelow : (writeIf allowedA block 0 receivedA).accessBits = block.accessBits := by
    cases allowedA with
    | true => exact block.accessBits_copy_below (by omega)
    | false => rfl
  cases allowedB with
  | true => exact (MfClassicBlock.accessBits_copy_above _ (by omega) (by omega)).trans hbelow
  | false => exact hbelow

theorem keyB_writeIf {received : List UInt8} (h : received.length = 6) (allowed : Bool)
    (block : MfClassicBlock) :
    (writeIf allowed block 10 received).keyB = if allowed then received else block.keyB := by
  cases allowed with
  | true => exact block.keyB_copy h
  | false => rfl

theorem keyB_writeIf_below {received : List UInt8} {start : ℕ} (h : start + received.length ≤ 10)
    (allowed : Bool) (block : MfClassicBlock) :
    (writeIf allowed block start received).keyB = block.keyB := by
  cases allowed with
  | true => exact block.keyB_copy_below h
  | false => rfl

/-- A trailer after its fields were written where they may be. -/
def writeFields (keyA keyB ac : Bool) (block : MfClassicBlock)
    (receivedA receivedB receivedAC : List UInt8) : MfClassicBlock :=
  writeIf ac (writeIf keyB (writeIf keyA block 0 receivedA) 10 receivedB) 6 receivedAC

section Fields

variable {receivedA receivedB receivedAC : List UInt8} (hA : receivedA.length = 6)
  (hB : receivedB.length = 6) (hAC : receivedAC.length = 4) (keyA keyB ac : Bool)
  (block : MfClassicBlock)

include hA hB hAC

theorem keyA_writeFields : (writeFields keyA keyB ac block receivedA receivedB receivedAC).keyA =
    if keyA then receivedA else block.keyA := by
  rw [writeFields, keyA_writeIf_above (by omega) (by omega),
    keyA_writeIf_above (by omega) (by omega), keyA_writeIf hA]

theorem keyB_writeFields : (writeFields keyA keyB ac block receivedA receivedB receivedAC).keyB =
    if keyB then receivedB else block.keyB := by
  rw [writeFields, keyB_writeIf_below (by omega), keyB_writeIf hB, keyB_writeIf_below (by omega)]

theorem accessBits_writeFields :
    (writeFields keyA keyB ac block receivedA receivedB receivedAC).accessBits =
      if ac then receivedAC else block.accessBits := by
  rw [writeFields, accessBits_writeIf hAC, accessBits_writeIf_keys hA hB]

end Fields

theorem maskUnless_eq (allowed : Bool) (block : MfClassicBlock) (start size : ℕ) :
    maskUnless allowed block start size =
      writeIf (!allowed) block start (List.replicate size 0) := by
  cases allowed with
  | true => rfl
  | false => rfl

theorem shown_of_readable {data : MfClassicData} {blockNum : UInt8} {keyType : MfClassicKeyType}
    {block : MfClassicBlock} (h : readableBlock data blockNum keyType = some (some block)) :
    Shown data blockNum keyType block := by
  unfold readableBlock at h
  unfold Shown
  dsimp only at h ⊢
  by_cases htrailer : mfClassicIsSectorTrailer blockNum = true
  · simp only [htrailer, if_true, Option.bind_eq_bind, Option.bind_eq_some_iff, Option.pure_def,
      Option.some.injEq] at h ⊢
    obtain ⟨keyA, hkeyA, keyB, hkeyB, ac, hac, rfl⟩ := h
    rw [hkeyA, hkeyB, hac, MfClassicBlock.length_keyA, MfClassicBlock.length_keyB,
      MfClassicBlock.length_accessBits, maskUnless_eq, maskUnless_eq, maskUnless_eq]
    have hkey : (List.replicate MF_CLASSIC_KEY_SIZE (0 : UInt8)).length = 6 :=
      List.length_replicate
    have hbits : (List.replicate MF_CLASSIC_ACCESS_BYTES_SIZE (0 : UInt8)).length = 4 :=
      List.length_replicate
    refine ⟨(keyA_writeFields hkey hkey hbits _ _ _ _).trans ?_,
      (keyB_writeFields hkey hkey hbits _ _ _ _).trans ?_,
      (accessBits_writeFields hkey hkey hbits _ _ _ _).trans ?_⟩
    · cases keyA <;> rfl
    · cases keyB <;> rfl
    · cases ac <;> rfl
  · simp only [htrailer, Bool.false_eq_true, if_false, Option.bind_eq_bind,
      Option.bind_eq_some_iff, Option.pure_def, Option.some.injEq] at h ⊢
    obtain ⟨allowed, hallowed, hblock⟩ := h
    split_ifs at hblock with hread
    cases hblock
    rw [hallowed, hread]
    exact ⟨rfl, rfl⟩

theorem granted_of_written {data : MfClassicData} {blockNum : UInt8} {keyType : MfClassicKeyType}
    {block : MfClassicBlock} (h : writtenBlock buff data blockNum keyType = some (some block)) :
    Granted data blockNum keyType block := by
  unfold writtenBlock at h
  unfold Granted
  dsimp only at h ⊢
  by_cases htrailer : mfClassicIsSectorTrailer blockNum = true
  · simp only [htrailer, if_true, Option.bind_eq_bind, Option.bind_eq_some_iff] at h ⊢
    obtain ⟨keyA, hkeyA, keyB, hkeyB, ac, hac, h⟩ := h
    split_ifs at h with hnone
    · cases h
    · simp only [Option.bind_eq_some_iff, Option.pure_def, Option.some.injEq] at h
      obtain ⟨receivedA, hA, receivedB, hB, receivedAC, hAC, rfl⟩ := h
      replace hA := BitBuffer.length_writeBytesMid hA
      replace hB := BitBuffer.length_writeBytesMid hB
      replace hAC := BitBuffer.length_writeBytesMid hAC
      rw [hkeyA, hkeyB, hac]
      refine ⟨?_, ?_, ?_⟩
      · cases keyA with
        | true => exact .inr rfl
        | false => exact .inl (keyA_writeFields hA hB hAC _ _ _ _)
      · cases keyB with
        | true => exact .inr rfl
        | false => exact .inl (keyB_writeFields hA hB hAC _ _ _ _)
      · cases ac with
        | true => exact .inr rfl
        | false => exact .inl (accessBits_writeFields hA hB hAC _ _ _ _)
  · simp only [htrailer, Bool.false_eq_true, if_false, Option.bind_eq_bind,
      Option.bind_eq_some_iff, Option.pure_def, Option.some.injEq] at h ⊢
    obtain ⟨allowed, hallowed, received, hreceived, hblock⟩ := h
    split_ifs at hblock with hwrite
    rw [hallowed, hwrite]
    exact .inl rfl

/-! ## What handlers do -/

theorem Confined.of_quiet (hdata : l'.data = l.data) (hsent : l'.sent = l.sent)
    (hstate : l'.state = .authComplete → l.state = .authComplete ∧
      l'.authContext.blockNum = l.authContext.blockNum ∧
      l'.authContext.keyType = l.authContext.keyType) : Confined l l' where
  memory := .inl hdata
  replies := ⟨[], by rw [hsent, List.append_nil], nofun, fun h => .inl (hstate h)⟩

theorem Handled.refuse (h : Inv l) (hcommand : command = .nack ∨ command = .sleep)
    (hdata : l'.data = l.data) (htotal : l'.totalBlockNum = l.totalBlockNum)
    (hsent : l'.sent = l.sent) (hstate : l'.state = .authComplete → l.state = .authComplete ∧
      l'.authContext.blockNum = l.authContext.blockNum ∧
      l'.authContext.keyType = l.authContext.keyType) : Handled l command l' where
  confined := .of_quiet hdata hsent hstate
  total := by rw [htotal, h.total, hdata]
  inv hnack hsleep := absurd hcommand (not_or.2 ⟨hnack, hsleep⟩)

theorem Handled.nack (h : Inv l) : Handled l .nack l :=
  .refuse h (.inl rfl) rfl rfl rfl fun hstate => ⟨hstate, rfl, rfl⟩

theorem haltHandler_handled (h : Inv l)
    (hrun : haltHandler random l buff = some (command, l')) : Handled l command l' := by
  unfold haltHandler at hrun
  simp only [Option.bind_eq_bind, Option.bind_eq_some_iff, Option.pure_def, Option.some.injEq,
    Prod.mk.injEq] at hrun
  obtain ⟨byte, -, hcommand, rfl⟩ := hrun
  refine .refuse h ?_ rfl rfl rfl fun hstate => ⟨hstate, rfl, rfl⟩
  split_ifs at hcommand
  · exact .inr hcommand.symm
  · exact .inl hcommand.symm

theorem sendNonce_frame {keyNum : UInt64} (h : l.sendNonce crypto1 random keyNum = some l') :
    ∃ crypto txPlainBuffer txEncryptedBuffer, l' = { l with
      crypto := crypto
      txPlainBuffer := txPlainBuffer
      txEncryptedBuffer := txEncryptedBuffer } := by
  unfold sendNonce at h
  dsimp only at h
  simp only [Option.bind_eq_bind, Option.pure_def] at h
  split_ifs at h
  · simp only [Option.bind_eq_some_iff, Option.some.injEq] at h
    obtain ⟨_, _, rfl⟩ := h
    exact ⟨_, l.txPlainBuffer, _, rfl⟩
  · simp only [Option.bind_eq_some_iff, Option.some.injEq] at h
    obtain ⟨_, _, _, _, rfl⟩ := h
    exact ⟨_, _, _, rfl⟩

theorem encryptPlain_frame (h : l.encryptPlain crypto1 = some l') :
    ∃ crypto txEncryptedBuffer, l' = { l with
      crypto := crypto
      txEncryptedBuffer := txEncryptedBuffer } := by
  unfold encryptPlain at h
  simp only [Option.bind_eq_bind, Option.bind_eq_some_iff, Option.pure_def,
    Option.some.injEq] at h
  obtain ⟨_, _, rfl⟩ := h
  exact ⟨_, _, rfl⟩

theorem authFirstPart_handled {keyType : MfClassicKeyType} {blockNum : UInt8} (h : Inv l)
    (hidx : (l.currentCmdIdx = 2 ∨ l.currentCmdIdx = 3) ∧ l.currentCmdHandlerIdx = 0)
    (hrun : l.authFirstPartHandler crypto1 random keyType blockNum = some (command, l')) :
    Handled l command l' := by
  unfold authFirstPartHandler at hrun
  dsimp only at hrun
  split_ifs at hrun with htotal
  · cases hrun
    exact .refuse h (.inl rfl) rfl rfl rfl nofun
  · simp only [Option.bind_eq_bind, Option.bind_eq_some_iff, Option.pure_def, Option.some.injEq,
      Prod.mk.injEq] at hrun
    obtain ⟨secTr, -, l₁, hsend, rfl, rfl⟩ := hrun
    obtain ⟨_, _, _, rfl⟩ := sendNonce_frame hsend
    refine ⟨⟨.inl rfl, [.nonce random], rfl, ?_, nofun⟩, h.total, fun _ _ => ⟨h.total, nofun, ?_⟩⟩
    · intro data hdata
      cases List.mem_singleton.1 hdata
    · intro _
      refine .inl ⟨hidx.1, ?_, not_le.1 htotal⟩
      show l.currentCmdHandlerIdx + 1 = 1
      rw [hidx.2]

theorem authSecondPart_handled (h : Inv l) (hblock : l.authContext.blockNum.toNat < l.totalBlockNum)
    (hrun : authSecondPartHandler crypto1 random l buff = some (command, l')) :
    Handled l command l' := by
  unfold authSecondPartHandler at hrun
  dsimp only at hrun
  split_ifs at hrun with hsize
  · cases hrun
    exact .refuse h (.inr rfl) rfl rfl rfl fun hstate => ⟨hstate, rfl, rfl⟩
  · simp only [Option.bind_eq_bind, Option.bind_eq_some_iff] at hrun
    obtain ⟨nr, -, ar, -, hrun⟩ := hrun
    split_ifs at hrun with hanswer
    · cases hrun
      exact .refuse h (.inr rfl) rfl rfl rfl fun hstate => ⟨hstate, rfl, rfl⟩
    · simp only [Option.bind_eq_some_iff, Option.pure_def, Option.some.injEq,
        Prod.mk.injEq] at hrun
      obtain ⟨txPlainBuffer, -, l₁, hencrypt, rfl, rfl⟩ := hrun
      obtain ⟨_, _, rfl⟩ := encryptPlain_frame hencrypt
      refine ⟨⟨.inl rfl, [_], rfl, ?_, fun _ => .inr ⟨_, List.mem_singleton_self _⟩⟩, h.total,
        fun _ _ => ⟨h.total, fun _ => hblock, nofun⟩⟩
      intro data hdata
      cases List.mem_singleton.1 hdata

theorem readBlock_handled (h : Inv l)
    (hrun : readBlockHandler crypto1 random l buff = some (command, l')) :
    Handled l command l' := by
  unfold readBlockHandler at hrun
  simp only [Option.bind_eq_bind, Option.pure_def] at hrun
  split_ifs at hrun with hstate
  · cases hrun
    exact .nack h
  · obtain ⟨blockNum, -, hrun⟩ := Option.bind_eq_some_iff.1 hrun
    split_ifs at hrun with hsector
    · cases hrun
      exact .nack h
    · obtain ⟨readable, hreadable, hrun⟩ := Option.bind_eq_some_iff.1 hrun
      cases readable with
      | none =>
        cases hrun
        exact .nack h
      | some block =>
        simp only [Option.bind_eq_some_iff, Option.some.injEq, Prod.mk.injEq] at hrun
        obtain ⟨tx₁, hcopy, tx₂, hcrc, l₁, hencrypt, rfl, rfl⟩ := hrun
        obtain ⟨_, _, rfl⟩ := encryptPlain_frame hencrypt
        obtain ⟨crc, hbytes, hlen⟩ := bytes_crcAppend hcrc
        rw [BitBuffer.bytes_copyBytes hcopy] at hbytes
        refine ⟨⟨.inl rfl, [_], rfl, ?_, fun hstate => .inl ⟨hstate, rfl, rfl⟩⟩, h.total,
          fun _ _ => ⟨h.total, h.authenticated, h.pending⟩⟩
        intro data hdata
        cases List.mem_singleton.1 hdata
        exact ⟨blockNum, block, crc, ⟨not_not.1 hstate, not_not.1 hsector⟩,
          shown_of_readable hreadable, hbytes, hlen⟩

theorem writeBlockFirstPart_handled (h : Inv l)
    (hidx : l.currentCmdIdx = 5 ∧ l.currentCmdHandlerIdx = 0)
    (hrun : writeBlockFirstPartHandler random l buff = some (command, l')) :
    Handled l command l' := by
  unfold writeBlockFirstPartHandler at hrun
  simp only [Option.bind_eq_bind, Option.pure_def] at hrun
  split_ifs at hrun with hstate
  · cases hrun
    exact .nack h
  · obtain ⟨blockNum, -, hrun⟩ := Option.bind_eq_some_iff.1 hrun
    split_ifs at hrun with htotal hzero hsector
    all_goals cases hrun
    · exact .nack h
    · exact .nack h
    · exact .nack h
    · refine ⟨.of_quiet rfl rfl fun hstate => ⟨hstate, rfl, rfl⟩, h.total,
        fun _ _ => ⟨h.total, h.authenticated, fun _ => .inr (.inl ?_)⟩⟩
      refine ⟨hidx.1, ?_, ⟨not_not.1 hstate, not_not.1 hsector⟩, not_le.1 htotal, hzero⟩
      show l.currentCmdHandlerIdx + 1 = 1
      rw [hidx.2]

theorem writeBlockSecondPart_handled (h : Inv l) (hauth : Authenticated l l.writeBlock)
    (htotal : l.writeBlock.toNat < l.totalBlockNum) (hzero : l.writeBlock ≠ 0)
    (hrun : writeBlockSecondPartHandler random l buff = some (command, l')) :
    Handled l command l' := by
  unfold writeBlockSecondPartHandler at hrun
  simp only [Option.bind_eq_bind, Option.pure_def] at hrun
  split_ifs at hrun with hsize
  · cases hrun
    exact .refuse h (.inl rfl) rfl rfl rfl fun hstate => ⟨hstate, rfl, rfl⟩
  · obtain ⟨written, hwritten, hrun⟩ := Option.bind_eq_some_iff.1 hrun
    cases written with
    | none =>
      cases hrun
      exact .refuse h (.inl rfl) rfl rfl rfl fun hstate => ⟨hstate, rfl, rfl⟩
    | some block =>
      cases hrun
      refine ⟨⟨.inr ⟨l.writeBlock, block, hauth, ?_, hzero, granted_of_written hwritten, rfl⟩,
        [], (List.append_nil _).symm, nofun, fun hstate => .inl ⟨hstate, rfl, rfl⟩⟩, h.total,
        fun _ _ => ⟨h.total, h.authenticated, nofun⟩⟩
      rw [← h.total]
      exact htotal

theorem valueCmd_handled (h : Inv l)
    (hidx : (l.currentCmdIdx = 6 ∨ l.currentCmdIdx = 7 ∨ l.currentCmdIdx = 8) ∧
      l.currentCmdHandlerIdx = 0)
    (hrun : valueCmdHandler random l buff = some (command, l')) : Handled l command l' := by
  unfold valueCmdHandler at hrun
  simp only [Option.bind_eq_bind, Option.pure_def] at hrun
  split_ifs at hrun with hstate
  · cases hrun
    exact .nack h
  · obtain ⟨blockNum, -, hrun⟩ := Option.bind_eq_some_iff.1 hrun
    by_cases hrefused : l.totalBlockNum ≤ blockNum.toNat ∨
        mfClassicGetSectorByBlock blockNum ≠ mfClassicGetSectorByBlock l.authContext.blockNum
    · rw [← ite_or, if_pos hrefused] at hrun
      cases hrun
      exact .nack h
    · rw [← ite_or, if_neg hrefused] at hrun
      obtain ⟨cmd, -, hrun⟩ := Option.bind_eq_some_iff.1 hrun
      cases hcmd : valueCmdOf cmd with
      | none =>
        rw [hcmd] at hrun
        cases hrun
        exact .nack h
      | some value =>
        rw [hcmd] at hrun
        obtain ⟨allowed, -, hrun⟩ := Option.bind_eq_some_iff.1 hrun
        split_ifs at hrun
        all_goals cases hrun
        · exact .refuse h (.inl rfl) rfl rfl rfl fun hstate => ⟨hstate, rfl, rfl⟩
        · exact .refuse h (.inl rfl) rfl rfl rfl fun hstate => ⟨hstate, rfl, rfl⟩
        · refine ⟨.of_quiet rfl rfl fun hstate => ⟨hstate, rfl, rfl⟩, h.total,
            fun _ _ => ⟨h.total, h.authenticated, fun _ => .inr (.inr ⟨hidx.1, .inl ?_, ?_⟩)⟩⟩
          · show l.currentCmdHandlerIdx + 1 = 1
            rw [hidx.2]
          · exact not_not.1 hstate

theorem valueDataReceive_handled (h : Inv l)
    (hidx : (l.currentCmdIdx = 6 ∨ l.currentCmdIdx = 7 ∨ l.currentCmdIdx = 8) ∧
      l.currentCmdHandlerIdx = 1) (hstate : l.state = .authComplete)
    (hrun : valueDataReceiveHandler random l buff = some (command, l')) :
    Handled l command l' := by
  unfold valueDataReceiveHandler at hrun
  simp only [Option.bind_eq_bind, Option.pure_def] at hrun
  split_ifs at hrun with hsize
  · cases hrun
    exact .nack h
  · obtain ⟨data, -, hrun⟩ := Option.bind_eq_some_iff.1 hrun
    cases hrun
    refine ⟨.of_quiet rfl rfl fun hstate => ⟨hstate, rfl, rfl⟩, h.total,
      fun _ _ => ⟨h.total, h.authenticated, fun _ => .inr (.inr ⟨hidx.1, .inr ?_, hstate⟩)⟩⟩
    show l.currentCmdHandlerIdx + 1 = 2
    rw [hidx.2]

theorem granted_of_dec {data : MfClassicData} {blockNum : UInt8} {keyType : MfClassicKeyType}
    (h : data.isAllowedAccess blockNum keyType .dataDec = some true) (value : UInt32) :
    Granted data blockNum keyType (mfClassicValueToBlock value blockNum) := by
  have htrailer : ¬mfClassicIsSectorTrailer blockNum = true := by
    intro htrailer
    unfold MfClassicData.isAllowedAccess at h
    rw [if_pos htrailer, MfClassicData.isAllowedAccessSectorTrailer, Option.map_eq_some_iff] at h
    obtain ⟨secTr, -, hfalse⟩ := h
    cases keyType <;> cases hfalse
  unfold Granted
  dsimp only
  rw [if_neg htrailer]
  exact .inr ⟨h, value, rfl⟩

theorem valueTransfer_handled (h : Inv l) (hstate : l.state = .authComplete)
    (hok : buff.sizeBytes = 2 → buff.getByte 0 = some MF_CLASSIC_CMD_VALUE_TRANSFER →
      ∀ blockNum, buff.getByte 1 = some blockNum →
      l.data.isAllowedAccess blockNum l.authContext.keyType .dataDec = some true → blockNum ≠ 0 ∧
        mfClassicGetSectorByBlock blockNum = mfClassicGetSectorByBlock l.authContext.blockNum)
    (hrun : valueTransferHandler random l buff = some (command, l')) : Handled l command l' := by
  have hrefuse : Handled l .nack { l with cmdInProgress := false } :=
    .refuse h (.inl rfl) rfl rfl rfl fun hstate => ⟨hstate, rfl, rfl⟩
  unfold valueTransferHandler at hrun
  simp only [Option.bind_eq_bind, Option.pure_def] at hrun
  split_ifs at hrun with hsize
  · cases hrun
    exact hrefuse
  · obtain ⟨cmd, hcmd, hrun⟩ := Option.bind_eq_some_iff.1 hrun
    split_ifs at hrun with htransfer
    · cases hrun
      exact hrefuse
    · obtain ⟨blockNum, hblockNum, hrun⟩ := Option.bind_eq_some_iff.1 hrun
      obtain ⟨allowed, hallowed, hrun⟩ := Option.bind_eq_some_iff.1 hrun
      rw [not_not.1 htransfer] at hcmd
      split_ifs at hrun with hdec
      · cases hrun
        exact hrefuse
      · cases hrun
        have hdec : allowed = true := by simpa using hdec
        rw [hdec] at hallowed
        obtain ⟨hzero, hsector⟩ := hok (not_not.1 hsize) hcmd blockNum hblockNum hallowed
        have htotal := h.authenticated hstate
        rw [h.total] at htotal
        exact ⟨⟨.inr ⟨blockNum, _, ⟨hstate, hsector⟩, lt_totalBlockNum hsector htotal, hzero,
          granted_of_dec hallowed _, rfl⟩, [], (List.append_nil _).symm, nofun,
          fun hstate => .inl ⟨hstate, rfl, rfl⟩⟩, h.total,
          fun _ _ => ⟨h.total, h.authenticated, nofun⟩⟩

/-! ## Frames -/

theorem receive_frame {rx : BitBuffer} (h : l.receive crypto1 buff = some (rx, l')) :
    ∃ crypto rxPlainBuffer, l' = { l with crypto := crypto, rxPlainBuffer := rxPlainBuffer } := by
  unfold receive at h
  split_ifs at h
  · obtain ⟨decrypted, -, h⟩ := Option.bind_eq_some_iff.1 h
    split_ifs at h
    all_goals
      obtain ⟨rxPlainBuffer, -, h⟩ := Option.bind_eq_some_iff.1 h
      cases h
      exact ⟨_, _, rfl⟩
  · cases h
    exact ⟨l.crypto, l.rxPlainBuffer, rfl⟩

theorem sendShortFrame_frame {data : UInt8} (h : l.sendShortFrame crypto1 data = some l') :
    ∃ crypto txPlainBuffer txEncryptedBuffer, l' = { l with
      crypto := crypto
      txPlainBuffer := txPlainBuffer
      txEncryptedBuffer := txEncryptedBuffer
      sent := l.sent ++ [.short data] } := by
  unfold sendShortFrame at h
  obtain ⟨tx₁, -, h⟩ := Option.bind_eq_some_iff.1 h
  obtain ⟨tx₂, -, h⟩ := Option.bind_eq_some_iff.1 h
  dsimp only at h
  split_ifs at h
  · obtain ⟨l₁, hencrypt, h⟩ := Option.bind_eq_some_iff.1 h
    obtain ⟨_, _, rfl⟩ := encryptPlain_frame hencrypt
    cases h
    exact ⟨_, _, _, rfl⟩
  · cases h
    exact ⟨l.crypto, _, _, rfl⟩

theorem first_handled {i : ℕ} {cmd : MfClassicListenerCmd κ} {handler : CommandHandler κ}
    (h : Inv l) (hidx : l.currentCmdIdx = i ∧ l.currentCmdHandlerIdx = 0)
    (hcmd : (cmdHandlers crypto1)[i]? = some cmd) (hhandler : cmd.handler[0]? = some handler)
    (hrun : handler random l buff = some (command, l')) : Handled l command l' := by
  have hlt : i < 9 := (List.getElem?_eq_some_iff.1 hcmd).1
  interval_cases i
  all_goals
    cases hcmd
    cases hhandler
  · exact haltHandler_handled h hrun
  · exact haltHandler_handled h hrun
  · obtain ⟨blockNum, -, hrun⟩ := Option.bind_eq_some_iff.1 hrun
    exact authFirstPart_handled h ⟨.inl hidx.1, hidx.2⟩ hrun
  · obtain ⟨blockNum, -, hrun⟩ := Option.bind_eq_some_iff.1 hrun
    exact authFirstPart_handled h ⟨.inr hidx.1, hidx.2⟩ hrun
  · exact readBlock_handled h hrun
  · exact writeBlockFirstPart_handled h hidx hrun
  · exact valueCmd_handled h ⟨.inl hidx.1, hidx.2⟩ hrun
  · exact valueCmd_handled h ⟨.inr (.inl hidx.1), hidx.2⟩ hrun
  · exact valueCmd_handled h ⟨.inr (.inr hidx.1), hidx.2⟩ hrun

theorem next_handled {cmd : MfClassicListenerCmd κ} {handler : CommandHandler κ} (h : Inv l)
    (hpending : Pending l) (hcmd : (cmdHandlers crypto1)[l.currentCmdIdx]? = some cmd)
    (hhandler : cmd.handler[l.currentCmdHandlerIdx]? = some handler)
    (hok : l.currentCmdHandlerIdx = 2 → buff.sizeBytes = 2 →
      buff.getByte 0 = some MF_CLASSIC_CMD_VALUE_TRANSFER →
      ∀ blockNum, buff.getByte 1 = some blockNum →
      l.data.isAllowedAccess blockNum l.authContext.keyType .dataDec = some true → blockNum ≠ 0 ∧
        mfClassicGetSectorByBlock blockNum = mfClassicGetSectorByBlock l.authContext.blockNum)
    (hrun : handler random l buff = some (command, l')) : Handled l command l' := by
  rcases hpending with ⟨hidx, hpart, hblock⟩ | ⟨hidx, hpart, hauth, htotal, hzero⟩ |
    ⟨hidx, hpart, hstate⟩
  · rw [hpart] at hhandler
    rcases hidx with hidx | hidx
    all_goals
      rw [hidx] at hcmd
      cases hcmd
      cases hhandler
      exact authSecondPart_handled h hblock hrun
  · rw [hidx] at hcmd
    rw [hpart] at hhandler
    cases hcmd
    cases hhandler
    exact writeBlockSecondPart_handled h hauth htotal hzero hrun
  · have hvalue : cmd.handler[1]? = some valueDataReceiveHandler ∧
        cmd.handler[2]? = some valueTransferHandler := by
      rcases hidx with hidx | hidx | hidx
      all_goals
        rw [hidx] at hcmd
        cases hcmd
        exact ⟨rfl, rfl⟩
    rcases hpart with hpart | hpart
    · rw [hpart, hvalue.1] at hhandler
      cases hhandler
      exact valueDataReceive_handled h ⟨hidx, hpart⟩ hstate hrun
    · rw [hpart, hvalue.2] at hhandler
      cases hhandler
      exact valueTransfer_handled h hstate (hok hpart) hrun

theorem handle_handled (h : Inv l)
    (hok : l.cmdInProgress = true → l.currentCmdHandlerIdx = 2 → buff.sizeBytes = 2 →
      buff.getByte 0 = some MF_CLASSIC_CMD_VALUE_TRANSFER →
      ∀ blockNum, buff.getByte 1 = some blockNum →
      l.data.isAllowedAccess blockNum l.authContext.keyType .dataDec = some true → blockNum ≠ 0 ∧
        mfClassicGetSectorByBlock blockNum = mfClassicGetSectorByBlock l.authContext.blockNum)
    (hrun : l.handle crypto1 random buff = some (command, l')) : Handled l command l' := by
  unfold handle at hrun
  split_ifs at hrun with hprogress
  · obtain ⟨cmd, hcmd, hrun⟩ := Option.bind_eq_some_iff.1 hrun
    obtain ⟨handler, hhandler, hrun⟩ := Option.bind_eq_some_iff.1 hrun
    exact next_handled h (h.pending hprogress) hcmd hhandler (hok hprogress) hrun
  · cases hfind : findCmd crypto1 buff with
    | none =>
      rw [hfind] at hrun
      cases hrun
      exact .nack h
    | some i =>
      rw [hfind] at hrun
      obtain ⟨cmd, hcmd, hrun⟩ := Option.bind_eq_some_iff.1 hrun
      obtain ⟨handler, hhandler, hrun⟩ := Option.bind_eq_some_iff.1 hrun
      have hinv : Inv { l with currentCmdIdx := i, currentCmdHandlerIdx := 0 } :=
        ⟨h.total, h.authenticated, fun hcmd => absurd hcmd hprogress⟩
      have hhandled := first_handled hinv ⟨rfl, rfl⟩ hcmd hhandler hrun
      exact ⟨⟨hhandled.confined.memory, hhandled.confined.replies⟩, hhandled.total, hhandled.inv⟩

theorem Confined.followed {l'' : MfClassicListener κ} {shorts : List Reply} (h : Confined l l')
    (hdata : l''.data = l'.data) (hsent : l''.sent = l'.sent ++ shorts)
    (hshorts : ∀ data, .block data ∉ shorts)
    (hstate : l''.state = .authComplete → l'.state = .authComplete ∧
      l''.authContext = l'.authContext) : Confined l l'' := by
  obtain ⟨replies, hreplies, hblocks, hopened⟩ := h.replies
  refine ⟨?_, replies ++ shorts, ?_, fun data hmem => ?_, fun hcomplete => ?_⟩
  · rw [hdata]
    exact h.memory
  · rw [hsent, hreplies, List.append_assoc]
  · rcases List.mem_append.1 hmem with hmem | hmem
    · exact hblocks data hmem
    · exact absurd hmem (hshorts data)
  · obtain ⟨hcomplete, hcontext⟩ := hstate hcomplete
    rw [hcontext]
    rcases hopened hcomplete with hkept | ⟨at', hanswer⟩
    · exact .inl hkept
    · exact .inr ⟨at', List.mem_append_left _ hanswer⟩

theorem finish_confined {nfcCommand : NfcCommand} {l'' : MfClassicListener κ}
    (h : Handled l command l') (hfinish : l'.finish crypto1 command = some (nfcCommand, l'')) :
    Confined l l'' ∧ Inv l'' := by
  cases command with
  | processed =>
    cases hfinish
    exact ⟨h.confined, h.inv nofun nofun⟩
  | ack =>
    simp only [finish, Option.map_eq_some_iff, Prod.mk.injEq] at hfinish
    obtain ⟨_, hsend, -, rfl⟩ := hfinish
    obtain ⟨_, _, _, rfl⟩ := sendShortFrame_frame hsend
    have hinv := h.inv nofun nofun
    exact ⟨h.confined.followed rfl rfl (by simp) fun hstate => ⟨hstate, rfl⟩,
      hinv.total, hinv.authenticated, hinv.pending⟩
  | nack =>
    simp only [finish, Option.map_eq_some_iff, Prod.mk.injEq] at hfinish
    obtain ⟨_, hsend, -, rfl⟩ := hfinish
    obtain ⟨_, _, _, rfl⟩ := sendShortFrame_frame hsend
    exact ⟨h.confined.followed rfl rfl (by simp) nofun, h.total, nofun, nofun⟩
  | silent =>
    cases hfinish
    exact ⟨h.confined, h.inv nofun nofun⟩
  | sleep =>
    cases hfinish
    exact ⟨h.confined.followed rfl (List.append_nil _).symm nofun nofun, h.total, nofun, nofun⟩

theorem reset_confined (h : Inv l) :
    Confined l (l.resetState crypto1) ∧ Inv (l.resetState crypto1) :=
  ⟨.of_quiet rfl rfl nofun, h.total, nofun, nofun⟩

theorem step_confined (event : Event) (h : Inv l) (hok : TransferOk crypto1 l event) :
    Yields (fun l' => Confined l l' ∧ Inv l') (fun _ => True) (l.step crypto1 event) := by
  unfold step
  cases hrun : l.run crypto1 event with
  | none => trivial
  | some r =>
    cases event with
    | fieldOff =>
      cases hrun
      exact reset_confined h
    | halted =>
      cases hrun
      exact reset_confined h
    | received buffer random =>
      obtain ⟨received, hreceive, hrun⟩ := Option.bind_eq_some_iff.1 hrun
      obtain ⟨handled, hhandle, hfinish⟩ := Option.bind_eq_some_iff.1 hrun
      obtain ⟨rx, l₁⟩ := received
      have hframe := receive_frame hreceive
      obtain ⟨crypto, rxPlainBuffer, rfl⟩ := hframe
      have hinv : Inv { l with crypto := crypto, rxPlainBuffer := rxPlainBuffer } :=
        ⟨h.total, h.authenticated, h.pending⟩
      have hhandled := handle_handled hinv
        (fun hprogress hpart => hok hprogress hpart rx _ hreceive) hhandle
      obtain ⟨hconfined, hinv⟩ := finish_confined hhandled hfinish
      exact ⟨⟨hconfined.memory, hconfined.replies⟩, hinv⟩

theorem alloc_inv (data : MfClassicData) (crypto : κ)
    (txPlainBuffer txEncryptedBuffer rxPlainBuffer : BitBuffer) :
    Inv (alloc data crypto txPlainBuffer txEncryptedBuffer rxPlainBuffer) where
  total := rfl
  authenticated := nofun
  pending := nofun

/-- As long as no transfer leaves the authenticated sector, whatever a reader sends next is
confined to it. -/
theorem emulation_confined (data : MfClassicData) (crypto : κ)
    (txPlainBuffer txEncryptedBuffer rxPlainBuffer : BitBuffer) (events : List Event)
    (hok : ExecAlong (TransferOk crypto1) (step crypto1)
      (alloc data crypto txPlainBuffer txEncryptedBuffer rxPlainBuffer) events) :
    Yields (fun l => ∀ event l', TransferOk crypto1 l event → l.step crypto1 event = .ok l' →
      Confined l l') (fun _ => True)
      (exec (step crypto1) (alloc data crypto txPlainBuffer txEncryptedBuffer rxPlainBuffer)
        events) := by
  have hstep : ∀ l event, Inv l → TransferOk crypto1 l event →
      Yields Inv (fun _ => True) (l.step crypto1 event) := fun l event h hok =>
    (step_confined event h hok).mono (fun _ hl' => hl'.2) fun _ _ => trivial
  refine (exec_inv hstep events (alloc_inv data crypto txPlainBuffer txEncryptedBuffer
    rxPlainBuffer) hok).mono (fun l hl event l' hok hrun => ?_) fun _ _ => trivial
  exact ((step_confined event hl hok).of_ok hrun).1

/-- A cipher that does nothing. -/
def plainCipher : Crypto1 Unit where
  reset := id
  init crypto _ := crypto
  word crypto _ _ := (0, crypto)
  prngSuccessor nt _ := nt
  encrypt crypto _ plain encrypted := (encrypted.copyBytes plain.bytes).map fun buf => (buf, crypto)
  decrypt crypto encrypted plain := (plain.copyBytes encrypted.bytes).map fun buf => (buf, crypto)

/-- A card as it is delivered, with a value in its second block. -/
def deliveredCard : MfClassicData where
  cuid := 0
  type := .type1k
  block blockNum :=
    if blockNum = 1 then mfClassicValueToBlock 7 1
    else if mfClassicIsSectorTrailer blockNum then
      #v[0xFF, 0xFF, 0xFF, 0xFF, 0xFF, 0xFF, 0xFF, 0x07, 0x80, 0x69, 0xFF, 0xFF, 0xFF, 0xFF, 0xFF,
        0xFF]
    else Vector.replicate 16 0

def frameOf (bytes : List UInt8) : BitBuffer := ⟨bytes, bytes.length * BITS_IN_BYTE, le_rfl⟩

def emptyBuffer : BitBuffer := ⟨List.replicate 64 0, 0, Nat.zero_le _⟩

def deliveredListener : MfClassicListener Unit :=
  alloc deliveredCard () emptyBuffer emptyBuffer emptyBuffer

/-- A reader authenticates itself for the first sector and increments the value that is there. -/
def incrementEvents : List Event :=
  [.received (frameOf [0x60, 1]) 7, .received (frameOf [0, 0, 0, 0, 0, 0, 0, 7]) 0,
    .received (frameOf [0xC1, 1]) 0, .received (frameOf [1, 0, 0, 0]) 0]

theorem transferOk_of_ne {event : Event} (h : l.currentCmdHandlerIdx ≠ 2) :
    TransferOk crypto1 l event := by
  cases event with
  | received buffer random => exact fun _ hpart => absurd hpart h
  | fieldOff => trivial
  | halted => trivial

set_option maxRecDepth 10000 in
theorem incrementEvents_transferOk :
    ExecAlong (TransferOk plainCipher) (step plainCipher) deliveredListener incrementEvents := by
  refine ⟨transferOk_of_ne (by decide), fun l₁ h₁ => ?_⟩
  cases h₁
  refine ⟨transferOk_of_ne (by decide), fun l₂ h₂ => ?_⟩
  cases h₂
  refine ⟨transferOk_of_ne (by decide), fun l₃ h₃ => ?_⟩
  cases h₃
  refine ⟨transferOk_of_ne (by decide), fun l₄ h₄ => trivial⟩

set_option maxRecDepth 10000 in
theorem increment_confined : ∃ l l',
    exec (step plainCipher) deliveredListener incrementEvents = .ok l ∧
    l.step plainCipher (.received (frameOf [0xB0, 1]) 0) = .ok l' ∧
    mfClassicBlockToValue (l'.data.block 1) = (true, 8) ∧ Confined l l' := by
  refine ⟨_, _, rfl, rfl, by decide, ?_⟩
  refine (emulation_confined deliveredCard () emptyBuffer emptyBuffer emptyBuffer incrementEvents
    incrementEvents_transferOk).of_ok rfl (.received (frameOf [0xB0, 1]) 0) _ ?_ rfl
  intro _ _ rx l' hreceive _ _ blockNum hblockNum _
  cases hreceive
  cases hblockNum
  decide

set_option maxRecDepth 10000 in
/-- The value is transferred to a block of another sector. -/
theorem transfer_leaves_sector : ∃ l l',
    exec (step plainCipher) deliveredListener incrementEvents = .ok l ∧
    l.step plainCipher (.received (frameOf [0xB0, 5]) 0) = .ok l' ∧ ¬Confined l l' := by
  refine ⟨_, _, rfl, rfl, fun h => ?_⟩
  rcases h.memory with hdata | ⟨blockNum, block, hauth, -, -, -, hdata⟩
  · have hblock := congrArg (fun data => data.block 5) hdata
    revert hblock
    decide
  · have hother : 5 ≠ blockNum := by
      rintro rfl
      exact absurd hauth.2 (by decide)
    have hblock := congrArg (fun data => data.block 5) hdata
    simp only [MfClassicData.setBlock, Function.update_of_ne hother] at hblock
    revert hblock
    decide

end MfClassicListener

end KiisuFirmware
