import KiisuFirmware.Companion

/-!
# Flashing the companion controller faithfully

The chunks that are committed follow one another through the file, and the update is finalized when
all of it has been committed. The checksum that the host keeps is that of the chunks whose
verification has been read: it is the checksum of everything that has been sent only where none is
missing.
-/

namespace KiisuFirmware

namespace Companion

/-- The CRC-32 of IEEE 802.3, with the lowest bit first. -/
def crc32Byte (crc : UInt32) (byte : UInt8) : UInt32 :=
  (List.range 8).foldl (fun (crc : UInt32) _ =>
    if crc &&& 1 = 1 then crc >>> 1 ^^^ 0xEDB88320 else crc >>> 1) (crc ^^^ byte.toUInt32)

def crc32 (data : List UInt8) : UInt32 := ~~~data.foldl crc32Byte 0xFFFFFFFF

theorem and_one_eq (crc : UInt32) : crc &&& 1 = 0 ∨ crc &&& 1 = 1 := by
  have h : (crc &&& 1 : UInt32).toNat = crc.toNat % 2 := by simp
  rcases Nat.mod_two_eq_zero_or_one crc.toNat with h' | h' <;> rw [h'] at h
  · exact .inl (UInt32.toNat_inj.1 h)
  · exact .inr (UInt32.toNat_inj.1 h)

theorem crc32StepHost_bit (crc : UInt32) :
    (crc >>> 1 ^^^ (0xEDB88320 &&& (0 - (crc &&& 1))) : UInt32) =
    if crc &&& 1 = 1 then crc >>> 1 ^^^ 0xEDB88320 else crc >>> 1 := by
  rcases and_one_eq crc with h | h <;> rw [h]
  · simp
  · simp

theorem crc32StepHost_eq (crc : UInt32) (data : List UInt8) :
    crc32StepHost crc data = ~~~data.foldl crc32Byte (~~~crc) := by
  unfold crc32StepHost
  simp only [crc32StepHost_bit]
  rfl

theorem crc32StepHost_crc32 (before data : List UInt8) :
    crc32StepHost (crc32 before) data = crc32 (before ++ data) := by
  rw [crc32StepHost_eq, crc32, UInt32.not_not, crc32, List.foldl_append]

theorem bytesToNum_numToBytes (value : ℕ) :
    ∀ length, value < 256 ^ length →
      bitLibBytesToNumLe (bitLibNumToBytesLe value length) = value := by
  intro length
  induction length generalizing value with
  | zero =>
    intro h
    simp only [pow_zero, Nat.lt_one_iff] at h
    subst h
    rfl
  | succ length ih =>
    intro h
    have hbytes : bitLibNumToBytesLe value (length + 1) =
        value.toUInt8 :: bitLibNumToBytesLe (value / 256) length := by
      simp only [bitLibNumToBytesLe, List.range_succ_eq_map, List.map_cons, List.map_map]
      congr 1
      apply List.map_congr_left
      intro i _
      simp only [Function.comp, Nat.shiftRight_eq_div_pow, Nat.div_div_eq_div_mul]
      congr 2
      rw [Nat.mul_succ, Nat.add_comm, pow_add]
      rfl
    rw [hbytes, bitLibBytesToNumLe, List.foldr_cons, ← bitLibBytesToNumLe,
      ih (value / 256) (by rw [pow_succ] at h; omega)]
    simp
    omega

theorem chunkLen_pos {rem : ℕ} (h : 0 < rem) : 0 < chunkLen rem := by
  simp only [chunkLen]
  split_ifs <;> omega

theorem chunkLen_le (rem : ℕ) : chunkLen rem ≤ rem ∧ chunkLen rem ≤ 32 := by
  simp only [chunkLen]
  split_ifs <;> omega

theorem dvd_chunkLen {rem : ℕ} (h : chunkLen rem < rem) : 8 ∣ chunkLen rem := by
  simp only [chunkLen] at h ⊢
  split_ifs at h ⊢ <;> omega

section Device

structure Chunk where
  offset : ℕ
  data : List UInt8

/-- What the writes that complete leave in the registers of a chunk, and the chunks that have been
committed, the last one first. -/
structure Registers where
  chunkOffset : ℕ
  chunkLen : ℕ
  data : List UInt8
  committed : List Chunk

def Registers.write (registers : Registers) (reg : UInt8) (data : List UInt8) : Registers :=
  if reg = REG_CHUNK_OFFSET then { registers with chunkOffset := bitLibBytesToNumLe data }
  else if reg = REG_CHUNK_LEN then { registers with chunkLen := bitLibBytesToNumLe data }
  else if reg = REG_DATA then { registers with data := data ++ registers.data.drop data.length }
  else if reg = REG_CMD ∧ data = [CMD_COMMIT_CHUNK] then
    { registers with
      committed := ⟨registers.chunkOffset, registers.data.take registers.chunkLen⟩ ::
        registers.committed }
  else registers

def registers : List Event → Registers
  | [] => ⟨0, 0, [], []⟩
  | .transfer (.write reg data) true _ :: past => (registers past).write reg data
  | _ :: past => registers past

/-- The bytes of chunks, the last one of which comes first. -/
def chunksBytes : List Chunk → List UInt8
  | [] => []
  | chunk :: earlier => chunksBytes earlier ++ chunk.data

/-- Everything that has been committed. -/
def sent (past : List Event) : List UInt8 := chunksBytes (registers past).committed

/-- What has been committed last. -/
def lastSent (past : List Event) : List UInt8 :=
  match (registers past).committed with
  | [] => []
  | chunk :: _ => chunk.data

/-- The chunks whose verification has been read. -/
def verified : List Event → List UInt8
  | .verify _ _ _ _ :: past => verified past ++ lastSent past
  | _ :: past => verified past
  | [] => []

/-- The chunks follow one another through the file without a gap, and all but the last have a
multiple of eight bytes. -/
def Laid (file : List UInt8) : List Chunk → Prop
  | [] => True
  | chunk :: earlier => chunk.offset = (chunksBytes earlier).length ∧ chunk.data ≠ [] ∧
      chunk.data <+: file.drop chunk.offset ∧ (∀ c ∈ earlier, 8 ∣ c.data.length) ∧
      Laid file earlier

/-- A length or a checksum that has been read is that of what has been sent. -/
def Right (past : List Event) : Event → Prop
  | .transfer (.read reg _) true stored =>
      (reg = REG_RECV_LEN → bitLibBytesToNumLe stored = (sent past).length) ∧
      (reg = REG_ROLL_CRC32 → (bitLibBytesToNumLe stored).toUInt32 = crc32 (sent past))
  | _ => True

/-- Whether the device is asked to finalize the update. -/
def Event.Finalizes : Event → Prop
  | .transfer (.write reg data) _ _ => reg = REG_CMD ∧ data = [CMD_FINALIZE]
  | _ => False

/-- A checksum that is compared with the one of the device is that of what has been sent. -/
def Compared (past : List Event) : Event → Prop
  | .verify rxlen _ expectedRx host => rxlen = expectedRx → host = crc32 (sent past)
  | _ => True

/-- The transfers that ask whether the device answers. -/
def probes (events : List Event) : List Event :=
  events.filter fun e => e matches .transfer .probe _ _

/-- The device has been seen ready or done, or it has not answered 51 times in a row. -/
def Seen (after : List Event) : Prop :=
  (∃ ok, .transfer (.read REG_STATUS 1) ok [ST_READY] ∈ after) ∨
  (∃ flags, .transfer (.read REG_EVENT_FLAGS 1) true [flags] ∈ after ∧
    flags &&& EVT_DONE_MASK ≠ 0) ∨
  (probes after).take 51 = List.replicate 51 (.transfer .probe false [])

/-- What an update owes to the file: it commits its chunks in order, finalizes when all of them have
been committed and nothing that it has read back was wrong, compares nothing but the checksum of what
has been sent, and so never refuses a device that is right, and it ends well after the device has
taken the end of it and has been seen to be. -/
structure Faithful (file : List UInt8) (past : List Event) {α : Type} (result : Except String α) :
    Prop where
  laid : Laid file (registers past).committed
  finalized : Throughout (fun past e => e.Finalizes → sent past = file ∧ Throughout Right past) past
  compared : Throughout Compared past
  accepted : Throughout Right past → result ≠ .error "Verify mismatch after commit" ∧
    result ≠ .error "Aux length mismatch before finalize"
  done : ∀ a, result = .ok a → ∃ after before,
    past = after ++ .transfer (.write REG_CMD [CMD_FINALIZE]) true [] :: before ∧ Seen after

/-- The chunks whose verification has been read have the checksum of all of them. -/
def Complete (past : List Event) : Event → Prop
  | .verify rxlen crc expectedRx host => rxlen = expectedRx →
      crc32 (verified (.verify rxlen crc expectedRx host :: past)) = crc32 (sent past)
  | _ => True

/-- What is read back but not compared is right. -/
def Attests (past : List Event) : Event → Prop
  | .unverified (some rxlen) => rxlen = (sent past).length
  | .rolling crc => crc = crc32 (sent past)
  | _ => True

end Device

section Transfers

variable {device : Device} {bus bus' : Bus} {α : Type} {E : String → Bus → Prop}

def Bus.add (bus : Bus) (events : List Event) : Bus := { bus with past := events ++ bus.past }

@[simp] theorem Bus.add_past (bus : Bus) (events : List Event) :
    (bus.add events).past = events ++ bus.past := rfl

@[simp] theorem Bus.add_add (bus : Bus) (es es' : List Event) :
    (bus.add es).add es' = bus.add (es' ++ es) := by
  simp [Bus.add]

theorem note_ends {event : Event} {Q : Unit → Bus → Prop} (h : Q () (bus.add [event])) :
    Ends (note event) bus Q E := h

theorem transfer_ends {request : Request} {length : ℕ} {Q : Bool × List UInt8 → Bus → Prop}
    (h : ∀ ok stored, (ok = true → stored.length = length) → stored.length ≤ length →
      Q (ok, stored) (bus.add [.transfer request ok stored])) :
    Ends (transfer device request length) bus Q E := by
  refine Ends.next (Ends.get ?_)
  refine Ends.next (note_ends ?_)
  refine Ends.pure (h _ _ ?_ ?_)
  · intro hok
    simp [hok]
  · split <;> simp

/-- A transfer that writes a register and fails. -/
def WriteFails (reg : UInt8) (data : List UInt8) (e : Event) : Prop :=
  e = .transfer (.write reg data) false []

/-- A register is named, or it could not be read. -/
def ReadFails (reg : UInt8) (length : ℕ) (e : Event) : Prop :=
  (∃ ok, e = .transfer (.select reg) ok []) ∨
  ∃ stored, e = .transfer (.read reg length) false stored

theorem i2cWriteMemTries_ends {reg : UInt8} {data : List UInt8} {Q : Bool → Bus → Prop} :
    ∀ (tries : ℕ) (bus : Bus),
      (∀ failed, (∀ e ∈ failed, WriteFails reg data e) →
        Q true (bus.add (.transfer (.write reg data) true [] :: failed))) →
      (∀ failed, (∀ e ∈ failed, WriteFails reg data e) → Q false (bus.add failed)) →
      Ends (i2cWriteMemTries device reg data tries) bus Q E
  | 0, bus, _, hfail => Ends.pure (hfail [] (by simp))
  | tries + 1, bus, hok, hfail => by
    have hrest : ∀ before, (∀ e ∈ before, WriteFails reg data e) →
        Ends (i2cWriteMemTries device reg data tries) (bus.add before) Q E := by
      intro before hbefore
      refine i2cWriteMemTries_ends tries (bus.add before) (fun failed hfailed => ?_)
        fun failed hfailed => ?_
      · rw [Bus.add_add]
        exact hok (failed ++ before) fun e he => (List.mem_append.1 he).elim (hfailed e) (hbefore e)
      · rw [Bus.add_add]
        exact hfail (failed ++ before) fun e he =>
          (List.mem_append.1 he).elim (hfailed e) (hbefore e)
    refine Ends.next (transfer_ends fun ok stored _ hstored => ?_)
    obtain rfl := List.length_eq_zero_iff.1 (Nat.le_zero.1 hstored)
    cases ok with
    | true => exact hok [] (by simp)
    | false =>
      refine Ends.ite (fun h => by cases h) fun _ => ?_
      refine Ends.ite (fun _ => ?_) fun _ => hrest _ (by simp [WriteFails])
      refine Ends.next (transfer_ends fun ok stored _ hstored => ?_)
      obtain rfl := List.length_eq_zero_iff.1 (Nat.le_zero.1 hstored)
      rw [Bus.add_add]
      cases ok with
      | true => exact hok [_] (by simp [WriteFails])
      | false => exact hrest _ (by simp [WriteFails])

theorem i2cWriteMemRetry_ends {reg : UInt8} {data : List UInt8} {Q : Bool → Bus → Prop}
    (hok : ∀ failed, (∀ e ∈ failed, WriteFails reg data e) →
      Q true (bus.add (.transfer (.write reg data) true [] :: failed)))
    (hfail : ∀ failed, (∀ e ∈ failed, WriteFails reg data e) → Q false (bus.add failed)) :
    Ends (i2cWriteMemRetry device reg data) bus Q E :=
  i2cWriteMemTries_ends (RETRIES + 1) bus hok hfail

theorem receive_ends {reg : UInt8} {buffer : List UInt8} {Q : Bool × List UInt8 → Bus → Prop}
    (hok : ∀ stored, stored.length = buffer.length →
      Q (true, stored) (bus.add [.transfer (.read reg buffer.length) true stored]))
    (hfail : ∀ stored, stored.length ≤ buffer.length →
      Q (false, stored ++ buffer.drop stored.length)
        (bus.add [.transfer (.read reg buffer.length) false stored])) :
    Ends (receive device reg buffer) bus Q E := by
  refine Ends.next (transfer_ends fun ok stored hall hstored => Ends.pure ?_)
  cases ok with
  | true =>
    have hdrop : buffer.drop stored.length = [] := by
      rw [hall rfl]
      exact List.drop_length
    rw [hdrop, List.append_nil]
    exact hok stored (hall rfl)
  | false => exact hfail stored hstored

/-- A buffer of one byte keeps it or has what a transfer has stored. -/
def Kept (reg : UInt8) (buffer buffer' : List UInt8) (events : List Event) : Prop :=
  buffer'.length = buffer.length ∧ (buffer.length = 1 → buffer' = buffer ∨
    .transfer (.read reg 1) false buffer' ∈ events)

theorem kept_append {reg : UInt8} {buffer stored : List UInt8}
    (h : stored.length ≤ buffer.length) :
    Kept reg buffer (stored ++ buffer.drop stored.length)
      [.transfer (.read reg buffer.length) false stored] := by
  refine ⟨by simp; omega, fun hone => ?_⟩
  rcases Nat.lt_or_ge stored.length 1 with hlt | hge
  · obtain rfl := List.length_eq_zero_iff.1 (Nat.lt_one_iff.1 hlt)
    exact .inl rfl
  · have hdrop : buffer.drop stored.length = [] := List.drop_of_length_le (by omega)
    rw [hdrop, List.append_nil, hone]
    exact .inr (List.mem_singleton_self _)

theorem Kept.trans {reg : UInt8} {b b' b'' : List UInt8} {es es' : List Event}
    (h : Kept reg b b' es) (h' : Kept reg b' b'' es') : Kept reg b b'' (es' ++ es) := by
  refine ⟨h'.1.trans h.1, fun hone => ?_⟩
  rcases h'.2 (h.1.trans hone) with rfl | hmem
  · exact (h.2 hone).imp_right (List.mem_append_right _)
  · exact .inr (List.mem_append_left _ hmem)

theorem i2cReadMemTries_ends {reg : UInt8} {length : ℕ} {Q : Bool × List UInt8 → Bus → Prop} :
    ∀ (tries : ℕ) (bus : Bus) (buffer : List UInt8), buffer.length = length →
      (∀ failed stored, (∀ e ∈ failed, ReadFails reg length e) → stored.length = length →
        Q (true, stored) (bus.add (.transfer (.read reg length) true stored :: failed))) →
      (∀ failed stored, (∀ e ∈ failed, ReadFails reg length e) → Kept reg buffer stored failed →
        Q (false, stored) (bus.add failed)) →
      Ends (i2cReadMemTries device reg buffer tries) bus Q E
  | 0, bus, buffer, _, _, hfail => Ends.pure (hfail [] buffer (by simp) ⟨rfl, fun _ => .inl rfl⟩)
  | tries + 1, bus, buffer, hlength, hok, hfail => by
    have hrest : ∀ before buffer', (∀ e ∈ before, ReadFails reg length e) →
        Kept reg buffer buffer' before →
        Ends (i2cReadMemTries device reg buffer' tries) (bus.add before) Q E := by
      intro before buffer' hbefore hkept
      refine i2cReadMemTries_ends tries _ buffer' (hkept.1.trans hlength)
        (fun failed stored hfailed hstored => ?_) fun failed stored hfailed hstored => ?_
      · rw [Bus.add_add]
        exact hok (failed ++ before) stored
          (fun e he => (List.mem_append.1 he).elim (hfailed e) (hbefore e)) hstored
      · rw [Bus.add_add]
        exact hfail (failed ++ before) stored
          (fun e he => (List.mem_append.1 he).elim (hfailed e) (hbefore e)) (hkept.trans hstored)
    -- the read after a stop, from wherever the one after a restart has led
    have hagain : ∀ before buffer', (∀ e ∈ before, ReadFails reg length e) →
        Kept reg buffer buffer' before →
        Ends (receive device reg buffer' >>= fun r =>
          if r.1 = true then pure (true, r.2) else i2cReadMemTries device reg r.2 tries)
          (bus.add before) Q E := by
      intro before buffer' hbefore hkept
      have hlength' := hkept.1.trans hlength
      refine Ends.next (receive_ends (fun stored hstored => ?_) fun stored hstored => ?_)
      · rw [Bus.add_add, hlength']
        exact hok before stored hbefore (hstored.trans hlength')
      · rw [Bus.add_add]
        refine hrest _ _ (fun e he => ?_) (hkept.trans (kept_append hstored))
        rcases List.mem_append.1 he with he | he
        · rw [List.mem_singleton.1 he, hlength']
          exact .inr ⟨stored, rfl⟩
        · exact hbefore e he
    refine Ends.next (Ends.next (transfer_ends fun ok stored _ hstored => ?_))
    obtain rfl := List.length_eq_zero_iff.1 (Nat.le_zero.1 hstored)
    have hselect : ∀ e ∈ [Event.transfer (.select reg) ok []], ReadFails reg length e := by
      simp [ReadFails]
    cases ok with
    | false =>
      exact hagain _ buffer hselect ⟨rfl, fun _ => .inl rfl⟩
    | true =>
      refine receive_ends (fun stored hstored => ?_) fun stored hstored => ?_
      · rw [Bus.add_add, hlength]
        exact hok _ stored hselect (hstored.trans hlength)
      · rw [Bus.add_add]
        refine hagain _ _ (fun e he => ?_)
          ((show Kept reg buffer buffer [.transfer (.select reg) true []] from
            ⟨rfl, fun _ => .inl rfl⟩).trans (kept_append hstored))
        rcases List.mem_append.1 he with he | he
        · rw [List.mem_singleton.1 he, hlength]
          exact .inr ⟨stored, rfl⟩
        · exact hselect e he

theorem i2cReadMemRetry_ends {reg : UInt8} {buffer : List UInt8}
    {Q : Bool × List UInt8 → Bus → Prop}
    (hok : ∀ failed stored, (∀ e ∈ failed, ReadFails reg buffer.length e) →
      stored.length = buffer.length →
      Q (true, stored) (bus.add (.transfer (.read reg buffer.length) true stored :: failed)))
    (hfail : ∀ failed stored, (∀ e ∈ failed, ReadFails reg buffer.length e) →
      Kept reg buffer stored failed → Q (false, stored) (bus.add failed)) :
    Ends (i2cReadMemRetry device reg buffer) bus Q E :=
  i2cReadMemTries_ends (RETRIES + 1) bus buffer rfl hok hfail

end Transfers
section Invariant

variable {file : List UInt8} {past : List Event} {e : Event} {es : List Event}

/-- Nothing is committed, finalized or read back. -/
def Event.Quiet : Event → Prop
  | .transfer (.write reg data) ok _ => ¬(reg = REG_CMD ∧ data = [CMD_FINALIZE]) ∧
      (ok = true → ¬(reg = REG_CMD ∧ data = [CMD_COMMIT_CHUNK]))
  | .transfer (.read reg _) ok _ => ok = true → reg ≠ REG_RECV_LEN ∧ reg ≠ REG_ROLL_CRC32
  | .transfer _ _ _ => True
  | _ => False

/-- No write has completed. -/
def Event.Idle : Event → Prop
  | .transfer (.write _ _) ok _ => ok = false
  | _ => True

theorem Event.Quiet.of_writeFails {reg : UInt8} {data : List UInt8} (h : WriteFails reg data e)
    (hfinalize : ¬(reg = REG_CMD ∧ data = [CMD_FINALIZE])) : e.Quiet := by
  rw [h]
  exact ⟨hfinalize, nofun⟩

theorem Event.Quiet.of_readFails {reg : UInt8} {length : ℕ} (h : ReadFails reg length e) :
    e.Quiet := by
  rcases h with ⟨ok, rfl⟩ | ⟨stored, rfl⟩
  · trivial
  · exact nofun

theorem Event.Idle.of_writeFails {reg : UInt8} {data : List UInt8} (h : WriteFails reg data e) :
    e.Idle := by
  rw [h]
  rfl

theorem quiet_all {reg : UInt8} {length : ℕ} {es : List Event}
    (hes : ∀ e ∈ es, ReadFails reg length e) : ∀ e ∈ es, e.Quiet :=
  fun e he => .of_readFails (hes e he)

theorem Event.Idle.of_readFails {reg : UInt8} {length : ℕ} (h : ReadFails reg length e) :
    e.Idle := by
  rcases h with ⟨ok, rfl⟩ | ⟨stored, rfl⟩ <;> trivial

theorem registers_idle (h : ∀ e ∈ es, e.Idle) : registers (es ++ past) = registers past := by
  induction es with
  | nil => rfl
  | cons e es ih =>
    rw [← ih fun e he => h e (List.mem_cons_of_mem _ he)]
    have he := h e List.mem_cons_self
    rcases e with ⟨request, ok, stored⟩ | _ | _ | _
    · cases request with
      | write reg data =>
        cases ok with
        | true => cases he
        | false => rfl
      | _ => rfl
    all_goals rfl

theorem committed_write {r : Registers} {reg : UInt8} {data : List UInt8}
    (h : ¬(reg = REG_CMD ∧ data = [CMD_COMMIT_CHUNK])) :
    (r.write reg data).committed = r.committed := by
  unfold Registers.write
  rw [if_neg h]
  split_ifs <;> rfl

theorem committed_quiet (h : ∀ e ∈ es, e.Quiet) :
    (registers (es ++ past)).committed = (registers past).committed := by
  induction es with
  | nil => rfl
  | cons e es ih =>
    rw [← ih fun e he => h e (List.mem_cons_of_mem _ he)]
    have he := h e List.mem_cons_self
    rcases e with ⟨request, ok, stored⟩ | _ | _ | _
    · cases request with
      | write reg data =>
        cases ok with
        | true => exact committed_write (he.2 rfl)
        | false => rfl
      | _ => rfl
    all_goals rfl

theorem verified_quiet (h : ∀ e ∈ es, e.Quiet) : verified (es ++ past) = verified past := by
  induction es with
  | nil => rfl
  | cons e es ih =>
    rw [← ih fun e he => h e (List.mem_cons_of_mem _ he)]
    have he := h e List.mem_cons_self
    rcases e with _ | _ | _ | _
    · rfl
    · cases he
    all_goals rfl

theorem sent_quiet (h : ∀ e ∈ es, e.Quiet) : sent (es ++ past) = sent past := by
  rw [sent, committed_quiet h]
  rfl

theorem lastSent_quiet (h : ∀ e ∈ es, e.Quiet) : lastSent (es ++ past) = lastSent past := by
  rw [lastSent, committed_quiet h]
  rfl

theorem Event.Quiet.right (h : e.Quiet) : Right past e := by
  rcases e with ⟨request, ok, stored⟩ | _ | _ | _
  · cases request with
    | read reg length =>
      cases ok with
      | true => exact ⟨fun hreg => absurd hreg (h rfl).1, fun hreg => absurd hreg (h rfl).2⟩
      | false => trivial
    | _ => trivial
  all_goals trivial

theorem Event.Quiet.complete (h : e.Quiet) : Complete past e := by
  rcases e with _ | _ | _ | _
  · trivial
  · cases h
  all_goals trivial

theorem Event.Quiet.attests (h : e.Quiet) : Attests past e := by
  rcases e with _ | _ | _ | _
  · trivial
  all_goals cases h

theorem Event.Quiet.not_finalizes (h : e.Quiet) : ¬e.Finalizes := by
  rcases e with ⟨request, ok, stored⟩ | _ | _ | _
  · cases request with
    | write reg data => exact h.1
    | _ => exact id
  all_goals exact id

/-- The checksum that the host has is that of the chunks whose verification has been read. -/
def HostKept (past : List Event) : Event → Prop
  | .verify rxlen crc expectedRx host =>
      host = crc32 (verified (.verify rxlen crc expectedRx host :: past))
  | _ => True

/-- If the chunks that have been verified have the checksum of all of them, what is not compared is
right just if all that has been read back is. -/
def Linked (past : List Event) : Prop :=
  Throughout Complete past → (Throughout Right past ↔ Throughout Attests past)

/-- What holds of the past of every update. -/
structure Sound (file : List UInt8) (past : List Event) : Prop where
  laid : Laid file (registers past).committed
  kept : Throughout HostKept past
  finalized : Throughout (fun past e => e.Finalizes → sent past = file ∧ Linked past) past

theorem Event.Quiet.kept (h : e.Quiet) : HostKept past e := by
  rcases e with _ | _ | _ | _
  · trivial
  · cases h
  all_goals trivial

theorem Linked.quiet (h : Linked past) (hes : ∀ e ∈ es, e.Quiet) : Linked (es ++ past) := by
  unfold Linked
  rw [throughout_append fun e he past => (hes e he).complete,
    throughout_append fun e he past => (hes e he).right,
    throughout_append fun e he past => (hes e he).attests]
  exact h

theorem Sound.quiet (h : Sound file past) (hes : ∀ e ∈ es, e.Quiet) : Sound file (es ++ past) where
  laid := by
    rw [committed_quiet hes]
    exact h.laid
  kept := (throughout_append fun e he past => (hes e he).kept).2 h.kept
  finalized := (throughout_append fun e he past hfinalizes =>
    absurd hfinalizes (hes e he).not_finalizes).2 h.finalized

end Invariant

section Chunks

variable {device : Device} {file : List UInt8} {offset : ℕ} {host : UInt32} {data : List UInt8}
  {bus : Bus} {es : List Event}

/-- Everything before the place in the file has been committed. -/
structure Placed (file : List UInt8) (offset : ℕ) (host : UInt32) (past : List Event) : Prop where
  sound : Sound file past
  sent : sent past = file.take offset
  le : offset ≤ file.length
  aligned : offset < file.length → ∀ c ∈ (registers past).committed, 8 ∣ c.data.length
  host : host = crc32 (verified past)

/-- And it is known when all that has been read back is right. -/
structure AtOffset (file : List UInt8) (offset : ℕ) (host : UInt32) (past : List Event) : Prop
    extends Placed file offset host past where
  linked : Linked past

/-- The update has ended early, and not because of a device that is right. -/
def Refused (file : List UInt8) (message : String) (bus : Bus) : Prop :=
  Sound file bus.past ∧ (Throughout Right bus.past → Throughout Complete bus.past →
    message ≠ "Verify mismatch after commit" ∧ message ≠ "Aux length mismatch before finalize")

theorem Placed.quiet {past : List Event} (h : Placed file offset host past)
    (hes : ∀ e ∈ es, e.Quiet) : Placed file offset host (es ++ past) where
  sound := h.sound.quiet hes
  sent := (sent_quiet hes).trans h.sent
  le := h.le
  aligned hlt := by
    rw [committed_quiet hes]
    exact h.aligned hlt
  host := by
    rw [verified_quiet hes]
    exact h.host

theorem AtOffset.quiet {past : List Event} (h : AtOffset file offset host past)
    (hes : ∀ e ∈ es, e.Quiet) : AtOffset file offset host (es ++ past) :=
  ⟨h.toPlaced.quiet hes, h.linked.quiet hes⟩

theorem Placed.event {past : List Event} {e : Event} (h : Placed file offset host past)
    (hregs : registers (e :: past) = registers past) (hverified : verified (e :: past) = verified past)
    (hkept : HostKept past e) (hfinal : ¬e.Finalizes) : Placed file offset host (e :: past) where
  sound := ⟨by rw [hregs]; exact h.sound.laid, ⟨hkept, h.sound.kept⟩,
    ⟨fun hfinalizes => absurd hfinalizes hfinal, h.sound.finalized⟩⟩
  sent := by
    rw [Companion.sent, hregs]
    exact h.sent
  le := h.le
  aligned hlt := by
    rw [hregs]
    exact h.aligned hlt
  host := by
    rw [hverified]
    exact h.host

theorem Placed.refused {message : String} (h : Placed file offset host bus.past)
    (hmessage : message ≠ "Verify mismatch after commit" ∧
      message ≠ "Aux length mismatch before finalize") : Refused file message bus :=
  ⟨h.sound, fun _ _ => hmessage⟩

theorem write_ends {reg : UInt8} {Q : Bool → Bus → Prop} {E : String → Bus → Prop}
    (hreg : reg ≠ REG_CMD)
    (hok : ∀ es, (∀ e ∈ es, e.Quiet) →
      registers (es ++ bus.past) = (registers bus.past).write reg data → Q true (bus.add es))
    (hfail : ∀ es, (∀ e ∈ es, e.Quiet) → Q false (bus.add es)) :
    Ends (i2cWriteMemRetry device reg data) bus Q E := by
  have hquiet : ∀ {e}, WriteFails reg data e → e.Quiet :=
    fun he => .of_writeFails he fun h => hreg h.1
  refine i2cWriteMemRetry_ends (fun failed hfailed => hok _ (fun e he => ?_) ?_)
    fun failed hfailed => hfail failed fun e he => hquiet (hfailed e he)
  · rcases List.mem_cons.1 he with rfl | he
    · exact ⟨fun h => hreg h.1, fun _ h => hreg h.1⟩
    · exact hquiet (hfailed e he)
  · rw [List.cons_append, registers, registers_idle fun e he => .of_writeFails (hfailed e he)]

theorem read_ends {reg : UInt8} {buffer : List UInt8} {Q : Bool × List UInt8 → Bus → Prop}
    {E : String → Bus → Prop} (hreg : reg ≠ REG_RECV_LEN ∧ reg ≠ REG_ROLL_CRC32)
    (h : ∀ es ok stored, (∀ e ∈ es, e.Quiet ∧ e.Idle) → Q (ok, stored) (bus.add es)) :
    Ends (i2cReadMemRetry device reg buffer) bus Q E := by
  have hquiet : ∀ {e}, ReadFails reg buffer.length e → e.Quiet ∧ e.Idle :=
    fun he => ⟨.of_readFails he, .of_readFails he⟩
  refine i2cReadMemRetry_ends (fun failed stored hfailed _ => h _ _ _ fun e he => ?_)
    fun failed stored hfailed _ => h _ _ _ fun e he => hquiet (hfailed e he)
  rcases List.mem_cons.1 he with rfl | he
  · exact ⟨fun _ => hreg, trivial⟩
  · exact hquiet (hfailed e he)

theorem readU8_ends {reg out : UInt8} {Q : Bool × UInt8 → Bus → Prop}
    {E : String → Bus → Prop} (hreg : reg ≠ REG_RECV_LEN ∧ reg ≠ REG_ROLL_CRC32)
    (h : ∀ es ok st, (∀ e ∈ es, e.Quiet ∧ e.Idle) → Q (ok, st) (bus.add es)) :
    Ends (updaterReadU8 device reg out) bus Q E :=
  Ends.next (read_ends hreg fun es ok _ hes => Ends.pure (h es ok _ hes))

theorem forall_append {p : Event → Prop} {es es' : List Event} (h : ∀ e ∈ es, p e)
    (h' : ∀ e ∈ es', p e) : ∀ e ∈ es' ++ es, p e :=
  fun e he => (List.mem_append.1 he).elim (h' e) (h e)

theorem peekChunk_ends {Q : Unit → Bus → Prop} {E : String → Bus → Prop}
    (h : ∀ es, (∀ e ∈ es, e.Quiet ∧ e.Idle) → Q () (bus.add es)) :
    Ends (peekChunk device data) bus Q E := by
  refine Ends.next (read_ends (by decide) fun es _ _ hes => ?_)
  refine Ends.next (read_ends (by decide) fun es₂ _ _ hes₂ => ?_)
  refine Ends.next (read_ends (by decide) fun es₃ _ _ hes₃ => ?_)
  refine Ends.next (read_ends (by decide) fun es₄ _ _ hes₄ => Ends.pure ?_)
  simp only [Bus.add_add]
  exact h _ (forall_append (forall_append (forall_append hes hes₂) hes₃) hes₄)

theorem pollCommit_ends {Q : UInt8 → Bus → Prop} {E : String → Bus → Prop} :
    ∀ (polls : ℕ) (st : UInt8) (bus : Bus),
      (∀ es st, (∀ e ∈ es, e.Quiet) → Q st (bus.add es)) →
      (∀ es, (∀ e ∈ es, e.Quiet) → E "Aux reported CRC/commit error" (bus.add es)) →
      Ends (pollCommit device polls st) bus Q E
  | 0, st, bus, h, _ => Ends.pure (h [] st (by simp))
  | polls + 1, st, bus, h, hE => by
    refine Ends.next (readU8_ends (by decide) fun es ok st hes => ?_)
    have hquiet := fun e he => (hes e he).1
    have hrest : Ends (pollCommit device polls st) (bus.add es) Q E := by
      refine pollCommit_ends polls st (bus.add es) (fun es' st' hes' => ?_) fun es' hes' => ?_
      · rw [Bus.add_add]
        exact h _ _ (forall_append hquiet hes')
      · rw [Bus.add_add]
        exact hE _ (forall_append hquiet hes')
    refine Ends.ite (fun _ => hrest) fun _ => Ends.ite (fun _ => Ends.pure (h _ _ hquiet)) fun _ =>
      Ends.ite (fun _ => ?_) fun _ => hrest
    refine Ends.next (readU8_ends (by decide) fun es₂ _ _ hes₂ => ?_)
    refine Ends.next (read_ends (by decide) fun es₃ _ _ hes₃ => ?_)
    refine Ends.next (read_ends (by decide) fun es₄ _ _ hes₄ => Ends.throw ?_)
    simp only [Bus.add_add]
    exact hE _ fun e he => (forall_append (forall_append (forall_append hes hes₂) hes₃) hes₄ e he).1

theorem AtOffset.commit {past : List Event} (h : AtOffset file offset host past)
    (hlt : offset < file.length) (hdata : data <+: file.drop offset)
    (hlength : data.length = chunkLen (file.length - offset))
    (hchunk : (registers past).chunkOffset = offset ∧
      (registers past).data.take (registers past).chunkLen = data) :
    AtOffset file (offset + data.length) host
      (.transfer (.write REG_CMD [CMD_COMMIT_CHUNK]) true [] :: past) := by
  have hcommitted : (registers (.transfer (.write REG_CMD [CMD_COMMIT_CHUNK]) true [] ::
      past)).committed = ⟨offset, data⟩ :: (registers past).committed := by
    rw [← hchunk.1, ← hchunk.2]
    rfl
  have hpos := chunkLen_pos (Nat.sub_pos_of_lt hlt)
  have hle := chunkLen_le (file.length - offset)
  have hfinal : ¬(REG_CMD = REG_CMD ∧ [CMD_COMMIT_CHUNK] = [CMD_FINALIZE]) := by decide
  refine ⟨⟨⟨?_, ⟨trivial, h.sound.kept⟩, ⟨fun hfinalizes => absurd hfinalizes hfinal,
    h.sound.finalized⟩⟩, ?_, by omega, ?_, h.host⟩, ?_⟩
  · rw [hcommitted]
    refine ⟨?_, List.ne_nil_of_length_pos (show 0 < data.length by omega), hdata, h.aligned hlt, h.sound.laid⟩
    show offset = (Companion.sent past).length
    rw [h.sent, List.length_take]
    exact (Nat.min_eq_left h.le).symm
  · rw [Companion.sent, hcommitted]
    show Companion.sent past ++ data = _
    rw [h.sent, List.prefix_iff_eq_take.1 hdata, List.take_add, List.length_take, List.length_drop]
    congr 2
    omega
  · intro hlt' c hc
    rw [hcommitted] at hc
    rcases List.mem_cons.1 hc with rfl | hc
    · show 8 ∣ data.length
      rw [hlength] at hlt' ⊢
      exact dvd_chunkLen (by omega)
    · exact h.aligned hlt c hc
  · intro hcomplete
    rw [Throughout, Throughout, h.linked hcomplete.2]
    exact and_congr (iff_of_true trivial trivial) Iff.rfl

theorem registers_chunk (r : Registers) (crc : List UInt8) (hoffset : offset < 256 ^ 4)
    (hlength : data.length < 256) :
    ((((r.write REG_CHUNK_OFFSET (bitLibNumToBytesLe offset 4)).write REG_CHUNK_LEN
      [data.length.toUInt8]).write REG_CHUNK_CRC16 crc).write REG_DATA data).chunkOffset = offset ∧
    ((((r.write REG_CHUNK_OFFSET (bitLibNumToBytesLe offset 4)).write REG_CHUNK_LEN
      [data.length.toUInt8]).write REG_CHUNK_CRC16 crc).write REG_DATA data).data.take
      ((((r.write REG_CHUNK_OFFSET (bitLibNumToBytesLe offset 4)).write REG_CHUNK_LEN
        [data.length.toUInt8]).write REG_CHUNK_CRC16 crc).write REG_DATA data).chunkLen = data := by
  refine ⟨bytesToNum_numToBytes offset 4 hoffset, ?_⟩
  show (data ++ r.data.drop data.length).take (bitLibBytesToNumLe [data.length.toUInt8]) = data
  have hlen : bitLibBytesToNumLe [data.length.toUInt8] = data.length := by
    simp [bitLibBytesToNumLe]
    omega
  rw [hlen, List.take_left]

theorem commitChunk_ends (h : AtOffset file offset host bus.past)
    (hfile : file.length ≤ 0xC000) (hlt : offset < file.length) (hdata : data <+: file.drop offset)
    (hlength : data.length = chunkLen (file.length - offset)) :
    Ends (commitChunk device offset data) bus
      (fun _ bus' => AtOffset file (offset + data.length) host bus'.past ∧
        lastSent bus'.past = data ∧ bus'.position = bus.position) (Refused file) := by
  have hle := chunkLen_le (file.length - offset)
  refine Ends.next (write_ends (by decide) (fun es hes hregs => ?_)
    fun es hes => Ends.throw (Placed.refused (h.quiet hes).toPlaced (by decide)))
  refine Ends.next (write_ends (by decide) (fun es₂ hes₂ hregs₂ => ?_)
    fun es₂ hes₂ => Ends.throw (Placed.refused ((h.quiet hes).quiet hes₂).toPlaced (by decide)))
  refine Ends.next (write_ends (by decide) (fun es₃ hes₃ hregs₃ => ?_)
    fun es₃ hes₃ => Ends.throw (Placed.refused (((h.quiet hes).quiet hes₂).quiet hes₃).toPlaced
      (by decide)))
  have h₃ := ((h.quiet hes).quiet hes₂).quiet hes₃
  refine Ends.next (write_ends (by decide) (fun es₄ hes₄ hregs₄ => ?_)
    fun es₄ hes₄ => Ends.throw (Placed.refused (h₃.quiet hes₄).toPlaced (by decide)))
  have h₄ := h₃.quiet hes₄
  refine Ends.next (peekChunk_ends fun es₅ hes₅ => ?_)
  have h₅ := h₄.quiet fun e he => (hes₅ e he).1
  refine Ends.next (i2cWriteMemRetry_ends (fun failed hfailed => ?_) fun failed hfailed => ?_)
  · have hquiet : ∀ e ∈ failed, e.Quiet :=
      fun e he => .of_writeFails (hfailed e he) fun h => absurd h (by decide)
    have hregs₆ : registers (failed ++ (es₅ ++ (es₄ ++ (es₃ ++ (es₂ ++ (es ++ bus.past)))))) =
        ((((registers bus.past).write REG_CHUNK_OFFSET (bitLibNumToBytesLe offset 4)).write
          REG_CHUNK_LEN [data.length.toUInt8]).write REG_CHUNK_CRC16
            (bitLibNumToBytesLe (crc16X25 data).toNat 2)).write REG_DATA data := by
      rw [registers_idle fun e he => .of_writeFails (hfailed e he),
        registers_idle fun e he => (hes₅ e he).2]
      simp only [Bus.add_past] at hregs₂ hregs₃ hregs₄
      rw [hregs₄, hregs₃, hregs₂, hregs]
    refine Ends.next (readU8_ends (by decide) fun es₆ _ _ hes₆ => Ends.pure ?_)
    have hcommit := (h₅.quiet hquiet).commit hlt hdata hlength (by
      rw [hregs₆]
      exact registers_chunk _ _ (by omega) (by omega))
    have hquiet₆ : ∀ e ∈ es₆, e.Quiet := fun e he => (hes₆ e he).1
    refine ⟨hcommit.quiet hquiet₆, ?_, rfl⟩
    show lastSent (es₆ ++ _) = data
    rw [lastSent_quiet hquiet₆]
    have hchunk := (registers_chunk (registers bus.past) (bitLibNumToBytesLe (crc16X25 data).toNat 2)
      (show offset < 256 ^ 4 by omega) (show data.length < 256 by omega)).2
    rw [← hregs₆] at hchunk
    exact hchunk
  · exact Ends.throw (Placed.refused (h₅.quiet fun e he =>
      .of_writeFails (hfailed e he) fun h => absurd h (by decide)).toPlaced (by decide))

theorem right_length {past : List Event} {n : ℕ} {stored : List UInt8} :
    Right past (.transfer (.read REG_RECV_LEN n) true stored) ↔
      bitLibBytesToNumLe stored = (sent past).length :=
  ⟨fun h => h.1 rfl, fun h => ⟨fun _ => h, fun h => absurd h (by decide)⟩⟩

theorem right_crc {past : List Event} {n : ℕ} {stored : List UInt8} :
    Right past (.transfer (.read REG_ROLL_CRC32 n) true stored) ↔
      (bitLibBytesToNumLe stored).toUInt32 = crc32 (sent past) :=
  ⟨fun h => h.2 rfl, fun h => ⟨fun h => absurd h (by decide), fun _ => h⟩⟩

theorem AtOffset.length_sent {past : List Event} (h : AtOffset file offset host past) :
    (Companion.sent past).length = offset := by
  rw [h.sent, List.length_take]
  exact Nat.min_eq_left h.le

theorem Placed.read {past : List Event} {reg : UInt8} {n : ℕ} {stored : List UInt8}
    (h : Placed file offset host past) :
    Placed file offset host (.transfer (.read reg n) true stored :: past) :=
  h.event rfl rfl trivial id

theorem Placed.verify {past : List Event} {rxlen expectedRx : ℕ} {crc : UInt32}
    (h : Placed file offset host past) :
    Placed file offset (crc32StepHost host (lastSent past))
      (.verify rxlen crc expectedRx (crc32StepHost host (lastSent past)) :: past) := by
  have hhost : crc32StepHost host (lastSent past) = crc32 (verified past ++ lastSent past) := by
    rw [h.host, crc32StepHost_crc32]
  exact ⟨⟨h.sound.laid, ⟨hhost, h.sound.kept⟩, ⟨fun hfinalizes => hfinalizes.elim,
    h.sound.finalized⟩⟩, h.sent, h.le, h.aligned, hhost⟩

theorem right_quiet {past : List Event} (hes : ∀ e ∈ es, e.Quiet) :
    Throughout Right (es ++ past) ↔ Throughout Right past :=
  throughout_append fun e he _ => (hes e he).right

theorem complete_quiet {past : List Event} (hes : ∀ e ∈ es, e.Quiet) :
    Throughout Complete (es ++ past) ↔ Throughout Complete past :=
  throughout_append fun e he _ => (hes e he).complete

theorem attests_quiet {past : List Event} (hes : ∀ e ∈ es, e.Quiet) :
    Throughout Attests (es ++ past) ↔ Throughout Attests past :=
  throughout_append fun e he _ => (hes e he).attests

theorem read_length {past : List Event} {n : ℕ} {stored : List UInt8} (hes : ∀ e ∈ es, e.Quiet) :
    let past' := es ++ Event.transfer (.read REG_RECV_LEN n) true stored :: past
    sent past' = sent past ∧
    (Throughout Right past' ↔
      bitLibBytesToNumLe stored = (sent past).length ∧ Throughout Right past) ∧
    (Throughout Complete past' ↔ Throughout Complete past) ∧
    (Throughout Attests past' ↔ Throughout Attests past) := by
  refine ⟨sent_quiet hes, ?_, (complete_quiet hes).trans (and_iff_right trivial),
    (attests_quiet hes).trans (and_iff_right trivial)⟩
  rw [right_quiet hes, Throughout, right_length]

theorem verifyChunk_ends (h : AtOffset file (offset + data.length) host bus.past)
    (hlast : lastSent bus.past = data) :
    Ends (verifyChunk device offset data host) bus
      (fun host' bus' => AtOffset file (offset + data.length) host' bus'.past ∧
        bus'.position = bus.position) (Refused file) := by
  refine Ends.next (i2cReadMemRetry_ends (fun es rxlen hes _ => ?_) fun es rxlen hes _ => ?_)
  · have h₁ := h.quiet (quiet_all hes)
    refine Ends.next (i2cReadMemRetry_ends (fun es₂ crc hes₂ _ => ?_) fun es₂ crc hes₂ _ => ?_)
    · obtain ⟨hsent, hright, hcomplete, hattests⟩ :=
        @read_length es₂ (es ++ bus.past) 4 rxlen (quiet_all hes₂)
      have hlast' : lastSent (Event.transfer (.read REG_ROLL_CRC32 4) true crc ::
          (es₂ ++ Event.transfer (.read REG_RECV_LEN 4) true rxlen :: (es ++ bus.past))) = data := by
        exact (lastSent_quiet (quiet_all hes₂)).trans ((lastSent_quiet (quiet_all hes)).trans hlast)
      have hlen : (sent (es ++ bus.past)).length = offset + data.length := h₁.length_sent
      have hplaced : Placed file (offset + data.length) host
          (Event.transfer (.read REG_ROLL_CRC32 4) true crc ::
            (es₂ ++ Event.transfer (.read REG_RECV_LEN 4) true rxlen :: (es ++ bus.past))) :=
        ((h₁.toPlaced.read).quiet (quiet_all hes₂)).read
      have hverify := @Placed.verify file _ host _ (bitLibBytesToNumLe rxlen)
        (offset + data.length) (bitLibBytesToNumLe crc).toUInt32 hplaced
      rw [hlast'] at hverify
      refine Ends.next (note_ends (Ends.ite (fun hmismatch => Ends.throw ⟨hverify.sound,
        fun hR hC => absurd hmismatch ?_⟩) fun hmatch => Ends.pure ⟨⟨hverify, fun hC => ?_⟩, rfl⟩))
      · -- a device that is right has the length and the checksum that are expected
        have hrx := (hright.1 hR.2.2).1.trans hlen
        have hcrc := right_crc.1 hR.2.1
        have hhost := hverify.host.trans (hC.1 hrx)
        exact not_or.2 ⟨not_not.2 hrx, not_not.2 (hcrc.trans hhost.symm)⟩
      · obtain ⟨hrx, hcrc⟩ := not_or.1 hmatch
        have hcrc' := (not_not.1 hcrc).trans (hverify.host.trans (hC.1 (not_not.1 hrx)))
        have hlinked := h₁.linked (hcomplete.1 hC.2.2)
        refine (and_iff_right trivial).trans ((and_iff_right ((@right_crc _ 4 crc).2 hcrc')).trans ?_)
        refine hright.trans ((and_iff_right ((not_not.1 hrx).trans hlen.symm)).trans ?_)
        exact (hlinked.trans hattests.symm).trans ((and_iff_right trivial).trans
          (and_iff_right trivial)).symm
    · obtain ⟨hsent, hright, hcomplete, hattests⟩ :=
        @read_length es₂ (es ++ bus.past) 4 rxlen (quiet_all hes₂)
      refine Ends.next (note_ends (Ends.pure ⟨⟨((h₁.toPlaced.read).quiet (quiet_all hes₂)).event rfl
        rfl trivial id, fun hall => ?_⟩, rfl⟩))
      have hlinked := h₁.linked (hcomplete.1 hall.2)
      refine (and_iff_right trivial).trans (hright.trans (and_congr ?_ (hlinked.trans hattests.symm)))
      rw [← hsent]
      rfl
  · refine Ends.next (note_ends (Ends.pure ⟨⟨(h.toPlaced.quiet (quiet_all hes)).event rfl rfl trivial
      id, fun hcomplete => ?_⟩, rfl⟩))
    exact and_congr Iff.rfl ((h.quiet (quiet_all hes)).linked hcomplete.2)

theorem readRollingCrc_ends {rollingCrc : UInt32} (h : AtOffset file offset host bus.past) :
    Ends (readRollingCrc device rollingCrc) bus
      (fun _ bus' => AtOffset file offset host bus'.past ∧ bus'.position = bus.position)
      (Refused file) := by
  refine Ends.next (i2cReadMemRetry_ends (fun es crc hes _ => ?_) fun es crc hes _ => ?_)
  · have h₁ := h.quiet (quiet_all hes)
    refine Ends.next (note_ends (Ends.pure ⟨⟨(h₁.toPlaced.read).event rfl rfl trivial id,
      fun hcomplete => ?_⟩, rfl⟩))
    have hlinked := h₁.linked hcomplete.2.2
    refine (and_iff_right trivial).trans (and_congr right_crc (hlinked.trans ?_))
    exact (and_iff_right trivial).symm
  · exact Ends.pure ⟨h.quiet (quiet_all hes), rfl⟩

variable {firmware : Firmware}

theorem sendChunk_ends {rollingCrc : UInt32}
    (h : AtOffset firmware.bytes offset host bus.past) (hposition : bus.position = offset)
    (hfile : firmware.bytes.length ≤ 0xC000) (hlt : offset < firmware.bytes.length) :
    Ends (sendChunk device firmware firmware.bytes.length offset rollingCrc host) bus
      (fun r bus' => AtOffset firmware.bytes
          (offset + chunkLen (firmware.bytes.length - offset)) r.2 bus'.past ∧
        bus'.position = offset + chunkLen (firmware.bytes.length - offset))
      (Refused firmware.bytes) := by
  refine Ends.next (Ends.next (Ends.get (Ends.next (Ends.modify (Ends.pure ?_)))))
  refine Ends.ite (fun _ => Ends.throw (Placed.refused h.toPlaced (by decide))) fun hread => ?_
  rw [hposition] at hread ⊢
  have hlength := not_not.1 hread
  refine Ends.ite (fun _ => Ends.throw (Placed.refused h.toPlaced (by decide))) fun _ => ?_
  refine Ends.bind (commitChunk_ends h hfile hlt (List.take_prefix _ _) hlength) ?_
  rintro - bus₁ ⟨h₁, hlast, hposition₁⟩
  refine Ends.next (pollCommit_ends _ _ _ (fun es st hes => ?_) fun es hes => ?_)
  · refine Ends.ite (fun _ => Ends.throw (Placed.refused (h₁.quiet hes).toPlaced (by decide)))
      fun _ => ?_
    refine Ends.bind (verifyChunk_ends (h₁.quiet hes) ((lastSent_quiet hes).trans hlast)) ?_
    rintro host' bus₂ ⟨h₂, hposition₂⟩
    refine Ends.bind (readRollingCrc_ends h₂) ?_
    rintro rollingCrc' bus₃ ⟨h₃, hposition₃⟩
    rw [hlength] at h₃
    exact Ends.pure ⟨h₃, hposition₃.trans (hposition₂.trans (hposition₁.trans
      (congrArg (offset + ·) hlength)))⟩
  · exact Placed.refused (h₁.quiet hes).toPlaced (by decide)

theorem sendChunks_ends (hfile : firmware.bytes.length ≤ 0xC000) :
    ∀ (chunks offset : ℕ) (bus : Bus) (rollingCrc host : UInt32),
      firmware.bytes.length ≤ offset + chunks →
      AtOffset firmware.bytes offset host bus.past → bus.position = offset →
      Ends (sendChunks device firmware firmware.bytes.length chunks offset rollingCrc host) bus
        (fun _ bus' => ∃ host', AtOffset firmware.bytes firmware.bytes.length host' bus'.past)
        (Refused firmware.bytes)
  | 0, offset, bus, _, host, hchunks, h, _ =>
    Ends.pure ⟨host, le_antisymm h.le hchunks ▸ h⟩
  | chunks + 1, offset, bus, _, host, hchunks, h, hposition => by
    refine Ends.ite (fun hend => Ends.pure ⟨host, ?_⟩) fun hend => ?_
    · have hge : firmware.bytes.length ≤ offset := by simpa using hend
      exact le_antisymm h.le hge ▸ h
    · have hlt : offset < firmware.bytes.length := by simpa using hend
      have hpos := chunkLen_pos (Nat.sub_pos_of_lt hlt)
      refine Ends.bind (sendChunk_ends h hposition hfile hlt) ?_
      rintro ⟨rollingCrc', host'⟩ bus' ⟨h', hposition'⟩
      exact sendChunks_ends hfile chunks _ bus' rollingCrc' host' (by omega) h' hposition'

end Chunks

section Finalize

variable {device : Device} {firmware : Firmware} {file : List UInt8} {host : UInt32} {bus : Bus}
  {es base : List Event}

theorem checkLength_ends (h : AtOffset file file.length host bus.past) :
    Ends (checkLength device file.length) bus
      (fun _ bus' => AtOffset file file.length host bus'.past) (Refused file) := by
  refine Ends.next (i2cReadMemRetry_ends (fun es rxlen hes _ => ?_) fun es rxlen hes _ => ?_)
  · have h₁ := h.quiet (quiet_all hes)
    have hread := @Placed.read _ _ _ _ REG_RECV_LEN 4 rxlen h₁.toPlaced
    refine Ends.ite (fun hmismatch => Ends.throw ⟨hread.sound, fun hR _ => ?_⟩) fun hmatch =>
      Ends.pure ⟨hread, fun hC => ?_⟩
    · have hrx := (right_length.1 hR.1).trans h₁.length_sent
      simp [hrx] at hmismatch
    · have hrx : bitLibBytesToNumLe rxlen = file.length := by simpa using hmatch
      refine (and_iff_right ((@right_length _ 4 rxlen).2 (hrx.trans h₁.length_sent.symm))).trans ?_
      exact (h₁.linked hC.2).trans (and_iff_right trivial).symm
  · exact Ends.ite (fun h => by simp at h) fun _ => Ends.pure (h.quiet (quiet_all hes))

theorem AtOffset.finalizes {past : List Event} {ok : Bool}
    (h : AtOffset file file.length host past) :
    AtOffset file file.length host (.transfer (.write REG_CMD [CMD_FINALIZE]) ok [] :: past) := by
  have hsent : Companion.sent past = file := h.sent.trans List.take_length
  have hcommitted : (registers (.transfer (.write REG_CMD [CMD_FINALIZE]) ok [] ::
      past)).committed = (registers past).committed := by
    cases ok with
    | true => exact committed_write (by decide)
    | false => rfl
  refine ⟨⟨⟨?_, ⟨trivial, h.sound.kept⟩, ⟨fun _ => ⟨hsent, h.linked⟩, h.sound.finalized⟩⟩, ?_, h.le,
    fun hlt => absurd hlt (lt_irrefl _), h.host⟩, fun hC => ?_⟩
  · rw [hcommitted]
    exact h.sound.laid
  · rw [Companion.sent, hcommitted]
    exact h.sent
  · exact and_congr Iff.rfl (h.linked hC.2)

theorem AtOffset.finalizing {past : List Event} (h : AtOffset file file.length host past) :
    ∀ {failed : List Event}, (∀ e ∈ failed, WriteFails REG_CMD [CMD_FINALIZE] e) →
      AtOffset file file.length host (failed ++ past)
  | [], _ => h
  | e :: failed, hfailed => by
    rw [List.cons_append, show e = _ from hfailed e List.mem_cons_self]
    exact (h.finalizing fun e he => hfailed e (List.mem_cons_of_mem _ he)).finalizes

/-- Transfers that read a register of one byte. -/
def Reads (reg : UInt8) (e : Event) : Prop :=
  ReadFails reg 1 e ∨ ∃ st, e = .transfer (.read reg 1) true [st]

theorem Reads.quiet {reg : UInt8} {e : Event} (hreg : reg ≠ REG_RECV_LEN ∧ reg ≠ REG_ROLL_CRC32)
    (h : Reads reg e) : e.Quiet := by
  rcases h with h | ⟨st, rfl⟩
  · exact .of_readFails h
  · exact fun _ => hreg

theorem readU8_stores {reg out : UInt8} {Q : Bool × UInt8 → Bus → Prop} {E : String → Bus → Prop}
    (h : ∀ es ok st, (∀ e ∈ es, Reads reg e) →
      (ok = true → .transfer (.read reg 1) true [st] ∈ es) →
      (st = out ∨ ∃ ok, .transfer (.read reg 1) ok [st] ∈ es) → Q (ok, st) (bus.add es)) :
    Ends (updaterReadU8 device reg out) bus Q E := by
  refine Ends.next (i2cReadMemRetry_ends (fun failed stored hfailed hstored => Ends.pure ?_)
    fun failed stored hfailed hkept => Ends.pure ?_)
  · obtain ⟨st, rfl⟩ := List.length_eq_one_iff.1 hstored
    refine h _ true st (fun e he => ?_) (fun _ => List.mem_cons_self) (.inr ⟨true, List.mem_cons_self⟩)
    rcases List.mem_cons.1 he with rfl | he
    · exact .inr ⟨st, rfl⟩
    · exact .inl (hfailed e he)
  · obtain ⟨st, rfl⟩ := List.length_eq_one_iff.1 hkept.1
    refine h failed false st (fun e he => .inl (hfailed e he)) nofun ?_
    rcases hkept.2 rfl with heq | hmem
    · exact .inl (List.head_eq_of_cons_eq heq)
    · exact .inr ⟨false, hmem⟩

/-- The status is that of a device that has been seen, and it has not answered as often in a row. -/
structure Watched (st : UInt8) (notReadyCount : ℕ) (after : List Event) : Prop where
  quiet : ∀ e ∈ after, e.Quiet
  st : st = ST_READY → ∃ ok, .transfer (.read REG_STATUS 1) ok [ST_READY] ∈ after
  absent : (probes after).take notReadyCount =
    List.replicate notReadyCount (.transfer .probe false [])

theorem Watched.reads {st st' reg : UInt8} {n : ℕ} {after : List Event} (h : Watched st n after)
    (hreg : reg ≠ REG_RECV_LEN ∧ reg ≠ REG_ROLL_CRC32) (hes : ∀ e ∈ es, Reads reg e)
    (hst : st' = st ∨ ∃ ok, .transfer (.read REG_STATUS 1) ok [st'] ∈ es) :
    Watched st' 0 (es ++ after) where
  quiet := forall_append h.quiet fun e he => (hes e he).quiet hreg
  st hready := by
    rcases hst with rfl | ⟨ok, hmem⟩
    · obtain ⟨ok, hmem⟩ := h.st hready
      exact ⟨ok, List.mem_append_right _ hmem⟩
    · rw [hready] at hmem
      exact ⟨ok, List.mem_append_left _ hmem⟩
  absent := rfl

theorem pollFinalize_ends {E : String → Bus → Prop} :
    ∀ (polls : ℕ) {st : UInt8} {notReadyCount : ℕ} {after : List Event} {bus : Bus},
      bus.past = after ++ base → Watched st notReadyCount after → notReadyCount ≤ 50 →
      Ends (pollFinalize device polls st notReadyCount) bus
        (fun r bus' => ∃ after, bus'.past = after ++ base ∧ (∀ e ∈ after, e.Quiet) ∧
          (r.1 = ST_READY ∨ r.2 = true → Seen after)) E
  | 0, st, n, after, bus, hpast, h, _ =>
    Ends.pure ⟨after, hpast, h.quiet, fun hseen => .inl (h.st (hseen.resolve_right (by simp)))⟩
  | polls + 1, st, n, after, bus, hpast, h, hn => by
    refine Ends.next (Ends.next (transfer_ends fun ok stored _ hstored => Ends.pure ?_))
    obtain rfl := List.length_eq_zero_iff.1 (Nat.le_zero.1 hstored)
    have hpast₁ : (bus.add [.transfer .probe ok []]).past =
        (.transfer .probe ok [] :: after) ++ base := by
      rw [Bus.add_past, hpast]
      rfl
    have hquiet₁ : ∀ e ∈ Event.transfer .probe ok [] :: after, e.Quiet := fun e he => by
      rcases List.mem_cons.1 he with rfl | he
      · trivial
      · exact h.quiet e he
    have hst₁ : st = ST_READY →
        ∃ ok', .transfer (.read REG_STATUS 1) ok' [ST_READY] ∈ Event.transfer .probe ok [] :: after :=
      fun hready => (h.st hready).imp fun _ => List.mem_cons_of_mem _
    cases ok with
    | false =>
      have hwatched : Watched st (n + 1) (.transfer .probe false [] :: after) :=
        ⟨hquiet₁, hst₁, congrArg (Event.transfer .probe false [] :: ·) h.absent⟩
      refine Ends.ite (fun _ => ?_) fun h => absurd rfl h
      refine Ends.ite (fun hgone => Ends.pure ⟨_, hpast₁, hquiet₁, fun _ => .inr (.inr ?_)⟩)
        fun hstill => pollFinalize_ends polls hpast₁ hwatched (by omega)
      have hn₁ : n + 1 = 51 := by omega
      rw [← hn₁]
      exact hwatched.absent
    | true =>
      have hwatched : Watched st 0 (.transfer .probe true [] :: after) := ⟨hquiet₁, hst₁, rfl⟩
      refine Ends.ite (fun h => by cases h) fun _ => ?_
      refine Ends.next (readU8_stores fun es ok st' hes _ hst' => ?_)
      have hwatched₂ := hwatched.reads (by decide) hes hst'
      have hpast₂ : ((bus.add [.transfer .probe true []]).add es).past =
          (es ++ .transfer .probe true [] :: after) ++ base := by
        rw [Bus.add_past, hpast₁, List.append_assoc]
      refine Ends.ite (fun _ => Ends.pure ⟨_, hpast₂, hwatched₂.quiet, fun hseen =>
        .inl (hwatched₂.st (hseen.resolve_right (by simp)))⟩) fun _ => ?_
      refine Ends.next (readU8_stores fun es₃ ok₃ flags hes₃ hflags _ => ?_)
      have hwatched₃ := hwatched₂.reads (by decide) hes₃ (.inl rfl)
      have hpast₃ : (((bus.add [.transfer .probe true []]).add es).add es₃).past =
          (es₃ ++ (es ++ .transfer .probe true [] :: after)) ++ base := by
        rw [Bus.add_past, hpast₂]
        simp
      refine Ends.ite (fun hdone => Ends.pure ⟨_, hpast₃, hwatched₃.quiet, fun _ =>
        .inr (.inl ⟨flags, ?_, ?_⟩)⟩) fun _ => pollFinalize_ends polls hpast₃ hwatched₃ (by omega)
      · simp only [Bool.and_eq_true] at hdone
        exact List.mem_append_left _ (hflags hdone.1)
      · simp only [Bool.and_eq_true, decide_eq_true_eq] at hdone
        exact hdone.2

theorem finalize_ends (h : AtOffset file file.length host bus.past) :
    Ends (finalize device) bus
      (fun _ bus' => Sound file bus'.past ∧ ∃ after before,
        bus'.past = after ++ .transfer (.write REG_CMD [CMD_FINALIZE]) true [] :: before ∧ Seen after)
      (Refused file) := by
  refine Ends.next (i2cWriteMemRetry_ends (fun failed hfailed => ?_) fun failed hfailed =>
    Ends.throw (Placed.refused (h.finalizing hfailed).toPlaced (by decide)))
  have h₁ := @AtOffset.finalizes _ _ _ true (h.finalizing hfailed)
  have hwatched : Watched 0xFF 0 [] := ⟨by simp, by decide, rfl⟩
  refine Ends.bind (pollFinalize_ends _ (List.nil_append _).symm hwatched (by decide)) ?_
  rintro ⟨st, doneSeen⟩ bus₂ ⟨after, hpast, hquiet, hseen⟩
  have h₂ : AtOffset file file.length host bus₂.past := by
    rw [hpast]
    exact h₁.quiet hquiet
  refine Ends.ite (fun _ => ?_) fun hfine => Ends.pure ⟨h₂.sound, after, _, hpast, hseen ?_⟩
  · refine Ends.next (readU8_ends (by decide) fun es₃ _ _ hes₃ => ?_)
    refine Ends.next (read_ends (by decide) fun es₄ _ _ hes₄ => ?_)
    refine Ends.next (read_ends (by decide) fun es₅ _ _ hes₅ => ?_)
    refine Ends.next (read_ends (by decide) fun es₆ _ _ hes₆ => Ends.throw ?_)
    have h₄ := (h₂.quiet fun e he => (hes₃ e he).1).quiet fun e he => (hes₄ e he).1
    have h₆ := (h₄.quiet fun e he => (hes₅ e he).1).quiet fun e he => (hes₆ e he).1
    exact Placed.refused h₆.toPlaced (by decide)
  · simpa [or_iff_not_imp_left] using hfine

theorem waitForReady_ends {Q : UInt8 → Bus → Prop} {E : String → Bus → Prop} :
    ∀ (tries : ℕ) (st : UInt8) (bus : Bus),
      (∀ es st, (∀ e ∈ es, e.Quiet) → Q st (bus.add es)) →
      Ends (waitForReady device tries st) bus Q E
  | 0, st, bus, h => Ends.pure (h [] st (by simp))
  | tries + 1, st, bus, h => by
    refine Ends.next (readU8_ends (by decide) fun es ok st hes => ?_)
    have hquiet := fun e he => (hes e he).1
    refine Ends.ite (fun _ => Ends.pure (h _ _ hquiet)) fun _ =>
      Ends.ite (fun _ => Ends.pure (h _ _ hquiet)) fun _ => ?_
    refine waitForReady_ends tries st (bus.add es) fun es' st' hes' => ?_
    rw [Bus.add_add]
    exact h _ _ (forall_append hquiet hes')

theorem AtOffset.start (file : List UInt8) : AtOffset file 0 0 [] :=
  ⟨⟨⟨trivial, trivial, trivial⟩, rfl, Nat.zero_le _, fun _ _ h => (List.not_mem_nil h).elim, rfl⟩,
    fun _ => Iff.rfl⟩

theorem performUpdate_ends (otg : Bool) :
    Ends (performUpdate device firmware otg) ⟨[], 0⟩
      (fun _ bus' => Sound firmware.bytes bus'.past ∧ ∃ after before,
        bus'.past = after ++ .transfer (.write REG_CMD [CMD_FINALIZE]) true [] :: before ∧ Seen after)
      (Refused firmware.bytes) := by
  have h := AtOffset.start firmware.bytes
  have hrefused : ∀ {message : String} {bus : Bus}, AtOffset firmware.bytes 0 0 bus.past →
      message ≠ "Verify mismatch after commit" ∧ message ≠ "Aux length mismatch before finalize" →
      Refused firmware.bytes message bus := fun h => Placed.refused h.toPlaced
  refine Ends.ite (fun _ => Ends.throw (hrefused h (by decide))) fun _ => ?_
  refine Ends.ite (fun _ => Ends.throw (hrefused h (by decide))) fun hsize => ?_
  refine Ends.ite (fun _ => Ends.throw (hrefused h (by decide))) fun _ => ?_
  refine Ends.next (Ends.next (transfer_ends fun ok stored _ _ => Ends.pure ?_))
  have h₁ : AtOffset firmware.bytes 0 0 ([.transfer .probe ok stored] ++ []) :=
    h.quiet fun e he => by
      rw [List.mem_singleton.1 he]
      trivial
  refine Ends.ite (fun _ => Ends.throw (hrefused h₁ (by decide))) fun _ => ?_
  refine Ends.next (write_ends (by decide) (fun es₂ hes₂ _ => ?_)
    fun es₂ hes₂ => Ends.throw (hrefused (h₁.quiet hes₂) (by decide)))
  have h₂ := h₁.quiet hes₂
  refine Ends.next (i2cWriteMemRetry_ends (fun failed hfailed => ?_) fun failed hfailed => ?_)
  · have h₃ : AtOffset firmware.bytes 0 0 (.transfer (.write REG_CMD [CMD_ENTER_READY]) true [] ::
        failed ++ (es₂ ++ [.transfer .probe ok stored])) :=
      h₂.quiet fun e he => by
        rcases List.mem_cons.1 he with rfl | he
        · exact ⟨by decide, fun _ => by decide⟩
        · exact .of_writeFails (hfailed e he) (by decide)
    refine Ends.next (waitForReady_ends _ _ _ fun es₄ st hes₄ => ?_)
    have h₄ := h₃.quiet hes₄
    refine Ends.ite (fun _ => Ends.throw (hrefused h₄ (by decide))) fun _ => ?_
    refine Ends.bind (sendChunks_ends (by omega) _ 0 _ 0 0 (by omega) h₄ rfl) ?_
    rintro rollingCrc bus₅ ⟨host, h₅⟩
    refine Ends.bind (checkLength_ends h₅) fun _ bus₆ h₆ => ?_
    exact Ends.bind (finalize_ends h₆) fun _ bus₇ h₇ => Ends.pure h₇
  · exact Ends.throw (hrefused (h₂.quiet fun e he => .of_writeFails (hfailed e he) (by decide))
      (by decide))

end Finalize

/-- What has to be right of the answers for an update to be faithful: wherever a checksum is compared
the chunks whose verification has been read have the checksum of everything that has been sent, and
when the device is asked to finalize the update, everything that has been read back without being
compared was right. -/
structure Attested (past : List Event) : Prop where
  complete : Throughout Complete past
  attests : Throughout (fun past e => e.Finalizes → Throughout Attests past) past

theorem Sound.compared_iff {file : List UInt8} {past : List Event} (h : Sound file past) :
    Throughout Compared past ↔ Throughout Complete past := by
  have hiff : ∀ past e, HostKept past e → (Compared past e ↔ Complete past e) := by
    intro past e hkept
    rcases e with _ | ⟨rxlen, crc, expectedRx, host⟩ | _ | _
    · exact Iff.rfl
    · rw [Compared, Complete, ← show host = _ from hkept]
    all_goals exact Iff.rfl
  exact ⟨fun hc => (h.kept.and hc).imp fun past e h => (hiff past e h.1).1 h.2,
    fun hc => (h.kept.and hc).imp fun past e h => (hiff past e h.1).2 h.2⟩

theorem Sound.finalized_iff {file : List UInt8} {past : List Event} (h : Sound file past)
    (hcomplete : Throughout Complete past) :
    Throughout (fun past e => e.Finalizes → sent past = file ∧ Throughout Right past) past ↔
      Throughout (fun past e => e.Finalizes → Throughout Attests past) past :=
  ⟨fun hr => ((h.finalized.and hcomplete.before).and hr).imp fun _ _ ⟨⟨h, hc⟩, hr⟩ hfinalizes =>
      ((h hfinalizes).2 hc).1 (hr hfinalizes).2,
    fun ha => ((h.finalized.and hcomplete.before).and ha).imp fun _ _ ⟨⟨h, hc⟩, ha⟩ hfinalizes =>
      ⟨(h hfinalizes).1, ((h hfinalizes).2 hc).2 (ha hfinalizes)⟩⟩

/-- An update does what it owes to the file just if what it does not compare is right. -/
theorem performUpdate_faithful_iff (device : Device) (firmware : Firmware) (otg : Bool) :
    let run := performUpdate device firmware otg ⟨[], 0⟩
    Faithful firmware.bytes run.2.past run.1 ↔ Attested run.2.past := by
  intro run
  obtain ⟨hok, herror⟩ := (@performUpdate_ends device firmware otg).of_run (Prod.mk.eta (p := run)).symm
  have hsound : Sound firmware.bytes run.2.past := by
    rcases hrun : run.1 with message | r
    · exact (herror message hrun).1
    · exact (hok r hrun).1
  refine ⟨fun h => ?_, fun h => ?_⟩
  · have hcomplete := hsound.compared_iff.1 h.compared
    exact ⟨hcomplete, (hsound.finalized_iff hcomplete).1 h.finalized⟩
  · refine ⟨hsound.laid, (hsound.finalized_iff h.complete).2 h.attests,
      hsound.compared_iff.2 h.complete, fun hright => ?_, fun r hr => (hok r hr).2⟩
    rcases hrun : run.1 with message | r
    · simpa using (herror message hrun).2 hright h.complete
    · simp

instance (past : List Event) : ∀ e, Decidable (Right past e)
  | .transfer (.read _ _) true _ => instDecidableAnd
  | .transfer (.read _ _) false _ => .isTrue trivial
  | .transfer (.write _ _) _ _ => .isTrue trivial
  | .transfer (.select _) _ _ => .isTrue trivial
  | .transfer .probe _ _ => .isTrue trivial
  | .verify _ _ _ _ => .isTrue trivial
  | .unverified _ => .isTrue trivial
  | .rolling _ => .isTrue trivial

/-- A device that is sent a file of nine bytes in two chunks. It reports the length and the checksum
of the file when it has both, and does not answer any request for them before. -/
def slowDevice : Device := fun past request =>
  match request with
  | .read reg _ =>
    if reg = REG_RECV_LEN then ⟨decide (40 < past.length), fun i => [9, 0, 0, 0].getD i 0, 0⟩
    else if reg = REG_ROLL_CRC32 then
      ⟨decide (40 < past.length), fun i => [51, 14, 24, 183].getD i 0, 0⟩
    else ⟨true, fun _ => ST_READY, 0⟩
  | _ => ⟨true, fun _ => 0, 0⟩

/-- A vector table and one more byte. -/
def nineBytes : Firmware := ⟨[0, 0, 0, 0x20, 0, 0, 0, 0x08, 7], true, fun _ => 32⟩

theorem slowDevice_refused :
    Throughout Right (performUpdate slowDevice nineBytes true ⟨[], 0⟩).2.past ∧
      (performUpdate slowDevice nineBytes true ⟨[], 0⟩).1 =
        .error "Verify mismatch after commit" := by
  decide +kernel

set_option linter.constructorNameAsVariable false in
/-- The checksum of the first chunk could not be read, and so that of the second one is refused. -/
theorem not_performUpdate_faithful : ¬∀ (device : Device) (firmware : Firmware) (otg : Bool),
    let run := performUpdate device firmware otg ⟨[], 0⟩
    Faithful firmware.bytes run.2.past run.1 := by
  intro h
  have hfaithful := h slowDevice nineBytes true
  obtain ⟨hright, hresult⟩ := slowDevice_refused
  generalize performUpdate slowDevice nineBytes true ⟨[], 0⟩ = run at *
  exact (hfaithful.accepted hright).1 hresult

end Companion

end KiisuFirmware
