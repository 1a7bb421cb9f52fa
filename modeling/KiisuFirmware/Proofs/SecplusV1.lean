import KiisuFirmware.SecplusV1
import KiisuFirmware.Proofs.SubGhzBlocks
import KiisuFirmware.Proofs.Protocol

/-!
# Security+ 1.0 messages are read back

Twenty digits tell numbers below `3 ^ 20`, which not all reversed counters are.
-/

namespace KiisuFirmware

/-- A word with its bits the other way around. -/
def reverseWord (word : BitVec 32) : BitVec 32 :=
  (subghzProtocolBlocksReverseKey (word.setWidth 64) 32).setWidth 32

theorem reverseWord_reverseWord (word : BitVec 32) : reverseWord (reverseWord word) = word := by
  have hbit : ∀ (word : BitVec 32) (i : ℕ), i < 32 →
      (reverseWord word).getLsbD i = word.getLsbD (31 - i) := by
    intro word i hi
    rw [reverseWord, BitVec.getLsbD_setWidth, getLsbD_reverseKey _ _ _ (by omega),
      BitVec.getLsbD_setWidth, decide_eq_true hi, decide_eq_true (by omega), Bool.true_and,
      Bool.true_and, Bool.true_and]
  refine BitVec.eq_of_getLsbD_eq fun i hi => ?_
  rw [hbit _ i hi, hbit _ _ (by omega), show 31 - (31 - i) = i by omega]

/-! ## Digits -/

theorem length_ternary : ∀ count value, (ternary count value).length = count
  | 0, _ => rfl
  | count + 1, value => by
    rw [ternary, List.length_append, length_ternary count, List.length_singleton]

theorem lt_of_mem_ternary {digit : ℕ} : ∀ {count value : ℕ}, digit ∈ ternary count value → digit < 3
  | count + 1, value, h => by
    rcases List.mem_append.1 h with h | h
    · exact lt_of_mem_ternary h
    · rw [List.mem_singleton.1 h]
      exact Nat.mod_lt _ (by norm_num)

/-- A word with some digits behind it. -/
def appendDigits (word : BitVec 32) (digits : List ℕ) : BitVec 32 :=
  digits.foldl (fun word digit => word * 3 + BitVec.ofNat 32 digit) word

theorem appendDigits_append (word : BitVec 32) (digits digits' : List ℕ) :
    appendDigits word (digits ++ digits') = appendDigits (appendDigits word digits) digits' :=
  List.foldl_append

theorem appendDigits_ternary : ∀ count value,
    appendDigits 0 (ternary count value) = BitVec.ofNat 32 (value % 3 ^ count)
  | 0, value => by
    rw [pow_zero, Nat.mod_one]
    rfl
  | count + 1, value => by
    rw [ternary, appendDigits_append, appendDigits_ternary count]
    show BitVec.ofNat 32 (value / 3 % 3 ^ count) * 3 + BitVec.ofNat 32 (value % 3) = _
    rw [show (3 : BitVec 32) = BitVec.ofNat 32 3 from rfl, ← BitVec.ofNat_mul, ← BitVec.ofNat_add,
      pow_succ, mul_comm (3 ^ count) 3, Nat.mod_mul, mul_comm, add_comm]

theorem length_encodePacket : ∀ acc digits,
    (secplusV1EncodePacket acc digits).length = 2 * digits.length
  | _, [] => rfl
  | acc, (rolling, fixed) :: digits => by
    rw [secplusV1EncodePacket, List.length_cons, List.length_cons, length_encodePacket,
      List.length_cons]
    omega

theorem lt_of_mem_encodePacket {digit : ℕ} : ∀ {acc : ℕ} {digits : List (ℕ × ℕ)},
    (∀ d ∈ digits, d.1 < 3) → digit ∈ secplusV1EncodePacket acc digits → digit < 3
  | acc, (rolling, fixed) :: digits, hdigits, h => by
    rcases List.mem_cons.1 h with rfl | h
    · exact hdigits _ List.mem_cons_self
    rcases List.mem_cons.1 h with rfl | h
    · exact Nat.mod_lt _ (by norm_num)
    · exact lt_of_mem_encodePacket (fun d hd => hdigits d (List.mem_cons_of_mem _ hd)) h

theorem decodePacket_encodePacket : ∀ {acc : ℕ} {rolling fixed : BitVec 32}
    {digits : List (ℕ × ℕ)}, (∀ d ∈ digits, d.1 < 3 ∧ d.2 < 3) → acc + 4 * digits.length ≤ 60 →
    secplusV1DecodePacket acc rolling fixed (secplusV1EncodePacket acc digits) =
      (appendDigits rolling (digits.map Prod.fst), appendDigits fixed (digits.map Prod.snd))
  | _, _, _, [], _, _ => rfl
  | acc, rolling, fixed, (r, f) :: digits, hdigits, hacc => by
    obtain ⟨hr, hf⟩ := hdigits _ List.mem_cons_self
    rw [List.length_cons] at hacc
    have hdigit : (60 + (acc + r + f) % 3 - (acc + r)) % 3 = f := by
      dsimp only at hr hf
      omega
    rw [secplusV1EncodePacket, secplusV1DecodePacket, hdigit, decodePacket_encodePacket (fun d hd => hdigits d (List.mem_cons_of_mem _ hd))
      (by dsimp only at hr hf; omega)]
    rfl

/-! ## What is sent of a packet -/

/-- How a digit is sent. -/
def digitPulses (digit : ℕ) : List LevelDuration :=
  [⟨false, SECPLUS_V1_TE_SHORT * (3 - digit)⟩, ⟨true, SECPLUS_V1_TE_SHORT * (digit + 1)⟩]

theorem secplusV1DigitUpload_of_lt {digit : ℕ} (h : digit < 3) :
    secplusV1DigitUpload digit = some (digitPulses digit) := by
  interval_cases digit <;> rfl

theorem mapM_secplusV1DigitUpload : ∀ {digits : List ℕ}, (∀ d ∈ digits, d < 3) →
    digits.mapM secplusV1DigitUpload = some (digits.map digitPulses)
  | [], _ => rfl
  | digit :: digits, h => by
    rw [List.mapM_cons, secplusV1DigitUpload_of_lt (h digit List.mem_cons_self),
      mapM_secplusV1DigitUpload fun d hd => h d (List.mem_cons_of_mem _ hd)]
    rfl

theorem secplusV1Packet_one {header : ℕ} {packet rest : List ℕ} (h : packet.length = 20) :
    secplusV1Packet (header :: packet ++ rest) SECPLUS_V1_PACKET_1_INDEX_BASE = packet := by
  show List.take 20 (packet ++ rest) = packet
  rw [← h, List.take_left]

theorem secplusV1Packet_two {header header' : ℕ} {packet packet' rest : List ℕ}
    (h : packet.length = 20) (h' : packet'.length = 20) :
    secplusV1Packet (header :: packet ++ header' :: packet' ++ rest)
      SECPLUS_V1_PACKET_2_INDEX_BASE = packet' := by
  have hdrop : (header :: packet ++ header' :: packet' ++ rest).drop 22 = packet' ++ rest := by
    rw [show 22 = (header :: packet ++ [header']).length by
      rw [List.length_append, List.length_cons, h, List.length_singleton]]
    rw [show header :: packet ++ header' :: packet' ++ rest =
      (header :: packet ++ [header']) ++ (packet' ++ rest) by simp]
    exact List.drop_left
  rw [secplusV1Packet, SECPLUS_V1_PACKET_2_INDEX_BASE, hdrop, ← h', List.take_left]

namespace SubGhzProtocolDecoderSecPlusV1

/-! ## What is read of a packet -/

variable {p : SubGhzProtocolDecoderSecPlusV1}

/-- What the decoder reads. -/
def readings (p : SubGhzProtocolDecoderSecPlusV1) (pulses : List LevelDuration) :
    List (BitVec 64) :=
  reads feed (fun p => p.generic.data) p pulses

theorem readings_cons (pulse : LevelDuration) (pulses : List LevelDuration) :
    p.readings (pulse :: pulses) =
      if (p.feed pulse).1 then (p.feed pulse).2.generic.data :: (p.feed pulse).2.readings pulses
      else (p.feed pulse).2.readings pulses := rfl

theorem feed_low {digit : ℕ} (hdigit : digit < 3) (hstep : p.parserStep = .saveDuration) :
    p.feed ⟨false, SECPLUS_V1_TE_SHORT * (3 - digit)⟩ =
      (false, { p with
        teLast := SECPLUS_V1_TE_SHORT * (3 - digit), parserStep := .decoderData }) := by
  have hgap : ¬Near (SECPLUS_V1_TE_SHORT * (3 - digit)) 120 := by
    interval_cases digit <;> decide
  rw [feed, hstep]
  simp only [if_true, if_neg hgap]

theorem feed_high {digit : ℕ} (hdigit : digit < 3) (hstep : p.parserStep = .decoderData)
    (hte : p.teLast = SECPLUS_V1_TE_SHORT * (3 - digit)) (hcount : p.decodeCountBit ≤ 21) :
    p.feed ⟨true, SECPLUS_V1_TE_SHORT * (digit + 1)⟩ = (false, p.store digit) := by
  rw [feed, hstep]
  dsimp only
  rw [if_pos ⟨rfl, hcount⟩, hte]
  interval_cases digit
  · rw [if_pos (by decide)]
  · rw [if_neg (by decide), if_pos (by decide)]
  · rw [if_neg (by decide), if_neg (by decide), if_pos (by decide)]

theorem readings_digits {rest : List LevelDuration} : ∀ {digits before slots after : List ℕ}
    {p : SubGhzProtocolDecoderSecPlusV1}, (∀ d ∈ digits, d < 3) → p.parserStep = .saveDuration →
    p.dataArray = before ++ slots ++ after → slots.length = digits.length →
    before.length = p.decodeCountBit + p.basePacketIndex →
    p.decodeCountBit + digits.length ≤ 21 →
    ∃ teLast, p.readings (digits.flatMap digitPulses ++ rest) = { p with
      teLast := teLast
      decodeCountBit := p.decodeCountBit + digits.length
      dataArray := before ++ digits ++ after
      parserStep := .saveDuration }.readings rest
  | [], before, slots, after, p, _, hstep, harray, hslots, _, _ => by
    obtain rfl := List.length_eq_zero_iff.1 hslots
    refine ⟨p.teLast, ?_⟩
    rw [← harray, ← hstep]
    rfl
  | digit :: digits, before, slots, after, p, hdigits, hstep, harray, hslots, hbefore, hcount => by
    obtain ⟨slot, slots, rfl⟩ := List.exists_cons_of_length_eq_add_one hslots
    rw [List.length_cons] at hcount hslots
    have hdigit := hdigits digit List.mem_cons_self
    set low : SubGhzProtocolDecoderSecPlusV1 := { p with
      teLast := SECPLUS_V1_TE_SHORT * (3 - digit), parserStep := .decoderData } with hlow
    have hhigh : low.feed ⟨true, SECPLUS_V1_TE_SHORT * (digit + 1)⟩ = (false, low.store digit) :=
      feed_high hdigit rfl rfl (by show p.decodeCountBit ≤ 21; omega)
    have hset : (low.store digit).dataArray = (before ++ [digit]) ++ slots ++ after := by
      show p.dataArray.set (p.decodeCountBit + p.basePacketIndex) digit = _
      rw [harray, ← hbefore, List.append_assoc, List.set_append_right _ _ le_rfl, Nat.sub_self]
      simp
    obtain ⟨teLast, hrest⟩ := @readings_digits rest digits (before ++ [digit]) slots after
      (low.store digit) (fun d hd => hdigits d (List.mem_cons_of_mem _ hd)) rfl hset
      (Nat.succ_injective hslots)
      (by
        rw [List.length_append, hbefore, List.length_singleton]
        show _ = p.decodeCountBit + 1 + p.basePacketIndex
        omega)
      (by
        show p.decodeCountBit + 1 + digits.length ≤ 21
        omega)
    refine ⟨teLast, ?_⟩
    rw [List.flatMap_cons, List.append_assoc, digitPulses, List.cons_append, readings_cons,
      feed_low hdigit hstep]
    dsimp only
    rw [if_neg Bool.false_ne_true, ← hlow, List.cons_append, readings_cons, hhigh]
    dsimp only
    rw [if_neg Bool.false_ne_true, List.nil_append, hrest]
    have hcount' : (low.store digit).decodeCountBit + digits.length =
        p.decodeCountBit + (digit :: digits).length := by
      show p.decodeCountBit + 1 + digits.length = _
      rw [List.length_cons]
      omega
    rw [hcount', List.append_assoc before [digit] digits, List.singleton_append]
    rfl

/-- The message of two packets. -/
def message (packet1 packet2 : List ℕ) : BitVec 64 :=
  let decoded1 := secplusV1DecodePacket 0 0 0 packet1
  let decoded2 := secplusV1DecodePacket 0 decoded1.1 decoded1.2 packet2
  joinWords decoded2.2 (reverseWord decoded2.1)

/-- Between two packets the decoder has what it has of both, and has accepted some. -/
structure Ready (p : SubGhzProtocolDecoderSecPlusV1) (accepted : BitVec 8)
    (packet1 packet2 : List ℕ) : Prop where
  parserStep : p.parserStep = .searchStartBit
  decodeCountBit : p.decodeCountBit = 0
  packetAccepted : p.packetAccepted = accepted
  length1 : packet1.length = 20
  length2 : packet2.length = 20
  dataArray : ∃ header1 header2 rest,
    p.dataArray = header1 :: packet1 ++ header2 :: packet2 ++ rest

theorem decode_data {header1 header2 : ℕ} {packet1 packet2 rest : List ℕ}
    (h1 : packet1.length = 20) (h2 : packet2.length = 20)
    (harray : p.dataArray = header1 :: packet1 ++ header2 :: packet2 ++ rest) :
    p.decode.generic.data = message packet1 packet2 := by
  have hpacket1 : secplusV1Packet p.dataArray SECPLUS_V1_PACKET_1_INDEX_BASE = packet1 := by
    rw [harray, List.append_assoc]
    exact secplusV1Packet_one h1
  have hpacket2 : secplusV1Packet p.dataArray SECPLUS_V1_PACKET_2_INDEX_BASE = packet2 := by
    rw [harray]
    exact secplusV1Packet_two h1 h2
  rw [decode, hpacket1, hpacket2]
  rfl

/-- A gap after the last digit of a packet, of which the decoder accepts the packet. -/
theorem readings_gap {header1 header2 gap : ℕ} {packet1 packet2 rest : List ℕ}
    {accepted : BitVec 8} {pulses : List LevelDuration} (hgap : Near gap 120)
    (hstep : p.parserStep = .saveDuration)
    (hcount : p.decodeCountBit = SECPLUS_V1_MIN_COUNT_BIT_FOR_FOUND) (h1 : packet1.length = 20)
    (h2 : packet2.length = 20)
    (harray : p.dataArray = header1 :: packet1 ++ header2 :: packet2 ++ rest)
    (haccept : p.basePacketIndex = 0 ∧ accepted = p.packetAccepted ||| 1 ∨
      p.basePacketIndex = 21 ∧ accepted = p.packetAccepted ||| 2) :
    ∃ p', Ready p' accepted packet1 packet2 ∧ p.readings (⟨false, gap⟩ :: pulses) =
      (if accepted = 3 then [message packet1 packet2] else []) ++ p'.readings pulses := by
  have hfeed : p.feed ⟨false, gap⟩ = (p.accept.1, { p.accept.2 with
      parserStep := .searchStartBit, decodeCountBit := 0 }) := by
    rw [feed, hstep]
    simp only [if_true, if_pos hgap]
  have haccepted : p.accept = if accepted = 3 then
      (true, { p with packetAccepted := accepted }.decode)
      else (false, { p with packetAccepted := accepted }) := by
    rw [accept, if_pos hcount]
    rcases haccept with ⟨hbase, rfl⟩ | ⟨hbase, rfl⟩ <;> rw [hbase] <;> rfl
  by_cases h : accepted = 3
  · rw [readings_cons, hfeed, haccepted, if_pos h, if_pos h]
    set decoded := { p with packetAccepted := accepted }.decode with hdecoded
    have hdata : decoded.generic.data = message packet1 packet2 := decode_data h1 h2 harray
    refine ⟨{ decoded with parserStep := .searchStartBit, decodeCountBit := 0 },
      ⟨rfl, rfl, rfl, h1, h2, header1, header2, rest, harray⟩, ?_⟩
    rw [List.singleton_append, ← hdata]
    rfl
  · rw [readings_cons, hfeed, haccepted, if_neg h, if_neg h]
    exact ⟨{ p with
      packetAccepted := accepted, parserStep := .searchStartBit, decodeCountBit := 0 },
      ⟨rfl, rfl, rfl, h1, h2, header1, header2, rest, harray⟩, rfl⟩

theorem readings_packet1 {accepted : BitVec 8} {slots1 slots2 packet : List ℕ} {gap : ℕ}
    {pulses : List LevelDuration} (h : Ready p accepted slots1 slots2) (hlength : packet.length = 20)
    (hpacket : ∀ d ∈ packet, d < 3) (hgap : Near gap 120) :
    ∃ p', Ready p' (accepted ||| 1) packet slots2 ∧
      p.readings (⟨true, SECPLUS_V1_TE_SHORT⟩ :: packet.flatMap digitPulses ++
        ⟨false, gap⟩ :: pulses) =
      (if accepted ||| 1 = 3 then [message packet slots2] else []) ++ p'.readings pulses := by
  obtain ⟨header1, header2, rest, harray⟩ := h.dataArray
  set start := { p with basePacketIndex := SECPLUS_V1_PACKET_1_INDEX_BASE }.store 0 with hstart
  have hfeed : p.feed ⟨true, SECPLUS_V1_TE_SHORT⟩ = (false, start) := by
    rw [feed, h.parserStep]
    rfl
  have hset : start.dataArray = [0] ++ slots1 ++ (header2 :: slots2 ++ rest) := by
    show p.dataArray.set (p.decodeCountBit + 0) 0 = _
    rw [harray, h.decodeCountBit]
    simp
  have hcount : start.decodeCountBit = 1 := congrArg (· + 1) h.decodeCountBit
  obtain ⟨teLast, hdigits⟩ := @readings_digits (⟨false, gap⟩ :: pulses) packet [0] slots1
    (header2 :: slots2 ++ rest) start hpacket rfl hset (h.length1.trans hlength.symm)
    (by rw [hcount]; rfl) (by rw [hcount, hlength])
  rw [List.cons_append, readings_cons, hfeed]
  dsimp only
  rw [if_neg Bool.false_ne_true, hdigits]
  exact readings_gap hgap rfl (by dsimp only; rw [hcount, hlength]; rfl) hlength h.length2
    (List.append_assoc (0 :: packet) (header2 :: slots2) rest).symm
    (.inl ⟨rfl, congrArg (· ||| 1) h.packetAccepted.symm⟩)

theorem readings_body2 {accepted : BitVec 8} {slots1 slots2 packet : List ℕ}
    {pulses : List LevelDuration} (h : Ready p accepted slots1 slots2)
    (hlength : packet.length = 20) (hpacket : ∀ d ∈ packet, d < 3) :
    ∃ (p' : SubGhzProtocolDecoderSecPlusV1) (header1 : ℕ) (rest : List ℕ),
      p'.parserStep = .saveDuration ∧
      p'.decodeCountBit = SECPLUS_V1_MIN_COUNT_BIT_FOR_FOUND ∧ p'.basePacketIndex = 21 ∧
      p'.packetAccepted = accepted ∧
      p'.dataArray = header1 :: slots1 ++ 2 :: packet ++ rest ∧
      p.readings (⟨true, SECPLUS_V1_TE_SHORT * 3⟩ :: packet.flatMap digitPulses ++ pulses) =
        p'.readings pulses := by
  obtain ⟨header1, header2, rest, harray⟩ := h.dataArray
  set start := { p with basePacketIndex := SECPLUS_V1_PACKET_2_INDEX_BASE }.store 2 with hstart
  have hfeed : p.feed ⟨true, SECPLUS_V1_TE_SHORT * 3⟩ = (false, start) := by
    rw [feed, h.parserStep]
    rfl
  have hset : start.dataArray = (header1 :: slots1 ++ [2]) ++ slots2 ++ rest := by
    show p.dataArray.set (p.decodeCountBit + 21) 2 = _
    have hheader : (header1 :: slots1).length = 21 := congrArg (· + 1) h.length1
    rw [harray, h.decodeCountBit, Nat.zero_add, ← hheader, List.append_assoc,
      List.set_append_right _ _ le_rfl, Nat.sub_self]
    simp
  have hcount : start.decodeCountBit = 1 := congrArg (· + 1) h.decodeCountBit
  obtain ⟨teLast, hdigits⟩ := @readings_digits pulses packet
    (header1 :: slots1 ++ [2]) slots2 rest start hpacket rfl hset (h.length2.trans hlength.symm)
    (by rw [hcount, List.length_append, List.length_cons, h.length1]; rfl)
    (by rw [hcount, hlength])
  rw [List.cons_append, readings_cons, hfeed]
  dsimp only
  rw [if_neg Bool.false_ne_true]
  refine ⟨_, header1, rest, ?_, ?_, ?_, ?_, ?_, hdigits⟩
  · rfl
  · rw [hcount, hlength]
    rfl
  · rfl
  · exact h.packetAccepted
  · exact congrArg (· ++ rest) (List.append_assoc (header1 :: slots1) [2] packet)

theorem readings_packet2 {accepted : BitVec 8} {slots1 slots2 packet : List ℕ} {gap : ℕ}
    {pulses : List LevelDuration} (h : Ready p accepted slots1 slots2) (hlength : packet.length = 20)
    (hpacket : ∀ d ∈ packet, d < 3) (hgap : Near gap 120) :
    ∃ p', Ready p' (accepted ||| 2) slots1 packet ∧
      p.readings (⟨true, SECPLUS_V1_TE_SHORT * 3⟩ :: packet.flatMap digitPulses ++
        ⟨false, gap⟩ :: pulses) =
      (if accepted ||| 2 = 3 then [message slots1 packet] else []) ++ p'.readings pulses := by
  obtain ⟨body, header1, rest, hstep, hcount, hbase, hpacketAccepted, harray, hreadings⟩ :=
    @readings_body2 p accepted slots1 slots2 packet (⟨false, gap⟩ :: pulses) h hlength hpacket
  rw [hreadings]
  exact readings_gap hgap hstep hcount h.length1 hlength harray
    (.inr ⟨hbase, congrArg (· ||| 2) hpacketAccepted.symm⟩)

/-! ## What is read of a message that is sent again and again -/

/-- What is sent of two packets. -/
def uploadOf (packet1 packet2 : List ℕ) : List LevelDuration :=
  ⟨false, SECPLUS_V1_TE_SHORT * (116 + 3)⟩ :: ⟨true, SECPLUS_V1_TE_SHORT⟩ ::
    packet1.flatMap digitPulses ++ ⟨false, SECPLUS_V1_TE_SHORT * 116⟩ ::
    ⟨true, SECPLUS_V1_TE_SHORT * 3⟩ :: packet2.flatMap digitPulses

variable {packet1 packet2 : List ℕ}

theorem length_uploadOf (h1 : packet1.length = 20) (h2 : packet2.length = 20) :
    (uploadOf packet1 packet2).length = 84 := by
  have hdigits : ∀ digits : List ℕ, (digits.flatMap digitPulses).length = digits.length * 2 := by
    intro digits
    simp [List.length_flatMap, digitPulses]
  rw [uploadOf]
  simp [hdigits, h1, h2]

theorem uploadOf_append (rest : List LevelDuration) :
    uploadOf packet1 packet2 ++ rest = ⟨false, SECPLUS_V1_TE_SHORT * (116 + 3)⟩ ::
      (⟨true, SECPLUS_V1_TE_SHORT⟩ :: packet1.flatMap digitPulses ++
        ⟨false, SECPLUS_V1_TE_SHORT * 116⟩ ::
          (⟨true, SECPLUS_V1_TE_SHORT * 3⟩ :: packet2.flatMap digitPulses ++ rest)) := by
  simp [uploadOf]

theorem readings_again (h1 : packet1.length = 20) (h2 : packet2.length = 20)
    (hpacket1 : ∀ d ∈ packet1, d < 3) (hpacket2 : ∀ d ∈ packet2, d < 3) :
    ∀ (count : ℕ) {accepted : BitVec 8} {slots2 : List ℕ} {p : SubGhzProtocolDecoderSecPlusV1},
      Ready p accepted packet1 slots2 → accepted ||| 2 = 3 →
      p.readings (⟨true, SECPLUS_V1_TE_SHORT * 3⟩ :: packet2.flatMap digitPulses ++
        (List.replicate count (uploadOf packet1 packet2)).flatten) =
      List.replicate (2 * count) (message packet1 packet2)
  | 0, accepted, slots2, p, h, _ => by
    obtain ⟨body, -, -, -, -, -, -, -, hreadings⟩ :=
      @readings_body2 p accepted packet1 slots2 packet2 [] h h2 hpacket2
    exact hreadings
  | count + 1, accepted, slots2, p, h, haccepted => by
    rw [List.replicate_succ, List.flatten_cons, uploadOf_append]
    obtain ⟨p', h', hreadings'⟩ := @readings_packet2 p accepted packet1 slots2 packet2
      (SECPLUS_V1_TE_SHORT * (116 + 3)) (⟨true, SECPLUS_V1_TE_SHORT⟩ ::
        packet1.flatMap digitPulses ++ ⟨false, SECPLUS_V1_TE_SHORT * 116⟩ ::
        (⟨true, SECPLUS_V1_TE_SHORT * 3⟩ :: packet2.flatMap digitPulses ++
          (List.replicate count (uploadOf packet1 packet2)).flatten)) h h2 hpacket2 (by decide)
    obtain ⟨p'', h'', hreadings''⟩ := @readings_packet1 p' (accepted ||| 2) packet1 packet2 packet1
      (SECPLUS_V1_TE_SHORT * 116) (⟨true, SECPLUS_V1_TE_SHORT * 3⟩ :: packet2.flatMap digitPulses ++
        (List.replicate count (uploadOf packet1 packet2)).flatten) h' h1 hpacket1 (by decide)
    rw [haccepted] at hreadings' hreadings'' h''
    have hrest := readings_again h1 h2 hpacket1 hpacket2 count h'' (by decide)
    rw [if_pos (by decide), hrest] at hreadings''
    rw [hreadings', if_pos rfl, hreadings'', show 2 * (count + 1) = 2 * count + 1 + 1 by omega,
      List.replicate_succ, List.replicate_succ]
    rfl

theorem readings_alloc (h1 : packet1.length = 20) (h2 : packet2.length = 20)
    (hpacket1 : ∀ d ∈ packet1, d < 3) (hpacket2 : ∀ d ∈ packet2, d < 3) (repeats : ℕ) :
    alloc.readings (List.replicate repeats (uploadOf packet1 packet2)).flatten =
      List.replicate (2 * (repeats - 1)) (message packet1 packet2) := by
  cases repeats with
  | zero => rfl
  | succ count =>
    set start := (alloc.feed ⟨false, SECPLUS_V1_TE_SHORT * (116 + 3)⟩).2 with hstart
    have hready : Ready start 0 (List.replicate 20 0) (List.replicate 20 0) :=
      ⟨rfl, rfl, rfl, rfl, rfl, 0, 0, [0, 0], rfl⟩
    obtain ⟨p', h', hreadings'⟩ := @readings_packet1 start 0 _ _ packet1
      (SECPLUS_V1_TE_SHORT * 116) (⟨true, SECPLUS_V1_TE_SHORT * 3⟩ :: packet2.flatMap digitPulses ++
        (List.replicate count (uploadOf packet1 packet2)).flatten) hready h1 hpacket1 (by decide)
    have hrest := readings_again h1 h2 hpacket1 hpacket2 count h' (by decide)
    rw [if_neg (by decide), List.nil_append, hrest] at hreadings'
    rw [List.replicate_succ, List.flatten_cons, uploadOf_append, readings_cons,
      if_neg (by decide), Nat.add_sub_cancel]
    exact hreadings'

end SubGhzProtocolDecoderSecPlusV1

/-! ## What is sent of a key -/

namespace SubGhzProtocolEncoderSecPlusV1

/-- The counter that the packets are made of. -/
def remapped (rolling : BitVec 32) : BitVec 32 := if rolling = 0xFFFFFFFF then 0xE6000000 else rolling

/-- The digits of the two packets. -/
def digitsOf (fixed rolling : BitVec 32) : List (ℕ × ℕ) :=
  (ternary 20 (reverseWord (remapped rolling)).toNat).zip (ternary 20 fixed.toNat)

variable (fixed rolling : BitVec 32)

theorem length_digitsOf : (digitsOf fixed rolling).length = 20 := by
  rw [digitsOf, List.length_zip, length_ternary, length_ternary, min_self]

theorem lt_of_mem_digitsOf {fixed rolling : BitVec 32} {digits : ℕ × ℕ}
    (h : digits ∈ digitsOf fixed rolling) : digits.1 < 3 ∧ digits.2 < 3 :=
  ⟨lt_of_mem_ternary (List.of_mem_zip h).1, lt_of_mem_ternary (List.of_mem_zip h).2⟩

def packet1 : List ℕ := secplusV1EncodePacket 0 ((digitsOf fixed rolling).take 10)

def packet2 : List ℕ := secplusV1EncodePacket 0 ((digitsOf fixed rolling).drop 10)

theorem length_packet1 : (packet1 fixed rolling).length = 20 := by
  rw [packet1, length_encodePacket, List.length_take, length_digitsOf]
  rfl

theorem length_packet2 : (packet2 fixed rolling).length = 20 := by
  rw [packet2, length_encodePacket, List.length_drop, length_digitsOf]

theorem lt_of_mem_packet1 {fixed rolling : BitVec 32} {digit : ℕ}
    (h : digit ∈ packet1 fixed rolling) : digit < 3 :=
  lt_of_mem_encodePacket (fun _ hd => (lt_of_mem_digitsOf (List.mem_of_mem_take hd)).1) h

theorem lt_of_mem_packet2 {fixed rolling : BitVec 32} {digit : ℕ}
    (h : digit ∈ packet2 fixed rolling) : digit < 3 :=
  lt_of_mem_encodePacket (fun _ hd => (lt_of_mem_digitsOf (List.mem_of_mem_drop hd)).1) h

theorem message_packets : SubGhzProtocolDecoderSecPlusV1.message (packet1 fixed rolling)
      (packet2 fixed rolling) =
    joinWords (BitVec.ofNat 32 (fixed.toNat % 3 ^ 20))
      (reverseWord (BitVec.ofNat 32 ((reverseWord (remapped rolling)).toNat % 3 ^ 20))) := by
  have hlength := length_digitsOf fixed rolling
  have hdecode1 := @decodePacket_encodePacket 0 0 0 ((digitsOf fixed rolling).take 10)
    (fun _ hd => lt_of_mem_digitsOf (List.mem_of_mem_take hd))
    (by rw [List.length_take, hlength]; decide)
  have hdecode2 := fun rolling' fixed' => @decodePacket_encodePacket 0 rolling' fixed'
    ((digitsOf fixed rolling).drop 10)
    (fun _ hd => lt_of_mem_digitsOf (List.mem_of_mem_drop hd))
    (by rw [List.length_drop, hlength]; decide)
  have hjoin : ∀ part : ℕ × ℕ → ℕ,
      appendDigits (appendDigits 0 (((digitsOf fixed rolling).take 10).map part))
        (((digitsOf fixed rolling).drop 10).map part) =
      appendDigits 0 ((digitsOf fixed rolling).map part) := by
    intro part
    rw [← appendDigits_append, ← List.map_append, List.take_append_drop]
  have hrolling : (digitsOf fixed rolling).map Prod.fst =
      ternary 20 (reverseWord (remapped rolling)).toNat :=
    List.map_fst_zip (by rw [length_ternary, length_ternary])
  have hfixed : (digitsOf fixed rolling).map Prod.snd = ternary 20 fixed.toNat :=
    List.map_snd_zip (by rw [length_ternary, length_ternary])
  rw [SubGhzProtocolDecoderSecPlusV1.message, packet1, packet2, hdecode1, hdecode2, hjoin, hjoin, hrolling, hfixed, appendDigits_ternary,
    appendDigits_ternary]

set_option maxRecDepth 10000 in
/-- Twenty digits tell the counter unless its reversal takes more of them. The counter that is sent
in another one's place is none of those that they tell. -/
theorem reverseWord_digits_iff :
    reverseWord (BitVec.ofNat 32 ((reverseWord (remapped rolling)).toNat % 3 ^ 20)) = rolling ↔
      (reverseWord rolling).toNat ≤ 0xCFD41B90 := by
  have hreverse : ∀ word, reverseWord word = rolling ↔ word = reverseWord rolling := fun word =>
    ⟨fun h => by rw [← h, reverseWord_reverseWord], fun h => by rw [h, reverseWord_reverseWord]⟩
  by_cases hlast : rolling = 0xFFFFFFFF
  · subst hlast
    exact iff_of_false (by decide) (by decide)
  · rw [hreverse, remapped, if_neg hlast, ← BitVec.toNat_inj, BitVec.toNat_ofNat,
      Nat.mod_eq_of_lt ((Nat.mod_lt _ (by norm_num)).trans (by norm_num)),
      Nat.mod_eq_iff_lt (by norm_num)]
    exact Nat.lt_succ_iff

variable {file file' : SubGhzKeyFile} {key : BitVec 64} {inst : SubGhzProtocolEncoderSecPlusV1}

theorem key_word (fixed rolling : BitVec 32) (h : fixed = (key >>> 32).setWidth 32) :
    key &&& 0xFFFFFFFF00000000#64 ||| rolling.setWidth 64 = joinWords fixed rolling := by
  have hmask : ∀ i < 64, (0xFFFFFFFF00000000#64).getLsbD i = decide (32 ≤ i) := by decide
  refine BitVec.eq_of_getLsbD_eq fun i hi => ?_
  rw [getLsbD_joinWords _ _ hi, BitVec.getLsbD_or, BitVec.getLsbD_and, hmask i hi,
    BitVec.getLsbD_setWidth, decide_eq_true hi, Bool.true_and]
  split_ifs with hlow
  · rw [decide_eq_false (by omega), Bool.and_false, Bool.false_or]
  · rw [decide_eq_true (by omega), Bool.and_true, BitVec.getLsbD_of_ge rolling i (by omega),
      Bool.or_false, h, BitVec.getLsbD_setWidth, BitVec.getLsbD_ushiftRight,
      decide_eq_true (by omega), Bool.true_and, show 32 + (i - 32) = i by omega]

theorem encode_eq (hfixed : ((inst.generic.data >>> 32).setWidth 32 : BitVec 32).toNat ≤ 0xCFD41B90) :
    inst.encode = some { inst with
      generic := { inst.generic with
        data := joinWords ((inst.generic.data >>> 32).setWidth 32)
          (inst.generic.data.setWidth 32 + 2) }
      dataArray :=
        0 :: packet1 ((inst.generic.data >>> 32).setWidth 32) (inst.generic.data.setWidth 32 + 2) ++
          2 :: packet2 ((inst.generic.data >>> 32).setWidth 32)
            (inst.generic.data.setWidth 32 + 2) } := by
  rw [encode]
  dsimp only
  rw [if_neg (not_lt.2 hfixed), key_word _ _ rfl]
  rfl

theorem getUpload_eq {header1 header2 : ℕ} {packet1 packet2 : List ℕ}
    (hsize : inst.generic.dataCountBit * 2 ≤ inst.encoder.sizeUpload)
    (harray : inst.dataArray = header1 :: packet1 ++ header2 :: packet2)
    (h1 : packet1.length = 20) (h2 : packet2.length = 20) (hpacket1 : ∀ d ∈ packet1, d < 3)
    (hpacket2 : ∀ d ∈ packet2, d < 3) :
    inst.getUpload = some { inst with
      encoder := { inst.encoder with
        sizeUpload := inst.generic.dataCountBit * 2
        upload := SubGhzProtocolDecoderSecPlusV1.uploadOf packet1 packet2 } } := by
  have hslice1 : secplusV1Packet inst.dataArray SECPLUS_V1_PACKET_1_INDEX_BASE = packet1 := by
    rw [harray]
    exact secplusV1Packet_one h1
  have hslice2 : secplusV1Packet inst.dataArray SECPLUS_V1_PACKET_2_INDEX_BASE = packet2 := by
    have htwo := @secplusV1Packet_two header1 header2 packet1 packet2 [] h1 h2
    rwa [List.append_nil, ← harray] at htwo
  rw [getUpload]
  dsimp only
  rw [if_neg (not_lt.2 hsize), hslice1, hslice2, mapM_secplusV1DigitUpload hpacket1,
    mapM_secplusV1DigitUpload hpacket2, SubGhzProtocolDecoderSecPlusV1.uploadOf, List.flatMap_def,
    List.flatMap_def]
  rfl

theorem deserialize_ok (hkey : file.key = some key)
    (hdeserialize : alloc.deserialize file = .ok (inst, file')) :
    ((key >>> 32).setWidth 32 : BitVec 32).toNat ≤ 0xCFD41B90 ∧
      file'.key = some (joinWords ((key >>> 32).setWidth 32) (key.setWidth 32 + 2)) ∧
      inst.encoder = {
        isRunning := true
        repeats := (file.repeats.map BitVec.toNat).getD 10
        front := 0
        sizeUpload := 84
        upload := SubGhzProtocolDecoderSecPlusV1.uploadOf
          (packet1 ((key >>> 32).setWidth 32) (key.setWidth 32 + 2))
          (packet2 ((key >>> 32).setWidth 32) (key.setWidth 32 + 2)) } := by
  rw [deserialize] at hdeserialize
  rcases hgeneric : alloc.generic.deserializeCheckCountBit file
    (2 * SECPLUS_V1_MIN_COUNT_BIT_FOR_FOUND) with status | generic
  · rw [hgeneric] at hdeserialize
    cases hdeserialize
  obtain ⟨key', hkey', rfl⟩ := SubGhzBlockGeneric.deserializeCheckCountBit_ok hgeneric
  obtain rfl : key = key' := Option.some.inj (hkey.symm.trans hkey')
  rw [hgeneric] at hdeserialize
  dsimp only [bind, Except.bind] at hdeserialize
  set read : SubGhzProtocolEncoderSecPlusV1 := { alloc with
    generic := { alloc.generic with
      dataCountBit := 2 * SECPLUS_V1_MIN_COUNT_BIT_FOR_FOUND, data := key }
    encoder := { alloc.encoder with
      repeats := (file.repeats.map BitVec.toNat).getD alloc.encoder.repeats } } with hread
  generalize hencoded : encode _ = encoded at hdeserialize
  change read.encode = encoded at hencoded
  by_cases hfixed : ((key >>> 32).setWidth 32 : BitVec 32).toNat ≤ 0xCFD41B90
  · refine ⟨hfixed, ?_⟩
    rw [← hencoded, @encode_eq read hfixed] at hdeserialize
    dsimp only at hdeserialize
    rw [@getUpload_eq _ 0 2 (packet1 ((key >>> 32).setWidth 32) (key.setWidth 32 + 2))
      (packet2 ((key >>> 32).setWidth 32) (key.setWidth 32 + 2)) (show 2 * 21 * 2 ≤ 128 by norm_num) rfl
      (length_packet1 _ _) (length_packet2 _ _) (fun _ => lt_of_mem_packet1)
      (fun _ => lt_of_mem_packet2)] at hdeserialize
    cases hdeserialize
    exact ⟨rfl, rfl⟩
  · have hnone : read.encode = none := by
      rw [encode]
      exact if_pos (not_le.1 hfixed)
    rw [← hencoded, hnone] at hdeserialize
    cases hdeserialize

/-- What is sent of a key is read with its fixed part, and as the key that is then in the file just
if the reversed counter has no more than twenty digits. It takes two messages to be read once. -/
theorem reported_iff (hkey : file.key = some key)
    (hdeserialize : alloc.deserialize file = .ok (inst, file')) :
    (SubGhzProtocolDecoderSecPlusV1.alloc.readings inst.encoder.emitted ≠ [] ∧
      ∀ reading ∈ SubGhzProtocolDecoderSecPlusV1.alloc.readings inst.encoder.emitted,
        (reading >>> 32).setWidth 32 = (key >>> 32).setWidth 32 ∧ file'.key = some reading) ↔
      2 ≤ (file.repeats.map BitVec.toNat).getD 10 ∧
        (reverseWord (key.setWidth 32 + 2)).toNat ≤ 0xCFD41B90 := by
  obtain ⟨hfixed, hfile, hencoder⟩ := deserialize_ok hkey hdeserialize
  set fixed : BitVec 32 := (key >>> 32).setWidth 32
  set rolling : BitVec 32 := key.setWidth 32 + 2
  set repeats := (file.repeats.map BitVec.toNat).getD 10
  have hlength := SubGhzProtocolDecoderSecPlusV1.length_uploadOf (length_packet1 fixed rolling)
    (length_packet2 fixed rolling)
  have hemitted : inst.encoder.emitted = (List.replicate repeats
      (SubGhzProtocolDecoderSecPlusV1.uploadOf (packet1 fixed rolling)
        (packet2 fixed rolling))).flatten := by
    rw [hencoder]
    refine SubGhzProtocolBlockEncoder.emission_eq rfl rfl hlength.symm (fun h => ?_) le_rfl
    dsimp only at h
    rw [h] at hlength
    cases hlength
  have hword : BitVec.ofNat 32 (fixed.toNat % 3 ^ 20) = fixed := by
    rw [Nat.mod_eq_of_lt (Nat.lt_of_le_of_lt hfixed (by norm_num)), BitVec.ofNat_toNat,
      BitVec.setWidth_eq]
  have hreadings : SubGhzProtocolDecoderSecPlusV1.alloc.readings inst.encoder.emitted =
      List.replicate (2 * (repeats - 1)) (joinWords fixed (reverseWord
        (BitVec.ofNat 32 ((reverseWord (remapped rolling)).toNat % 3 ^ 20)))) := by
    rw [hemitted, SubGhzProtocolDecoderSecPlusV1.readings_alloc (length_packet1 _ _)
      (length_packet2 _ _) (fun _ => lt_of_mem_packet1) (fun _ => lt_of_mem_packet2),
      message_packets, hword]
  rw [hreadings, ← reverseWord_digits_iff, hfile, ne_eq, List.replicate_eq_nil_iff]
  constructor
  · rintro ⟨hsome, hall⟩
    obtain ⟨-, hkey⟩ := hall _ (List.mem_replicate.2 ⟨hsome, rfl⟩)
    exact ⟨by omega, (joinWords_inj.1 (Option.some.inj hkey)).symm⟩
  · rintro ⟨hrepeats, hrolling⟩
    rw [hrolling]
    refine ⟨by omega, fun reading hreading => ?_⟩
    rw [List.eq_of_mem_replicate hreading]
    exact ⟨joinWords_high fixed rolling, rfl⟩

set_option maxRecDepth 10000 in
theorem reported_two : ∃ inst file',
    alloc.deserialize ⟨some 42, some 0x1234567800000000, some 2⟩ = .ok (inst, file') ∧
      SubGhzProtocolDecoderSecPlusV1.alloc.readings inst.encoder.emitted ≠ [] ∧
      ∀ reading ∈ SubGhzProtocolDecoderSecPlusV1.alloc.readings inst.encoder.emitted,
        (reading >>> 32).setWidth 32 = (0x12345678 : BitVec 32) ∧ file'.key = some reading := by
  have hok : (alloc.deserialize ⟨some 42, some 0x1234567800000000, some 2⟩).isOk = true := by
    rfl
  rcases h : alloc.deserialize ⟨some 42, some 0x1234567800000000, some 2⟩ with status | ⟨inst, file'⟩
  · rw [h] at hok
    cases hok
  · obtain ⟨hsome, hall⟩ := (reported_iff rfl h).2 ⟨by decide, by decide⟩
    have hword : (((0x1234567800000000 : BitVec 64) >>> 32).setWidth 32 : BitVec 32) = 0x12345678 :=
      by decide
    rw [hword] at hall
    exact ⟨inst, file', rfl, hsome, hall⟩

set_option maxRecDepth 10000 in
/-- The last counter is stored, and another one sent. -/
theorem reported_last : ∃ inst file',
    alloc.deserialize ⟨some 42, some 0x12345678FFFFFFFD, some 2⟩ = .ok (inst, file') ∧
      SubGhzProtocolDecoderSecPlusV1.alloc.readings inst.encoder.emitted =
        [0x12345678E6000000, 0x12345678E6000000] ∧
      file'.key = some 0x12345678FFFFFFFF := by
  have hok : (match alloc.deserialize ⟨some 42, some 0x12345678FFFFFFFD, some 2⟩ with
      | .error _ => false
      | .ok (inst, file') => decide (SubGhzProtocolDecoderSecPlusV1.alloc.readings
          inst.encoder.emitted = [0x12345678E6000000, 0x12345678E6000000] ∧
        file'.key = some 0x12345678FFFFFFFF)) = true := by
    rfl
  rcases h : alloc.deserialize ⟨some 42, some 0x12345678FFFFFFFD, some 2⟩ with status | ⟨inst, file'⟩
  · rw [h] at hok
    cases hok
  · rw [h] at hok
    exact ⟨inst, file', rfl, of_decide_eq_true hok⟩

end SubGhzProtocolEncoderSecPlusV1

end KiisuFirmware
