import KiisuFirmware.ExpansionProtocol

/-!
# Frames are received as they were sent

While a frame is received its first bytes decide how many remain: two frames with the same first
bytes ask for the same (`getRemainingSize_of_agree`), and once all of a well-formed frame is there
nothing remains, whatever comes after (`getRemainingSize_of_all`). So no well-formed frame is the
beginning of another, and what is received up to a checksum is a frame in at most one way.
-/

namespace KiisuFirmware

namespace ExpansionFrame

/-- It has a type, and its data is no longer than there is room for. -/
def WellFormed (frame : ExpansionFrame) : Prop :=
  frame.type ≠ none ∧ (frame.type = some .data → frame.dataSize ≤ EXPANSION_PROTOCOL_MAX_DATA_SIZE)

instance (frame : ExpansionFrame) : Decidable frame.WellFormed :=
  inferInstanceAs (Decidable (_ ∧ _))

/-- The bytes that stand for the frame. -/
def encoded (frame : ExpansionFrame) : List UInt8 := frame.memory.take frame.getEncodedSize

/-- Frames with the same first bytes. -/
def Agree (f g : ExpansionFrame) (n : ℕ) : Prop := f.memory.take n = g.memory.take n

/-- So many bytes of the frame were received, and no more than it has. -/
def Received (f : ExpansionFrame) (n : ℕ) : Prop :=
  n = 0 ∨ 1 ≤ n ∧ ∀ k, f.contentSize (n - 1) = some k → n - 1 ≤ k

variable {f g e : ExpansionFrame} {n : ℕ}

theorem getD_of_agree (h : f.Agree g n) {i : ℕ} (hi : i < n) :
    f.memory.getD i 0 = g.memory.getD i 0 := by
  have hget := congrArg (·[i]?) h
  simp only [List.getElem?_take_of_lt hi] at hget
  rw [List.getD_eq_getElem?_getD, List.getD_eq_getElem?_getD, hget]

theorem type_of_agree (h : f.Agree g n) (hn : 1 ≤ n) : f.type = g.type := by
  rw [type, type, getD_of_agree h hn]

theorem dataSize_of_agree (h : f.Agree g n) (hn : 2 ≤ n) : f.dataSize = g.dataSize := by
  rw [dataSize, dataSize, getD_of_agree h hn]

theorem contentSize_of_agree (h : f.Agree g n) (hn : 1 ≤ n) :
    f.contentSize (n - 1) = g.contentSize (n - 1) := by
  unfold contentSize
  rw [type_of_agree h hn]
  by_cases h1 : n - 1 < 1
  · simp only [if_pos h1]
  · rw [dataSize_of_agree h (by omega)]

theorem contentSize_le {k : ℕ} (h : f.contentSize n = some k) :
    k ≤ 1 + EXPANSION_PROTOCOL_MAX_DATA_SIZE := by
  unfold contentSize at h
  unfold EXPANSION_PROTOCOL_MAX_DATA_SIZE at *
  split at h
  · cases h; omega
  · cases h; omega
  · cases h; omega
  · cases h; omega
  · split_ifs at h
    · cases h; omega
    · cases h; omega
  · cases h

theorem getRemainingSize_eq (hn : 1 ≤ n) :
    f.getRemainingSize n = (f.contentSize (n - 1)).map (· - (n - 1)) := by
  unfold getRemainingSize
  rw [if_neg (by omega)]
  dsimp only
  congr 1
  funext size
  split_ifs
  · rfl
  · omega

theorem room_of_remaining {k : ℕ} (h : f.getRemainingSize n = some (k + 1)) :
    n + (k + 1) ≤ EXPANSION_FRAME_SIZE := by
  unfold EXPANSION_FRAME_SIZE
  by_cases h1 : n < 1
  · rw [getRemainingSize, if_pos h1, Option.some.injEq] at h
    omega
  · rw [getRemainingSize_eq (by omega)] at h
    obtain ⟨size, hsize, hk⟩ := Option.map_eq_some_iff.1 h
    have hle := contentSize_le hsize
    omega

/-! ## Well-formed frames -/

theorem contentSize_zero_le (he : e.WellFormed) :
    ∃ k, e.contentSize 0 = some k ∧ k + 1 ≤ e.getEncodedSize ∧
      (k = 0 → e.getEncodedSize = 1) := by
  obtain ⟨htype, hdata⟩ := he
  unfold contentSize getEncodedSize
  cases ht : e.type with
  | none => exact absurd ht htype
  | some t => cases t <;> (simp; try omega)

theorem contentSize_eq (he : e.WellFormed) (hn : 1 ≤ n) :
    e.contentSize n = some (e.getEncodedSize - 1) := by
  obtain ⟨htype, hdata⟩ := he
  unfold contentSize getEncodedSize
  cases ht : e.type with
  | none => exact absurd ht htype
  | some t =>
    cases t with
    | data =>
      have hle := hdata ht
      simp only
      rw [if_neg (by omega), if_neg (by omega)]
      congr 1
      omega
    | _ => simp

theorem one_le_encodedSize (he : e.WellFormed) : 1 ≤ e.getEncodedSize := by
  obtain ⟨k, -, hk, -⟩ := contentSize_zero_le he
  omega

theorem encodedSize_le (he : e.WellFormed) : e.getEncodedSize ≤ EXPANSION_FRAME_SIZE := by
  have hle := contentSize_le (contentSize_eq he le_rfl)
  unfold EXPANSION_FRAME_SIZE
  omega

theorem length_encoded (he : e.WellFormed) : e.encoded.length = e.getEncodedSize := by
  rw [encoded, List.length_take, e.size_eq, min_eq_left (encodedSize_le he)]

theorem getRemainingSize_of_agree (he : e.WellFormed) (h : f.Agree e n)
    (hn : n ≤ e.getEncodedSize) :
    ∃ k, f.getRemainingSize n = some k ∧ n + k ≤ e.getEncodedSize ∧
      (k = 0 → n = e.getEncodedSize) := by
  have hone := one_le_encodedSize he
  by_cases h1 : n < 1
  · rw [getRemainingSize, if_pos h1]
    exact ⟨1, rfl, by omega, nofun⟩
  · rw [getRemainingSize_eq (by omega), contentSize_of_agree h (by omega)]
    by_cases h2 : n = 1
    · subst h2
      obtain ⟨k, hk, hle, hzero⟩ := contentSize_zero_le he
      rw [Nat.sub_self, hk]
      exact ⟨k, rfl, by omega, fun hk0 => (hzero hk0).symm⟩
    · rw [contentSize_eq he (by omega), Option.map_some]
      refine ⟨e.getEncodedSize - n, ?_, by omega, by omega⟩
      congr 1
      omega

theorem getRemainingSize_of_all (he : e.WellFormed) (h : f.Agree e e.getEncodedSize)
    (hn : e.getEncodedSize ≤ n) : f.getRemainingSize n = some 0 := by
  have hone := one_le_encodedSize he
  have htype : f.type = e.type := type_of_agree h hone
  have hsize : f.contentSize (n - 1) = some (e.getEncodedSize - 1) := by
    by_cases h1 : n = 1
    · subst h1
      obtain ⟨k, hk, hle, -⟩ := contentSize_zero_le he
      have hagree : f.Agree e 1 := by rwa [← show e.getEncodedSize = 1 by omega]
      rw [contentSize_of_agree hagree le_rfl, hk]
      congr 1
      omega
    · rw [← contentSize_eq he (show 1 ≤ n - 1 by omega)]
      unfold contentSize
      rw [htype]
      cases ht : e.type with
      | none => rfl
      | some t =>
        cases t with
        | data =>
          have htwo : 2 ≤ e.getEncodedSize := by
            rw [getEncodedSize, ht]
            simp only
            omega
          rw [dataSize_of_agree h htwo]
        | _ => rfl
  rw [getRemainingSize_eq (by omega), hsize, Option.map_some]
  congr 1
  omega

theorem encodedSize_of_agree (he : e.WellFormed) (h : f.Agree e e.getEncodedSize) :
    f.getEncodedSize = e.getEncodedSize := by
  have htype : f.type = e.type := type_of_agree h (one_le_encodedSize he)
  cases ht : e.type with
  | none => exact absurd ht he.1
  | some t =>
    rw [getEncodedSize, getEncodedSize, htype, ht]
    cases t with
    | data =>
      have htwo : 2 ≤ e.getEncodedSize := by
        rw [getEncodedSize, ht]
        simp only
        omega
      simp only
      rw [dataSize_of_agree h htwo]
    | _ => rfl

theorem encoded_of_agree (he : e.WellFormed) (h : f.Agree e e.getEncodedSize) :
    f.encoded = e.encoded := by
  rw [encoded, encodedSize_of_agree he h]
  exact h

theorem wellFormed_of_complete (hreceived : f.Received n) (h : f.getRemainingSize n = some 0) :
    f.WellFormed ∧ n = f.getEncodedSize := by
  rcases hreceived with rfl | ⟨hn, hreceived⟩
  · cases h
  · rw [getRemainingSize_eq hn] at h
    obtain ⟨k, hk, hzero⟩ := Option.map_eq_some_iff.1 h
    have hle := hreceived k hk
    obtain rfl : k = n - 1 := by omega
    unfold contentSize at hk
    unfold WellFormed getEncodedSize
    cases ht : f.type with
    | none => rw [ht] at hk; cases hk
    | some t =>
      rw [ht] at hk
      cases t with
      | data =>
        simp only at hk
        split_ifs at hk with h1 h2
        · simp only [Option.some.injEq] at hk
          omega
        · simp only [Option.some.injEq] at hk
          refine ⟨⟨nofun, fun _ => by omega⟩, ?_⟩
          simp only
          omega
      | _ =>
        simp only [Option.some.injEq] at hk
        exact ⟨⟨nofun, nofun⟩, by simp only; omega⟩

/-! ## Storing -/

section Store

variable {data : List UInt8} {h : n + data.length ≤ EXPANSION_FRAME_SIZE}

theorem store_agree : (f.store n data h).Agree f n :=
  take_overwrite (by rw [f.size_eq]; omega) data

theorem take_store :
    (f.store n data h).memory.take (n + data.length) = f.memory.take n ++ data :=
  take_overwrite_length (by rw [f.size_eq]; omega) data

theorem received_store (hreceived : f.Received n) {k : ℕ} (hk : f.getRemainingSize n = some k)
    (hdata : data ≠ []) (hle : data.length ≤ k) :
    (f.store n data h).Received (n + data.length) := by
  have hpos := List.length_pos_iff.2 hdata
  refine .inr ⟨by omega, fun size hsize => ?_⟩
  rcases hreceived with rfl | ⟨hn, hreceived⟩
  · rw [getRemainingSize, if_pos Nat.one_pos, Option.some.injEq] at hk
    omega
  · rw [getRemainingSize_eq hn] at hk
    obtain ⟨size', hsize', hremain⟩ := Option.map_eq_some_iff.1 hk
    have hagree : (f.store n data h).Agree f n := store_agree
    have htype := type_of_agree hagree hn
    unfold contentSize at hsize hsize'
    rw [htype] at hsize
    cases ht : f.type with
    | none => rw [ht] at hsize'; cases hsize'
    | some t =>
      rw [ht] at hsize hsize'
      cases t with
      | data =>
        simp only at hsize hsize'
        rw [if_neg (by omega)] at hsize
        by_cases h1 : n - 1 < 1
        · rw [if_pos h1] at hsize'
          split_ifs at hsize
          simp only [Option.some.injEq] at hsize hsize'
          omega
        · rw [if_neg h1] at hsize'
          rw [dataSize_of_agree hagree (by omega)] at hsize
          rw [hsize] at hsize'
          simp only [Option.some.injEq] at hsize'
          omega
      | _ =>
        simp only [Option.some.injEq] at hsize hsize'
        omega

end Store

theorem take_encoded (hn : n ≤ e.getEncodedSize) : e.encoded.take n = e.memory.take n := by
  rw [encoded, List.take_take, min_eq_left hn]

end ExpansionFrame

/-- The callback, with everything it gives kept. -/
def ExpansionFrameReceiveCallback.logged {κ : Type} (receive : ExpansionFrameReceiveCallback κ) :
    ExpansionFrameReceiveCallback (κ × List (List UInt8)) where
  receive dataSize context :=
    ((receive.receive dataSize context.1).1,
      (receive.receive dataSize context.1).2,
      context.2 ++ [(receive.receive dataSize context.1).1])
  fits dataSize context := receive.fits dataSize context.1

/-- The callback gives the rest of some bytes in pieces of its own choice, none of them empty. -/
structure ExpansionFrameReceiveCallback.Delivers {κ : Type}
    (receive : ExpansionFrameReceiveCallback κ) (rest : κ → List UInt8) : Prop where
  split : ∀ dataSize context, (receive.receive dataSize context).1 ++
    rest (receive.receive dataSize context).2 = rest context
  nonempty : ∀ dataSize context, 0 < dataSize → rest context ≠ [] →
    (receive.receive dataSize context).1 ≠ []

namespace ExpansionProtocol

open ExpansionFrame

variable {κ : Type} {receive : ExpansionFrameReceiveCallback κ} {f e : ExpansionFrame} {c : κ}
  {n k : ℕ}

section Rounds

theorem decodeLoop_none (h : f.getRemainingSize n = none) :
    decodeLoop receive f c n = some (.errorFormat, f, n, c) := by
  rw [decodeLoop]
  simp only [h]

theorem decodeLoop_zero (h : f.getRemainingSize n = some 0) :
    decodeLoop receive f c n = some (.ok, f, n, c) := by
  rw [decodeLoop]
  simp only [h]

theorem decodeLoop_empty (h : f.getRemainingSize n = some (k + 1))
    (hempty : (receive.receive (k + 1) c).1 = []) :
    decodeLoop receive f c n =
      some (.errorCommunication, f, n, (receive.receive (k + 1) c).2) := by
  rw [decodeLoop]
  simp only [h]
  rw [if_pos (List.length_eq_zero_iff.2 hempty)]

theorem room (h : f.getRemainingSize n = some (k + 1)) :
    n + (receive.receive (k + 1) c).1.length ≤ EXPANSION_FRAME_SIZE := by
  have hfits := receive.fits (k + 1) c
  have hroom := room_of_remaining h
  omega

theorem decodeLoop_succ (h : f.getRemainingSize n = some (k + 1))
    (hdata : (receive.receive (k + 1) c).1 ≠ []) :
    decodeLoop receive f c n =
      decodeLoop receive (f.store n (receive.receive (k + 1) c).1 (room h))
        (receive.receive (k + 1) c).2 (n + (receive.receive (k + 1) c).1.length) := by
  rw [decodeLoop]
  simp only [h]
  rw [if_neg (fun hzero => hdata (List.length_eq_zero_iff.1 hzero)), dif_pos (room h)]

end Rounds

theorem decodeLoop_delivers {rest : κ → List UInt8} (hdelivers : receive.Delivers rest)
    (he : e.WellFormed) {tail : List UInt8} : ∀ (m : ℕ) {f : ExpansionFrame} {c : κ} {n : ℕ},
    e.getEncodedSize ≤ n + m → f.Agree e n → n ≤ e.getEncodedSize →
    rest c = e.encoded.drop n ++ tail →
    ∃ f' c', decodeLoop receive f c n = some (.ok, f', e.getEncodedSize, c') ∧
      f'.Agree e e.getEncodedSize ∧ rest c' = tail
  | m, f, c, n, hm, hagree, hn, hrest => by
    obtain ⟨k, hk, hle, hzero⟩ := getRemainingSize_of_agree he hagree hn
    have hlength := length_encoded he
    cases k with
    | zero =>
      obtain rfl := hzero rfl
      refine ⟨f, c, decodeLoop_zero hk, hagree, ?_⟩
      rw [hrest, List.drop_of_length_le hlength.le, List.nil_append]
    | succ k =>
      have hdrop : (e.encoded.drop n).length = e.getEncodedSize - n := by
        rw [List.length_drop, hlength]
      have hne : rest c ≠ [] := by
        rw [hrest, ← List.length_pos_iff, List.length_append]
        omega
      obtain ⟨data, hdata⟩ : ∃ data, data = (receive.receive (k + 1) c).1 := ⟨_, rfl⟩
      have hdata_ne : (receive.receive (k + 1) c).1 ≠ [] :=
        hdelivers.nonempty (k + 1) c (Nat.succ_pos k) hne
      have hfits := receive.fits (k + 1) c
      have hsplit := hdelivers.split (k + 1) c
      rw [decodeLoop_succ hk hdata_ne]
      have hpos := List.length_pos_iff.2 hdata_ne
      have hpiece : (receive.receive (k + 1) c).1 =
          (e.encoded.drop n).take (receive.receive (k + 1) c).1.length := by
        have htake := congrArg (List.take (receive.receive (k + 1) c).1.length) (hsplit.trans hrest)
        rwa [List.take_left, List.take_append_of_le_length (by omega)] at htake
      have hrest' : rest (receive.receive (k + 1) c).2 =
          e.encoded.drop (n + (receive.receive (k + 1) c).1.length) ++ tail := by
        have hdrop' := congrArg (List.drop (receive.receive (k + 1) c).1.length)
          (hsplit.trans hrest)
        rwa [List.drop_left, List.drop_append_of_le_length (by omega), List.drop_drop] at hdrop'
      cases m with
      | zero => omega
      | succ m =>
        refine decodeLoop_delivers hdelivers he m (by omega) ?_ (by omega) hrest'
        have hagree' : f.memory.take n = e.encoded.take n := by rw [take_encoded hn]; exact hagree
        show List.take _ _ = List.take _ _
        rw [take_store, hagree', ← take_encoded (show _ ≤ e.getEncodedSize by omega), List.take_add,
          ← hpiece]

/-- How the loop is left, whatever the callback gives. -/
structure LoopEnds (status : ExpansionProtocolStatus) (f : ExpansionFrame) (n : ℕ)
    (log : List (List UInt8)) : Prop where
  received : f.Received n
  taken : f.memory.take n = log.flatten
  size : n ≤ EXPANSION_FRAME_SIZE
  calls : log.length ≤ EXPANSION_FRAME_SIZE
  complete : status = .ok ↔ f.getRemainingSize n = some 0

theorem decodeLoop_ends (receive : ExpansionFrameReceiveCallback κ) :
    ∀ (m : ℕ) {f : ExpansionFrame} {c : κ} {log : List (List UInt8)} {n : ℕ},
    EXPANSION_FRAME_SIZE ≤ n + m → f.Received n → f.memory.take n = log.flatten →
    n ≤ EXPANSION_FRAME_SIZE → log.length ≤ n →
    ∃ status f' n' c' log', decodeLoop receive.logged f (c, log) n =
        some (status, f', n', c', log') ∧
      decodeLoop receive f c n = some (status, f', n', c') ∧ LoopEnds status f' n' log'
  | m, f, c, log, n, hm, hreceived, htaken, hn, hcalls => by
    cases hremaining : f.getRemainingSize n with
    | none =>
      refine ⟨_, f, n, c, log, decodeLoop_none hremaining, decodeLoop_none hremaining,
        hreceived, htaken, hn, by omega, ?_⟩
      rw [hremaining]
      exact ⟨nofun, nofun⟩
    | some k =>
      cases k with
      | zero =>
        exact ⟨_, f, n, c, log, decodeLoop_zero hremaining, decodeLoop_zero hremaining,
          hreceived, htaken, hn, by omega, iff_of_true rfl hremaining⟩
      | succ k =>
        have hroom := room_of_remaining hremaining
        by_cases hempty : (receive.receive (k + 1) c).1 = []
        · refine ⟨_, f, n, _, _, decodeLoop_empty (c := (c, log)) hremaining hempty,
            decodeLoop_empty hremaining hempty, hreceived, ?_, hn, ?_, ?_⟩
          · simp only [hempty, List.flatten_append, List.flatten_cons, List.flatten_nil,
              List.append_nil]
            exact htaken
          · simp only [List.length_append, List.length_singleton]
            omega
          · rw [hremaining]
            exact ⟨nofun, nofun⟩
        · have hfits := receive.fits (k + 1) c
          have hpos := List.length_pos_iff.2 hempty
          have hlogged : decodeLoop receive.logged f (c, log) n =
              decodeLoop receive.logged (f.store n (receive.receive (k + 1) c).1 (room hremaining))
                ((receive.receive (k + 1) c).2, log ++ [(receive.receive (k + 1) c).1])
                (n + (receive.receive (k + 1) c).1.length) :=
            decodeLoop_succ (c := (c, log)) hremaining hempty
          rw [hlogged, decodeLoop_succ hremaining hempty]
          cases m with
          | zero => omega
          | succ m =>
            refine decodeLoop_ends receive m (by omega)
              (received_store hreceived hremaining hempty hfits) ?_ (by omega) ?_
            · simp only [List.flatten_append, List.flatten_cons, List.flatten_nil, List.append_nil,
                ← htaken]
              exact take_store
            · rw [List.length_append, List.length_singleton]
              omega

/-- What stands before a checksum can be one frame only, and only a frame of which nothing
remains. -/
theorem LoopEnds.encoded_eq {status : ExpansionProtocolStatus} {log : List (List UInt8)}
    (h : LoopEnds status f n log) {data : List UInt8} (he : e.WellFormed) {checksum : UInt8}
    (hdata : data.length ≤ 1) (heq : log.flatten ++ data = e.encoded ++ [checksum]) :
    status = .ok ∧ log.flatten = e.encoded ∧ data = [checksum] := by
  have hlen : n + data.length = e.getEncodedSize + 1 := by
    have hlen := congrArg List.length heq
    rw [← h.taken] at hlen
    simp only [List.length_append, List.length_take, f.size_eq, min_eq_left h.size,
      length_encoded he, List.length_singleton] at hlen
    exact hlen
  have hagree : f.Agree e e.getEncodedSize := by
    have htake := congrArg (List.take e.getEncodedSize) heq
    rw [← h.taken, List.take_append_of_le_length (by
        rw [List.length_take, f.size_eq, min_eq_left h.size]; omega), List.take_take,
      min_eq_left (by omega), List.take_append_of_le_length (length_encoded he).ge,
      take_encoded le_rfl] at htake
    exact htake
  have hok : status = .ok := h.complete.2 (getRemainingSize_of_all he hagree (by omega))
  obtain ⟨-, hnf⟩ := wellFormed_of_complete h.received (h.complete.1 hok)
  have hsize : n = e.getEncodedSize := by rw [hnf, encodedSize_of_agree he hagree]
  obtain ⟨hflatten, hrest⟩ := List.append_inj heq (by
    rw [← h.taken, List.length_take, f.size_eq, min_eq_left h.size, length_encoded he, hsize])
  exact ⟨hok, hflatten, hrest⟩

/-- A send callback that takes everything. -/
def sendAll : ExpansionFrameSendCallback (List UInt8) :=
  fun data sent => (data.length, sent ++ data)

theorem encode_eq (he : e.WellFormed) :
    encode e sendAll [] = (.ok, e.encoded ++ [getChecksum e.encoded]) := by
  have hone := one_le_encodedSize he
  have hlength : (sendAll (e.memory.take e.getEncodedSize) []).1 = e.getEncodedSize :=
    length_encoded he
  unfold encode
  dsimp only
  rw [if_neg (by omega), if_neg (not_not.2 hlength)]
  rfl

theorem decode_delivers {rest : κ → List UInt8} (hdelivers : receive.Delivers rest)
    (he : e.WellFormed) (f : ExpansionFrame) {tail : List UInt8}
    (hrest : rest c = e.encoded ++ getChecksum e.encoded :: tail) :
    ∃ f' c', decode f receive c = some (.ok, f', c') ∧ f'.encoded = e.encoded ∧ rest c' = tail := by
  obtain ⟨f', c', hloop, hagree, hrest'⟩ :=
    decodeLoop_delivers hdelivers he EXPANSION_FRAME_SIZE (n := 0)
      (by rw [Nat.zero_add]; exact encodedSize_le he) (f := f) rfl (Nat.zero_le _) hrest
  have hfits := receive.fits 1 c'
  have hsplit := hdelivers.split 1 c'
  have hne := hdelivers.nonempty 1 c' Nat.one_pos (by rw [hrest']; exact List.cons_ne_nil _ _)
  obtain ⟨checksum, hchecksum⟩ : ∃ checksum, (receive.receive 1 c').1 = [checksum] := by
    refine List.length_eq_one_iff.1 ?_
    have := List.length_pos_iff.2 hne
    omega
  rw [hchecksum, hrest', List.singleton_append, List.cons.injEq] at hsplit
  refine ⟨f', (receive.receive 1 c').2, ?_, encoded_of_agree he hagree, hsplit.2⟩
  unfold decode
  rw [hloop]
  simp only [Option.map_some, ne_eq, not_true_eq_false, if_false, hchecksum]
  have htaken : f'.memory.take e.getEncodedSize = e.encoded := hagree
  rw [htaken, hsplit.1, if_neg (not_not.2 rfl)]

/-- Whatever the callback gives, decoding ends with a result, and it succeeds just if what it was
given is a frame and its checksum. -/
theorem decode_ends (receive : ExpansionFrameReceiveCallback κ) (f : ExpansionFrame) (c : κ) :
    ∃ status f' c' log, decode f receive.logged (c, []) = some (status, f', c', log) ∧
      decode f receive c = some (status, f', c') ∧ log.length ≤ EXPANSION_FRAME_SIZE + 1 ∧
      (status = .ok ↔
        ∃ e : ExpansionFrame, e.WellFormed ∧ log.flatten = e.encoded ++ [getChecksum e.encoded]) := by
  obtain ⟨status, f', n, c', log, hlogged, hloop, hends⟩ :=
    decodeLoop_ends receive EXPANSION_FRAME_SIZE (f := f) (c := c) (n := 0)
      (by omega) (.inl rfl) (rfl : _ = ([] : List (List UInt8)).flatten) (Nat.zero_le _) le_rfl
  have hcalls := hends.calls
  unfold decode
  rw [hlogged, hloop]
  by_cases hok : status = .ok
  · subst hok
    obtain ⟨hf, hn⟩ := wellFormed_of_complete hends.received (hends.complete.1 rfl)
    have htaken : f'.encoded = log.flatten := by
      rw [← hends.taken, hn]
      rfl
    have hfits := receive.fits 1 c'
    simp only [Option.map_some, ne_eq, not_true_eq_false, if_false,
      ExpansionFrameReceiveCallback.logged]
    obtain ⟨data, hdata⟩ : ∃ data, (receive.receive 1 c').1 = data := ⟨_, rfl⟩
    rw [hdata] at hfits ⊢
    have hflatten : (log ++ [data]).flatten = log.flatten ++ data := by simp
    have hlength : (log ++ [data]).length ≤ EXPANSION_FRAME_SIZE + 1 := by
      rw [List.length_append, List.length_singleton]
      omega
    rcases data with _ | ⟨checksum, _ | ⟨checksum', data⟩⟩
    · refine ⟨_, f', _, _, rfl, rfl, hlength, nofun, ?_⟩
      rintro ⟨e, he, heq⟩
      rw [hflatten] at heq
      obtain ⟨-, -, hnil⟩ := hends.encoded_eq he (by simp) heq
      cases hnil
    · by_cases hsum : checksum = getChecksum (f'.memory.take n)
      · simp only [hsum, not_true_eq_false, if_false]
        refine ⟨_, f', _, _, rfl, rfl, by rw [← hsum]; exact hlength, fun _ => ⟨f', hf, ?_⟩,
          fun _ => rfl⟩
        rw [← hsum, hflatten, ← htaken, hsum, hn]
        rfl
      · simp only [hsum, not_false_eq_true, if_true]
        refine ⟨_, f', _, _, rfl, rfl, hlength, nofun, ?_⟩
        rintro ⟨e, he, heq⟩
        rw [hflatten] at heq
        obtain ⟨-, heq', hdata'⟩ := hends.encoded_eq he le_rfl heq
        refine absurd ?_ hsum
        rw [List.cons.injEq] at hdata'
        rw [hdata'.1, hends.taken, heq']
    · simp at hfits
  · simp only [Option.map_some, ne_eq, hok, not_false_eq_true, if_true]
    refine ⟨status, f', _, _, rfl, rfl, by omega, ?_⟩
    simp only [hok, false_iff]
    rintro ⟨e, he, heq⟩
    rw [← List.append_nil log.flatten] at heq
    exact hok (hends.encoded_eq he (Nat.zero_le _) heq).1

/-- A well-formed frame arrives however it is cut into pieces, and nothing else is taken for
one. -/
theorem expansion_codec :
    (∀ e : ExpansionFrame, e.WellFormed →
      encode e sendAll [] = (.ok, e.encoded ++ [getChecksum e.encoded]) ∧
      ∀ (κ : Type) (receive : ExpansionFrameReceiveCallback κ) (rest : κ → List UInt8),
        receive.Delivers rest → ∀ (f : ExpansionFrame) (c : κ) (tail : List UInt8),
        rest c = (e.encoded ++ [getChecksum e.encoded]) ++ tail →
        ∃ f' c', decode f receive c = some (.ok, f', c') ∧ f'.encoded = e.encoded ∧
          rest c' = tail) ∧
    ∀ (κ : Type) (receive : ExpansionFrameReceiveCallback κ) (f : ExpansionFrame) (c : κ),
      ∃ status f' c' log, decode f receive.logged (c, []) = some (status, f', c', log) ∧
        decode f receive c = some (status, f', c') ∧ log.length ≤ EXPANSION_FRAME_SIZE + 1 ∧
        (status = .ok ↔ ∃ e : ExpansionFrame, e.WellFormed ∧
          log.flatten = e.encoded ++ [getChecksum e.encoded]) := by
  refine ⟨fun e he => ⟨encode_eq he, ?_⟩, fun κ receive f c => decode_ends receive f c⟩
  intro κ receive rest hdelivers f c tail hrest
  refine decode_delivers hdelivers he f ?_
  rw [hrest, List.append_assoc]
  rfl

/-- All that there is, as far as it is asked for. -/
def receiveAll : ExpansionFrameReceiveCallback (List UInt8) where
  receive dataSize rest := (rest.take dataSize, rest.drop dataSize)
  fits dataSize rest := List.length_take_le dataSize rest

theorem receiveAll_delivers : receiveAll.Delivers id where
  split dataSize rest := List.take_append_drop dataSize rest
  nonempty dataSize rest hpos hne := by
    simp only [receiveAll, id_eq] at hne ⊢
    rw [ne_eq, List.take_eq_nil_iff, not_or]
    exact ⟨by omega, hne⟩

def dataFrame : ExpansionFrame :=
  ⟨5 :: 3 :: 222 :: 173 :: 190 :: List.replicate 61 0, rfl⟩

theorem expansion_codec_dataFrame :
    dataFrame.WellFormed ∧
      ∃ f' c', decode dataFrame receiveAll
          ((dataFrame.encoded ++ [getChecksum dataFrame.encoded]) ++ [7]) = some (.ok, f', c') ∧
        f'.encoded = [5, 3, 222, 173, 190] ∧ c' = [7] := by
  have hwell : dataFrame.WellFormed := by decide
  exact ⟨hwell, (expansion_codec.1 dataFrame hwell).2 (List UInt8) receiveAll id receiveAll_delivers
    dataFrame _ [7] rfl⟩

end ExpansionProtocol

end KiisuFirmware
