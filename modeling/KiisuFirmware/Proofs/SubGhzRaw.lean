import KiisuFirmware.SubGhzRaw
import Mathlib.Data.List.ModifyLast

/-!
# What a raw capture keeps

Nothing is stored behind the end of the buffer for as long as no edge is accepted while it is full
(`Room`). It is full only after a write that failed: where every write ends well, the arrays of a
file and what the buffer holds together are the edges accepted since the file was opened
(`Capturing`).
-/

namespace KiisuFirmware

namespace SubGhzProtocolDecoderRaw

/-- The edge is stored. -/
def Accepts (d : SubGhzProtocolDecoderRaw) (level : Bool) (duration : UInt32) : Prop :=
  d.pause = false ∧ d.uploadRaw ≠ none ∧ duration < 1000000 ∧ RAW_TE_SHORT < duration ∧
    d.lastLevel ≠ level

/-- No edge is accepted while the buffer is full. -/
def Room (d : SubGhzProtocolDecoderRaw) : RawInput → Prop
  | .feed level duration _ => d.Accepts level duration → d.indWrite ≠ SUBGHZ_DOWNLOAD_MAX_SIZE
  | _ => True

variable {d : SubGhzProtocolDecoderRaw} {level isWrite : Bool} {duration : UInt32}

/-! ## The bound -/

theorem saveToFileWrite_indWrite (h : d.indWrite ≤ SUBGHZ_DOWNLOAD_MAX_SIZE) :
    (d.saveToFileWrite isWrite).indWrite ≤ SUBGHZ_DOWNLOAD_MAX_SIZE := by
  unfold saveToFileWrite
  split
  · split_ifs
    · exact Nat.zero_le _
    · exact h
  · exact h

theorem flush_indWrite (h : d.indWrite ≤ SUBGHZ_DOWNLOAD_MAX_SIZE) :
    (d.flush isWrite).indWrite ≤ SUBGHZ_DOWNLOAD_MAX_SIZE := by
  unfold flush
  split_ifs
  · exact saveToFileWrite_indWrite h
  · exact h

theorem feed_of_not_accepts (isWrite : Bool) (h : ¬d.Accepts level duration) :
    d.feed level duration isWrite = .ok d ∨
      d.feed level duration isWrite = .ok (d.flush isWrite) := by
  unfold feed
  split
  · rename_i uploadRaw hpause hupload
    split_ifs with hlong hedge
    · refine absurd ⟨hpause, ?_, hlong, hedge⟩ h
      rw [hupload]
      exact Option.some_ne_none _
    · exact .inr rfl
    · exact .inl rfl
  · exact .inl rfl

theorem feed_of_accepts (isWrite : Bool) (h : d.Accepts level duration) :
    ∃ uploadRaw, d.uploadRaw = some uploadRaw ∧ d.feed level duration isWrite =
      (d.store uploadRaw level duration).map (flush · isWrite) := by
  obtain ⟨hpause, hupload, hlong, hedge⟩ := h
  obtain ⟨uploadRaw, huploadRaw⟩ := Option.ne_none_iff_exists'.1 hupload
  refine ⟨uploadRaw, huploadRaw, ?_⟩
  unfold feed
  rw [hpause, huploadRaw]
  dsimp only
  rw [if_pos hlong, if_pos hedge]

theorem store_of_lt (h : d.indWrite < SUBGHZ_DOWNLOAD_MAX_SIZE)
    (uploadRaw : Vector Int32 SUBGHZ_DOWNLOAD_MAX_SIZE) :
    d.store uploadRaw level duration = .ok { d with
      lastLevel := level
      uploadRaw := some (uploadRaw.set d.indWrite (sample level duration))
      indWrite := d.indWrite + 1 } :=
  dif_pos h

/-- An edge can be fed just if there is room for it, and the index stays within the buffer. -/
theorem step_room (h : d.indWrite ≤ SUBGHZ_DOWNLOAD_MAX_SIZE) (i : RawInput) :
    (d.Room i ↔ ∃ d', d.step i = .ok d') ∧
      ∀ d', d.step i = .ok d' → d'.indWrite ≤ SUBGHZ_DOWNLOAD_MAX_SIZE := by
  cases i with
  | saveToFileInit init =>
    refine ⟨iff_of_true trivial ⟨_, rfl⟩, fun d' hd' => ?_⟩
    cases hd'
    unfold saveToFileInit
    split_ifs <;> exact h
  | saveToFilePause pause =>
    refine ⟨iff_of_true trivial ⟨_, rfl⟩, fun d' hd' => ?_⟩
    cases hd'
    unfold saveToFilePause
    split_ifs <;> exact h
  | reset =>
    refine ⟨iff_of_true trivial ⟨_, rfl⟩, fun d' hd' => ?_⟩
    cases hd'
    exact Nat.zero_le _
  | saveToFileStop isWrite =>
    refine ⟨iff_of_true trivial ⟨_, rfl⟩, fun d' hd' => ?_⟩
    cases hd'
    simp only [saveToFileStop]
    split_ifs
    all_goals first | exact saveToFileWrite_indWrite h | exact h
  | feed level duration isWrite =>
    by_cases haccepts : d.Accepts level duration
    · obtain ⟨uploadRaw, -, hfeed⟩ := feed_of_accepts isWrite haccepts
      by_cases hroom : d.indWrite < SUBGHZ_DOWNLOAD_MAX_SIZE
      · rw [store_of_lt hroom] at hfeed
        refine ⟨iff_of_true (fun _ => hroom.ne) ⟨_, hfeed⟩, fun d' hd' => ?_⟩
        rw [show d.step (.feed level duration isWrite) = _ from hfeed] at hd'
        cases hd'
        exact flush_indWrite hroom
      · have hfull : d.indWrite = SUBGHZ_DOWNLOAD_MAX_SIZE := by omega
        have herror : d.step (.feed level duration isWrite) = .error .outOfBounds := by
          refine hfeed.trans ?_
          rw [store, dif_neg hroom]
          rfl
        rw [herror]
        refine ⟨iff_of_false (fun hr => hr haccepts hfull) ?_, nofun⟩
        rintro ⟨d', hd'⟩
        cases hd'
    · refine (feed_of_not_accepts isWrite haccepts).elim (fun hfeed => ?_) fun hfeed => ?_
      all_goals
        refine ⟨iff_of_true (fun ha => absurd ha haccepts) ⟨_, hfeed⟩, fun d' hd' => ?_⟩
        rw [show d.step (.feed level duration isWrite) = _ from hfeed] at hd'
        cases hd'
      · exact h
      · exact flush_indWrite h

theorem alloc_indWrite : alloc.indWrite ≤ SUBGHZ_DOWNLOAD_MAX_SIZE := Nat.zero_le _

theorem exec_bounded (inputs : List RawInput) :
    ((∃ d, exec step alloc inputs = .ok d) ↔ ExecAlong Room step alloc inputs) ∧
      ∀ d, exec step alloc inputs = .ok d → d.indWrite ≤ SUBGHZ_DOWNLOAD_MAX_SIZE := by
  have hkeep : ∀ d i d', d.indWrite ≤ SUBGHZ_DOWNLOAD_MAX_SIZE → step d i = .ok d' →
      d'.indWrite ≤ SUBGHZ_DOWNLOAD_MAX_SIZE := fun d i d' hd => (step_room hd i).2 d'
  constructor
  · exact (exec_ok_iff hkeep (fun d i hd => (step_room hd i).1) inputs alloc_indWrite).symm
  · intro d hexec
    exact exec_stays hkeep inputs alloc_indWrite hexec

/-! ## What is captured -/

/-- What comes in between the opening of a file and the stop of it, where each write ends well. -/
def Undisturbed : RawInput → Prop
  | .feed _ _ isWrite => isWrite = true
  | .saveToFilePause _ => True
  | _ => False

/-- A file is opened and, after some inputs, closed. -/
def session (inputs : List RawInput) : List RawInput :=
  .saveToFileInit true :: inputs ++ [.saveToFileStop true]

/-- The edges that are accepted behind one of this level: those of another one that last longer
than `te_short` and shorter than a second, where no pause is made. -/
def acceptedEdges : Bool → Bool → List RawInput → List (Bool × UInt32)
  | _, _, [] => []
  | lastLevel, pause, .feed level duration _ :: inputs =>
    if pause = false ∧ RAW_TE_SHORT < duration ∧ duration < 1000000 ∧ level ≠ lastLevel then
      (level, duration) :: acceptedEdges level pause inputs
    else acceptedEdges lastLevel pause inputs
  | lastLevel, _, .saveToFilePause pause :: inputs => acceptedEdges lastLevel pause inputs
  | lastLevel, pause, _ :: inputs => acceptedEdges lastLevel pause inputs

/-- A high level is a positive number, a low one a negative number. -/
def signed (edge : Bool × UInt32) : ℤ := if edge.1 then edge.2.toNat else -edge.2.toNat

/-- Numbers of which the first has this sign and each other one another sign than that before. -/
def Alternating : Bool → List ℤ → Prop
  | _, [] => True
  | positive, x :: xs => (if positive then 0 < x else x < 0) ∧ Alternating (!positive) xs

/-- The buffer holds what is captured, but for the arrays that are in the last file. -/
def Buffered (d : SubGhzProtocolDecoderRaw) (files : List (List (List Int32)))
    (captured : List Int32) : Prop :=
  ∃ uploadRaw arrays, d.uploadRaw = some uploadRaw ∧ d.files = files ++ [arrays] ∧
    arrays.flatten ++ uploadRaw.toList.take d.indWrite = captured

/-- A file is open, and this was captured since. -/
structure Capturing (d : SubGhzProtocolDecoderRaw) (files : List (List (List Int32)))
    (captured : List Int32) : Prop where
  fileIsOpen : d.fileIsOpen = .write
  room : d.indWrite < SUBGHZ_DOWNLOAD_MAX_SIZE
  buffered : d.Buffered files captured

/-- No file is open, and nothing is left to write. -/
structure Idle (d : SubGhzProtocolDecoderRaw) : Prop where
  fileIsOpen : d.fileIsOpen = .close
  indWrite : d.indWrite = 0

variable {files : List (List (List Int32))} {captured : List Int32}

theorem sample_toInt (h : duration < 1000000) :
    (sample level duration).toInt = signed (level, duration) := by
  have hlt : duration.toNat < 1000000 := h
  have hpositive : duration.toBitVec.toInt = duration.toNat :=
    BitVec.toInt_eq_toNat_of_lt (by rw [UInt32.toNat_toBitVec]; omega)
  cases level with
  | true => exact hpositive
  | false =>
    have hneg : (-duration).toInt32.toInt = (-duration.toBitVec).toInt := rfl
    show (-duration).toInt32.toInt = -(duration.toNat : ℤ)
    rw [hneg, BitVec.toInt_neg, hpositive]
    exact Int.bmod_eq_of_le (by omega) (by omega)

theorem take_set (uploadRaw : Vector Int32 SUBGHZ_DOWNLOAD_MAX_SIZE) {i : ℕ}
    (h : i < SUBGHZ_DOWNLOAD_MAX_SIZE) (x : Int32) :
    (uploadRaw.set i x).toList.take (i + 1) = uploadRaw.toList.take i ++ [x] := by
  have hlength : i < uploadRaw.toList.length := by rwa [Vector.length_toList]
  rw [Vector.toList_set, List.take_add_one, List.take_set_of_le le_rfl,
    List.getElem?_set_self hlength]
  rfl

theorem saveToFileInit_capturing (h : d.indWrite = 0) :
    (d.saveToFileInit true).Capturing d.files [] where
  fileIsOpen := rfl
  room := by
    show d.indWrite < _
    rw [h]
    decide
  buffered := by
    refine ⟨_, [], rfl, rfl, ?_⟩
    show [] ++ List.take d.indWrite _ = []
    rw [h]
    rfl

theorem saveToFileWrite_eq (hopen : d.fileIsOpen = .write) (h : d.Buffered files captured) :
    ∃ arrays, arrays.flatten = captured ∧ d.saveToFileWrite true =
      { d with
        files := files ++ [arrays]
        sampleWrite := uint32 (d.sampleWrite + d.indWrite)
        indWrite := 0 } := by
  obtain ⟨uploadRaw, arrays, hupload, hfiles, rfl⟩ := h
  refine ⟨arrays ++ [uploadRaw.toList.take d.indWrite], ?_, ?_⟩
  · rw [List.flatten_append, List.flatten_singleton]
  · have hlast : appendRawData d.files (uploadRaw.toList.take d.indWrite) =
        files ++ [arrays ++ [uploadRaw.toList.take d.indWrite]] := by
      rw [hfiles, appendRawData, List.modifyLast_concat]
    unfold saveToFileWrite
    rw [hopen, hupload]
    simp only [↓reduceIte, hlast]

theorem flush_capturing (hopen : d.fileIsOpen = .write)
    (hindWrite : d.indWrite ≤ SUBGHZ_DOWNLOAD_MAX_SIZE) (h : d.Buffered files captured) :
    (d.flush true).Capturing files captured ∧ (d.flush true).lastLevel = d.lastLevel ∧
      (d.flush true).pause = d.pause := by
  unfold flush
  split_ifs with hfull
  · obtain ⟨arrays, hflatten, heq⟩ := saveToFileWrite_eq hopen h
    obtain ⟨uploadRaw, -, hupload, -, -⟩ := h
    rw [heq]
    refine ⟨⟨hopen, by show 0 < _; decide, uploadRaw, arrays, hupload, rfl, ?_⟩, rfl, rfl⟩
    rw [List.take_zero, List.append_nil, hflatten]
  · exact ⟨⟨hopen, by omega, h⟩, rfl, rfl⟩

theorem feed_capturing (h : d.Capturing files captured) (level : Bool) (duration : UInt32) :
    ∃ d', d.feed level duration true = .ok d' ∧ d'.pause = d.pause ∧
      if d.pause = false ∧ RAW_TE_SHORT < duration ∧ duration < 1000000 ∧ level ≠ d.lastLevel then
        d'.Capturing files (captured ++ [sample level duration]) ∧ d'.lastLevel = level
      else d'.Capturing files captured ∧ d'.lastLevel = d.lastLevel := by
  obtain ⟨uploadRaw, arrays, hupload, hfiles, hcaptured⟩ := h.buffered
  split_ifs with hedge
  · obtain ⟨hpause, hshort, hlong, hlevel⟩ := hedge
    have haccepts : d.Accepts level duration :=
      ⟨hpause, by rw [hupload]; exact Option.some_ne_none _, hlong, hshort, hlevel.symm⟩
    obtain ⟨uploadRaw', hupload', hfeed⟩ := feed_of_accepts true haccepts
    obtain rfl : uploadRaw = uploadRaw' := Option.some.inj (hupload.symm.trans hupload')
    rw [store_of_lt h.room] at hfeed
    obtain ⟨d', hd'⟩ : ∃ d' : SubGhzProtocolDecoderRaw, d' = { d with
        lastLevel := level
        uploadRaw := some (uploadRaw.set d.indWrite (sample level duration) h.room)
        indWrite := d.indWrite + 1 } := ⟨_, rfl⟩
    have hbuffered : d'.Buffered files (captured ++ [sample level duration]) := by
      refine ⟨uploadRaw.set d.indWrite (sample level duration) h.room, arrays, ?_, ?_, ?_⟩
      · rw [hd']
      · rw [hd']
        exact hfiles
      · rw [hd']
        show arrays.flatten ++ List.take (d.indWrite + 1) _ = _
        rw [take_set uploadRaw h.room, ← List.append_assoc, hcaptured]
    have hflush := flush_capturing (by rw [hd']; exact h.fileIsOpen)
      (by rw [hd']; exact h.room) hbuffered
    rw [hd'] at hflush
    exact ⟨_, hfeed, hflush.2.2, hflush.1, hflush.2.1⟩
  · have hrefused : ¬d.Accepts level duration := fun ha =>
      hedge ⟨ha.1, ha.2.2.2.1, ha.2.2.1, ha.2.2.2.2.symm⟩
    rcases feed_of_not_accepts true hrefused with hfeed | hfeed
    · exact ⟨d, hfeed, rfl, h, rfl⟩
    · obtain ⟨hflushed, hlevel, hpause⟩ := flush_capturing h.fileIsOpen h.room.le h.buffered
      exact ⟨_, hfeed, hpause, hflushed, hlevel⟩

/-- While a file is open, the edges that are accepted are captured one after the other. -/
theorem exec_capturing : ∀ (inputs : List RawInput) {d : SubGhzProtocolDecoderRaw}
    {captured : List Int32}, d.Capturing files captured → (∀ i ∈ inputs, Undisturbed i) →
    ∃ d', exec step d inputs = .ok d' ∧ d'.Capturing files
      (captured ++ (acceptedEdges d.lastLevel d.pause inputs).map fun edge => sample edge.1 edge.2)
  | [], d, captured, h, _ => by
    refine ⟨d, rfl, ?_⟩
    rwa [acceptedEdges, List.map_nil, List.append_nil]
  | i :: inputs, d, captured, h, hall => by
    have hrest : ∀ i ∈ inputs, Undisturbed i := fun j hj => hall j (List.mem_cons_of_mem i hj)
    have hi := hall i List.mem_cons_self
    cases i with
    | saveToFileInit init => exact hi.elim
    | reset => exact hi.elim
    | saveToFileStop isWrite => exact hi.elim
    | saveToFilePause pause =>
      have hpaused : (d.saveToFilePause pause).Capturing files captured ∧
          (d.saveToFilePause pause).lastLevel = d.lastLevel ∧
          (d.saveToFilePause pause).pause = pause := by
        unfold saveToFilePause
        split_ifs with hne
        · exact ⟨⟨h.fileIsOpen, h.room, h.buffered⟩, rfl, rfl⟩
        · exact ⟨h, rfl, not_ne_iff.1 hne⟩
      obtain ⟨d', hexec, hd'⟩ := exec_capturing inputs hpaused.1 hrest
      rw [hpaused.2.1, hpaused.2.2] at hd'
      exact ⟨d', hexec, hd'⟩
    | feed level duration isWrite =>
      obtain rfl : isWrite = true := hi
      obtain ⟨d₁, hfeed, hpause, hcapturing⟩ := feed_capturing h level duration
      have hexec : exec step d (.feed level duration true :: inputs) = exec step d₁ inputs := by
        rw [exec, List.foldlM_cons, show d.step (.feed level duration true) = .ok d₁ from hfeed]
        rfl
      rw [hexec, acceptedEdges]
      split_ifs at hcapturing ⊢ with hedge
      · obtain ⟨d', hexec, hd'⟩ := exec_capturing inputs hcapturing.1 hrest
        rw [hcapturing.2, hpause, List.append_assoc] at hd'
        exact ⟨d', hexec, hd'⟩
      · obtain ⟨d', hexec, hd'⟩ := exec_capturing inputs hcapturing.1 hrest
        rw [hcapturing.2, hpause] at hd'
        exact ⟨d', hexec, hd'⟩

theorem saveToFileStop_files (h : d.Capturing files captured) :
    (d.saveToFileStop true).Idle ∧
      ∃ arrays, (d.saveToFileStop true).files = files ++ [arrays] ∧ arrays.flatten = captured := by
  by_cases hzero : d.indWrite = 0
  · obtain ⟨uploadRaw, arrays, -, hfiles, hcaptured⟩ := h.buffered
    rw [hzero, List.take_zero, List.append_nil] at hcaptured
    have hstop : (if d.fileIsOpen = .write ∧ d.indWrite ≠ 0 then d.saveToFileWrite true else d) =
        d := if_neg fun hboth => hboth.2 hzero
    unfold saveToFileStop
    rw [hstop]
    exact ⟨⟨rfl, hzero⟩, arrays, hfiles, hcaptured⟩
  · obtain ⟨arrays, hflatten, heq⟩ := saveToFileWrite_eq h.fileIsOpen h.buffered
    have hstop : (if d.fileIsOpen = .write ∧ d.indWrite ≠ 0 then d.saveToFileWrite true else d) =
        d.saveToFileWrite true := if_pos ⟨h.fileIsOpen, hzero⟩
    unfold saveToFileStop
    rw [hstop, heq]
    exact ⟨⟨rfl, rfl⟩, arrays, rfl, hflatten⟩

theorem exec_session (h : d.Idle) {inputs : List RawInput} (hall : ∀ i ∈ inputs, Undisturbed i) :
    ∃ d' arrays, exec step d (session inputs) = .ok d' ∧ d'.Idle ∧ d'.files = d.files ++ [arrays] ∧
      arrays.flatten = (acceptedEdges false false inputs).map fun edge => sample edge.1 edge.2 := by
  obtain ⟨d₁, hexec, hcapturing⟩ := exec_capturing inputs (saveToFileInit_capturing h.indWrite) hall
  obtain ⟨hidle, arrays, hfiles, hflatten⟩ := saveToFileStop_files hcapturing
  refine ⟨d₁.saveToFileStop true, arrays, ?_, hidle, hfiles, hflatten⟩
  have hopened : exec step d (.saveToFileInit true :: inputs) = .ok d₁ := hexec
  rw [session, exec_append, hopened]
  rfl

theorem exec_sessions : ∀ (sessions : List (List RawInput)) {d : SubGhzProtocolDecoderRaw},
    d.Idle → (∀ inputs ∈ sessions, ∀ i ∈ inputs, Undisturbed i) →
    ∃ d', exec step d (sessions.flatMap session) = .ok d' ∧ d'.files.map List.flatten =
      d.files.map List.flatten ++ sessions.map fun inputs =>
        (acceptedEdges false false inputs).map fun edge => sample edge.1 edge.2
  | [], d, _, _ => ⟨d, rfl, (List.append_nil _).symm⟩
  | inputs :: sessions, d, h, hall => by
    obtain ⟨d₁, arrays, hexec, hidle, hfiles, hflatten⟩ :=
      exec_session h (hall inputs List.mem_cons_self)
    obtain ⟨d', hrest, hd'⟩ := exec_sessions sessions hidle fun inputs' hinputs =>
      hall inputs' (List.mem_cons_of_mem _ hinputs)
    refine ⟨d', ?_, ?_⟩
    · rw [List.flatMap_cons, exec_append, hexec]
      exact hrest
    · rw [hd', hfiles, List.map_append, List.map_singleton, hflatten, List.append_assoc]
      rfl

theorem acceptedEdges_lt : ∀ (inputs : List RawInput) {lastLevel pause : Bool},
    ∀ edge ∈ acceptedEdges lastLevel pause inputs, RAW_TE_SHORT < edge.2 ∧ edge.2 < 1000000
  | [], _, _, edge, hedge => by simp [acceptedEdges] at hedge
  | .feed level duration _ :: inputs, lastLevel, pause, edge, hedge => by
    rw [acceptedEdges] at hedge
    split_ifs at hedge with haccepted
    · rcases List.mem_cons.1 hedge with rfl | hedge
      · exact ⟨haccepted.2.1, haccepted.2.2.1⟩
      · exact acceptedEdges_lt inputs edge hedge
    · exact acceptedEdges_lt inputs edge hedge
  | .saveToFilePause _ :: inputs, _, _, edge, hedge => acceptedEdges_lt inputs edge hedge
  | .saveToFileInit _ :: inputs, _, _, edge, hedge => acceptedEdges_lt inputs edge hedge
  | .reset :: inputs, _, _, edge, hedge => acceptedEdges_lt inputs edge hedge
  | .saveToFileStop _ :: inputs, _, _, edge, hedge => acceptedEdges_lt inputs edge hedge

theorem acceptedEdges_alternating : ∀ (inputs : List RawInput) {lastLevel pause : Bool},
    Alternating (!lastLevel) ((acceptedEdges lastLevel pause inputs).map signed)
  | [], _, _ => trivial
  | .feed level duration _ :: inputs, lastLevel, pause => by
    rw [acceptedEdges]
    split_ifs with haccepted
    · obtain ⟨-, hshort, -, hlevel⟩ := haccepted
      obtain rfl : level = !lastLevel := by
        revert hlevel
        cases level <;> cases lastLevel <;> decide
      have hpositive : 0 < duration.toNat := lt_of_le_of_lt (Nat.zero_le _) hshort
      refine ⟨?_, acceptedEdges_alternating inputs⟩
      cases lastLevel
      · show (0 : ℤ) < duration.toNat
        omega
      · show -(duration.toNat : ℤ) < 0
        omega
    · exact acceptedEdges_alternating inputs
  | .saveToFilePause _ :: inputs, _, _ => acceptedEdges_alternating inputs
  | .saveToFileInit _ :: inputs, _, _ => acceptedEdges_alternating inputs
  | .reset :: inputs, _, _ => acceptedEdges_alternating inputs
  | .saveToFileStop _ :: inputs, _, _ => acceptedEdges_alternating inputs

/-- The numbers in a file that the decoder has written. -/
def numbers (arrays : List (List Int32)) : List ℤ := arrays.flatten.map Int32.toInt

/-- A run stores nothing behind the buffer just if no edge is accepted while that is full, and until
it does the index stays within the buffer. Where every write ends well, each file has all edges that
are accepted while it is open, with alternating signs of which the first is positive. -/
theorem capture_bounded_and_faithful (inputs : List RawInput) (sessions : List (List RawInput))
    (hall : ∀ inputs ∈ sessions, ∀ i ∈ inputs, Undisturbed i) :
    (((∃ d, exec step alloc inputs = .ok d) ↔ ExecAlong Room step alloc inputs) ∧
      ∀ d, exec step alloc inputs = .ok d → d.indWrite ≤ SUBGHZ_DOWNLOAD_MAX_SIZE) ∧
    ∃ d, exec step alloc (sessions.flatMap session) = .ok d ∧
      d.files.map numbers =
        sessions.map (fun inputs => (acceptedEdges false false inputs).map signed) ∧
      ∀ arrays ∈ d.files, Alternating true (numbers arrays) := by
  refine ⟨exec_bounded inputs, ?_⟩
  obtain ⟨d, hexec, hfiles⟩ := exec_sessions sessions (d := alloc) ⟨rfl, rfl⟩ hall
  have hsigned : ∀ inputs : List RawInput,
      ((acceptedEdges false false inputs).map fun edge => sample edge.1 edge.2).map Int32.toInt =
        (acceptedEdges false false inputs).map signed := by
    intro inputs
    rw [List.map_map]
    exact List.map_congr_left fun edge hedge => sample_toInt (acceptedEdges_lt inputs edge hedge).2
  have hnumbers : d.files.map numbers =
      sessions.map fun inputs => (acceptedEdges false false inputs).map signed := by
    have hflatten := congrArg (List.map (List.map Int32.toInt)) hfiles
    rw [List.map_map, List.map_append, List.map_map, List.map_map] at hflatten
    exact hflatten.trans (List.map_congr_left fun inputs _ => hsigned inputs)
  refine ⟨d, hexec, hnumbers, fun arrays harrays => ?_⟩
  have hmem : numbers arrays ∈ d.files.map numbers := List.mem_map_of_mem harrays
  rw [hnumbers] at hmem
  obtain ⟨inputs, -, heq⟩ := List.mem_map.1 hmem
  rw [← heq]
  exact @acceptedEdges_alternating inputs false false

theorem capture_bounded_and_faithful_two :
    ∃ d, exec step alloc (session [.feed true 100 true, .saveToFilePause false,
        .feed true 300 true, .feed false 200 true]) = .ok d ∧ d.files.map numbers = [[100, -200]] := by
  obtain ⟨d, hexec, hnumbers, -⟩ := (capture_bounded_and_faithful []
    [[.feed true 100 true, .saveToFilePause false, .feed true 300 true, .feed false 200 true]] (by
      intro inputs hinputs i hi
      obtain rfl := List.mem_singleton.1 hinputs
      simp only [List.mem_cons, List.not_mem_nil, or_false] at hi
      rcases hi with rfl | rfl | rfl | rfl <;> trivial)).2
  exact ⟨d, hexec, hnumbers⟩

/-- So many edges of 100 microseconds, where no write ends well. -/
def edges (count : ℕ) : List RawInput :=
  (List.range count).map fun i => .feed (i % 2 == 0) 100 false

theorem flush_false (d : SubGhzProtocolDecoderRaw) : d.flush false = d := by
  have hwrite : d.saveToFileWrite false = d := by
    unfold saveToFileWrite
    split <;> rfl
  unfold flush
  rw [hwrite, ite_self]

theorem edge_accepts {count : ℕ} (hpause : d.pause = false) (hupload : d.uploadRaw ≠ none)
    (hlevel : d.lastLevel = (count % 2 == 1)) : d.Accepts (count % 2 == 0) 100 := by
  refine ⟨hpause, hupload, by decide, by decide, ?_⟩
  rw [hlevel]
  rcases Nat.mod_two_eq_zero_or_one count with hmod | hmod <;> rw [hmod] <;> decide

theorem exec_edges : ∀ count ≤ SUBGHZ_DOWNLOAD_MAX_SIZE,
    ∃ d, exec step alloc (.saveToFileInit true :: edges count) = .ok d ∧ d.indWrite = count ∧
      d.pause = false ∧ d.uploadRaw ≠ none ∧ d.lastLevel = (count % 2 == 1)
  | 0, _ => ⟨_, rfl, rfl, rfl, Option.some_ne_none _, rfl⟩
  | count + 1, h => by
    obtain ⟨d, hexec, hindWrite, hpause, hupload, hlevel⟩ := exec_edges count (by omega)
    obtain ⟨uploadRaw, -, hfeed⟩ :=
      feed_of_accepts false (edge_accepts hpause hupload hlevel)
    rw [store_of_lt (by omega)] at hfeed
    have hfed := hfeed.trans (congrArg Except.ok (flush_false _))
    have hsplit : edges (count + 1) = edges count ++ [.feed (count % 2 == 0) 100 false] := by
      rw [edges, List.range_succ, List.map_append]
      rfl
    refine ⟨_, Eq.trans ?_ hfed, ?_, hpause, Option.some_ne_none _, ?_⟩
    · rw [hsplit, ← List.cons_append, exec_append, hexec]
      exact exec_singleton _ d
    · show d.indWrite + 1 = count + 1
      rw [hindWrite]
    · show (count % 2 == 0) = ((count + 1) % 2 == 1)
      rw [Bool.eq_iff_iff, beq_iff_eq, beq_iff_eq]
      omega

/-- The write of a full buffer fails, and the next edge is stored behind its end. -/
theorem edge_out_of_bounds :
    exec step alloc (.saveToFileInit true :: edges 513) = .error .outOfBounds := by
  obtain ⟨d, hexec, hindWrite, hpause, hupload, hlevel⟩ := exec_edges 512 le_rfl
  have haccepts := edge_accepts hpause hupload hlevel
  have hstep : ¬∃ d', d.step (.feed (512 % 2 == 0) 100 false) = .ok d' := by
    rw [← (step_room hindWrite.le _).1]
    exact fun hroom => hroom haccepts hindWrite
  have hsplit : edges 513 = edges 512 ++ [.feed (512 % 2 == 0) 100 false] := by
    rw [edges, List.range_succ, List.map_append]
    rfl
  rw [hsplit, ← List.cons_append, exec_append, hexec]
  refine (exec_singleton _ d).trans ?_
  cases hlast : d.step (.feed (512 % 2 == 0) 100 false) with
  | error e =>
    cases e
    rfl
  | ok d' => exact absurd ⟨d', hlast⟩ hstep

end SubGhzProtocolDecoderRaw

end KiisuFirmware
