import KiisuFirmware.RpcStorage

/-!
# Responses in pages

A listing and a reading are sent in several messages, of which all but the last announce another.
The files of a page are written over those of the page before, of which the digests are left; and a
read that gets too little is answered with the error it left, which may be none.
-/

namespace KiisuFirmware

namespace StoragePaging

/-- All messages but the last announce another. -/
def Paged (sent : List StorageMessage) (last : StorageMessage) : Prop :=
  ∃ pages, sent = pages ++ [last] ∧ (∀ message ∈ pages, message.hasNext = true) ∧
    last.hasNext = false

def messageFiles (message : StorageMessage) : List PBStorageFile :=
  match message.content with
  | .list file => file
  | _ => []

def messageBytes (message : StorageMessage) : List UInt8 :=
  match message.content with
  | .read data => data
  | _ => []

theorem Paged.cons {message : StorageMessage} {sent : List StorageMessage} {last : StorageMessage}
    (hmessage : message.hasNext = true) (h : Paged sent last) : Paged (message :: sent) last := by
  obtain ⟨pages, rfl, hpages, hlast⟩ := h
  refine ⟨message :: pages, rfl, fun other hother => ?_, hlast⟩
  rcases List.mem_cons.1 hother with rfl | hother
  · exact hmessage
  · exact hpages other hother

theorem Paged.singleton {last : StorageMessage} (hlast : last.hasNext = false) :
    Paged [last] last :=
  ⟨[], rfl, fun _ h => absurd h List.not_mem_nil, hlast⟩

/-! ## Listing -/

section Listing

variable (md5Size : ℕ) (api : StorageApi) (path : CString) (includeMd5 : Bool)
  (filterMaxSize : UInt32)

/-- The entries that pass the filter. -/
def acceptedEntries (entries : List (FileInfo × CString)) : List (FileInfo × CString) :=
  entries.filter fun entry => listFilter filterMaxSize entry.1 entry.2

/-- The digest of an entry, if it was asked for and computed. -/
def digest (entry : FileInfo × CString) : Option (Vector UInt8 16) :=
  if includeMd5 && !entry.1.isDir then
    match api.md5 (path ++ '/' :: entry.2) with
    | .ok hash => some hash
    | .error _ => none
  else none

/-- A file of a response and the entry it is for. -/
structure IsEntry (entry : FileInfo × CString) (file : PBStorageFile) : Prop where
  isDir : file.isDir = entry.1.isDir
  name : file.name = some entry.2
  size : file.size = entry.1.size.toUInt32
  data : file.data = none
  md5sum : file.md5sum ≠ [] ↔ (digest api path includeMd5 entry).isSome = true

/-- What is in a directory. The root is not one of the storage. -/
def directory : List (FileInfo × CString) :=
  if path = ['/'] then hardCodedDirs.map fun name => (⟨true, 0⟩, name)
  else match api.dirOpen path with
    | .ok entries => acceptedEntries filterMaxSize entries
    | .error _ => []

/-- No file that has a digest is a page before one that has none. -/
def DigestsStay (fileCount : ℕ) (entries : List (FileInfo × CString)) : Prop :=
  ∀ k entry entry', entries[k]? = some entry → entries[k + fileCount]? = some entry' →
    (digest api path includeMd5 entry).isSome = true →
    (digest api path includeMd5 entry').isSome = true

/-- What a listing is answered with is in pages, and has the entries of the directory. -/
def ListPaged (entries : List (FileInfo × CString)) (sent : List StorageMessage) : Prop :=
  (∃ last, Paged sent last) ∧
    List.Forall₂ (IsEntry api path includeMd5) entries (sent.flatMap messageFiles)

variable {md5Size api path includeMd5 filterMaxSize}

theorem listFile_md5sum (entry : FileInfo × CString) (file : PBStorageFile) :
    (listFile md5Size api path includeMd5 entry.1 entry.2 file).md5sum =
      match digest api path includeMd5 entry with
      | some hash => md5Field md5Size hash
      | none => file.md5sum := by
  unfold listFile digest
  by_cases h : (includeMd5 && !entry.1.isDir) = true
  · simp only [h, if_true]
    rcases api.md5 (path ++ '/' :: entry.2) with error | hash <;> rfl
  · simp only [h]
    rfl

theorem md5Field_ne_nil (h : 32 < md5Size) (hash : Vector UInt8 16) :
    md5Field md5Size hash ≠ [] := by
  obtain ⟨byte, rest, hbytes⟩ : ∃ byte rest, hash.toList = byte :: rest := by
    rcases hlist : hash.toList with _ | ⟨byte, rest⟩
    · have hlength := hash.length_toList
      rw [hlist] at hlength
      cases hlength
    · exact ⟨byte, rest, rfl⟩
  obtain ⟨n, rfl⟩ : ∃ n, md5Size = n + 2 := ⟨md5Size - 2, by omega⟩
  simp [md5Field, md5String, hbytes]

/-- What the digest of the file at a place was before. -/
def previous (fileCount i : ℕ) (file outs : List PBStorageFile) (k : ℕ) : Option CString :=
  if k < fileCount then (file[(i + k) % fileCount]?).map PBStorageFile.md5sum
  else (outs[k - fileCount]?).map PBStorageFile.md5sum

theorem previous_succ {fileCount i : ℕ} {file outs : List PBStorageFile} {f : PBStorageFile}
    {g : PBStorageFile → PBStorageFile} (hi : i < fileCount) (hlength : file.length = fileCount)
    (hf : (file.modify i g)[i]? = some f) (k : ℕ) :
    previous fileCount i file (f :: outs) (k + 1) =
      previous fileCount (i + 1) (file.modify i g) outs k := by
  unfold previous
  have hcount : 0 < fileCount := by omega
  by_cases hk : k + 1 < fileCount
  · have hne : (i + 1 + k) % fileCount ≠ i := by
      rcases Nat.lt_or_ge (i + 1 + k) fileCount with h | h
      · rw [Nat.mod_eq_of_lt h]
        omega
      · rw [Nat.mod_eq_sub_mod h, Nat.mod_eq_of_lt (by omega)]
        omega
    rw [if_pos hk, if_pos (by omega), List.getElem?_modify_ne _ _ hne.symm]
    congr 3
    omega
  · rcases Nat.lt_or_ge k fileCount with hk' | hk'
    · have heq : k = fileCount - 1 := by omega
      have hmod : (i + 1 + k) % fileCount = i := by
        rw [heq, show i + 1 + (fileCount - 1) = i + fileCount by omega, Nat.add_mod_right,
          Nat.mod_eq_of_lt hi]
      rw [if_neg hk, if_pos hk', hmod, hf, show k + 1 - fileCount = 0 by omega]
      rfl
    · rw [if_neg hk, if_neg (by omega), show k + 1 - fileCount = k - fileCount + 1 by omega,
        List.getElem?_cons_succ]

/-- The files of the loop: those that are there, and one for each entry, over what was there. -/
theorem listLoop_spec {fileCount : ℕ} (hcount : 0 < fileCount) (commandId : UInt32) :
    ∀ (entries : List (FileInfo × CString)) (i : ℕ) (file : List PBStorageFile), i ≤ fileCount →
    file.length = fileCount → ∃ last outs,
      Paged (listLoop fileCount md5Size api commandId path includeMd5 filterMaxSize entries i file)
        last ∧
      (listLoop fileCount md5Size api commandId path includeMd5 filterMaxSize entries i
        file).flatMap messageFiles = file.take i ++ outs ∧
      outs.length = (acceptedEntries filterMaxSize entries).length ∧
      ∀ k entry, (acceptedEntries filterMaxSize entries)[k]? = some entry →
        ∃ old, outs[k]? = some (listFile md5Size api path includeMd5 entry.1 entry.2 old) ∧
          previous fileCount i file outs k = some old.md5sum := by
  intro entries
  induction entries with
  | nil =>
    intro i file hi hlength
    refine ⟨listMessage commandId false (file.take i), [], .singleton rfl, ?_, rfl,
      fun k entry hentry => by simp [acceptedEntries] at hentry⟩
    simp [listLoop, messageFiles, listMessage]
  | cons head entries ih =>
    obtain ⟨fileinfo, name⟩ := head
    -- An entry whose file goes to a place of the response.
    have haccept : ∀ (i : ℕ) (file : List PBStorageFile), i < fileCount →
        file.length = fileCount → listFilter filterMaxSize fileinfo name = true →
        ∃ last outs,
          Paged (listLoop fileCount md5Size api commandId path includeMd5 filterMaxSize entries
            (i + 1) (file.modify i (listFile md5Size api path includeMd5 fileinfo name))) last ∧
          (listLoop fileCount md5Size api commandId path includeMd5 filterMaxSize entries (i + 1)
            (file.modify i (listFile md5Size api path includeMd5 fileinfo name))).flatMap
              messageFiles = file.take i ++ outs ∧
          outs.length = (acceptedEntries filterMaxSize ((fileinfo, name) :: entries)).length ∧
          ∀ k entry, (acceptedEntries filterMaxSize ((fileinfo, name) :: entries))[k]? = some entry →
            ∃ old, outs[k]? = some (listFile md5Size api path includeMd5 entry.1 entry.2 old) ∧
              previous fileCount i file outs k = some old.md5sum := by
      intro i file hi hlength hfilter
      have hlt : i < file.length := by omega
      obtain ⟨last, outs, hpaged, hfiles, houts, hold⟩ := ih (i + 1)
        (file.modify i (listFile md5Size api path includeMd5 fileinfo name)) hi
        (by rw [List.length_modify, hlength])
      have hplace : (file.modify i (listFile md5Size api path includeMd5 fileinfo name))[i]? =
          some (listFile md5Size api path includeMd5 fileinfo name file[i]) := by
        rw [List.getElem?_modify_eq, List.getElem?_eq_getElem hlt]
        rfl
      have haccepted : acceptedEntries filterMaxSize ((fileinfo, name) :: entries) =
          (fileinfo, name) :: acceptedEntries filterMaxSize entries := by
        simp [acceptedEntries, hfilter]
      rw [haccepted]
      refine ⟨last, listFile md5Size api path includeMd5 fileinfo name file[i] :: outs, hpaged, ?_,
        by simp [houts], fun k entry hentry => ?_⟩
      · rw [hfiles, List.take_add_one, hplace, List.take_modify, List.modify_eq_self (by simp)]
        simp
      · rcases k with _ | k
        · rcases Option.some.inj hentry
          refine ⟨file[i], rfl, ?_⟩
          rw [previous, if_pos hcount, Nat.add_zero, Nat.mod_eq_of_lt hi,
            List.getElem?_eq_getElem hlt]
          rfl
        · obtain ⟨old, hout, hprevious⟩ := hold k entry hentry
          exact ⟨old, hout, (previous_succ hi hlength hplace k).trans hprevious⟩
    intro i file hi hlength
    by_cases hfilter : listFilter filterMaxSize fileinfo name = true
    · rcases Nat.lt_or_ge i fileCount with hlt | hge
      · have hloop : listLoop fileCount md5Size api commandId path includeMd5 filterMaxSize
            ((fileinfo, name) :: entries) i file =
            listLoop fileCount md5Size api commandId path includeMd5 filterMaxSize entries (i + 1)
              (file.modify i (listFile md5Size api path includeMd5 fileinfo name)) := by
          rw [listLoop, if_pos hfilter, if_neg (by omega)]
          rfl
        rw [hloop]
        exact haccept i file hlt hlength hfilter
      · have heq : i = fileCount := by omega
        obtain ⟨last, outs, hpaged, hfiles, houts, hold⟩ := haccept 0
          (file.map PBStorageFile.release) hcount (by rw [List.length_map, hlength]) hfilter
        have hloop : listLoop fileCount md5Size api commandId path includeMd5 filterMaxSize
            ((fileinfo, name) :: entries) i file =
            listMessage commandId true (file.take i) ::
              listLoop fileCount md5Size api commandId path includeMd5 filterMaxSize entries (0 + 1)
                ((file.map PBStorageFile.release).modify 0
                  (listFile md5Size api path includeMd5 fileinfo name)) := by
          rw [listLoop, if_pos hfilter, if_pos heq]
          rfl
        rw [hloop]
        refine ⟨last, outs, hpaged.cons rfl, ?_, houts, fun k entry hentry => ?_⟩
        · rw [List.flatMap_cons, hfiles, List.take_zero, List.nil_append]
          rfl
        · obtain ⟨old, hout, hprevious⟩ := hold k entry hentry
          refine ⟨old, hout, ?_⟩
          rw [← hprevious, previous, previous, heq]
          congr 1
          rw [Nat.add_mod_left, Nat.zero_add, List.getElem?_map, Option.map_map]
          rfl
    · obtain ⟨last, outs, hpaged, hfiles, houts, hold⟩ := ih i file hi hlength
      have hloop : listLoop fileCount md5Size api commandId path includeMd5 filterMaxSize
          ((fileinfo, name) :: entries) i file =
          listLoop fileCount md5Size api commandId path includeMd5 filterMaxSize entries i file := by
        rw [listLoop, if_neg hfilter]
      have haccepted : acceptedEntries filterMaxSize ((fileinfo, name) :: entries) =
          acceptedEntries filterMaxSize entries := by
        simp [acceptedEntries, hfilter]
      rw [hloop, haccepted]
      exact ⟨last, outs, hpaged, hfiles, houts, hold⟩

theorem forall₂_isEntry_iff {fileCount : ℕ} (hcount : 0 < fileCount) (hsize : 32 < md5Size)
    {entries : List (FileInfo × CString)} {outs : List PBStorageFile}
    (hlength : outs.length = entries.length)
    (hold : ∀ k entry, entries[k]? = some entry →
      ∃ old, outs[k]? = some (listFile md5Size api path includeMd5 entry.1 entry.2 old) ∧
        previous fileCount 0 (List.replicate fileCount .zero) outs k = some old.md5sum) :
    List.Forall₂ (IsEntry api path includeMd5) entries outs ↔
      DigestsStay api path includeMd5 fileCount entries := by
  constructor
  · intro hentries k entry entry' hentry hentry' hdigest
    obtain ⟨old, hout, -⟩ := hold k entry hentry
    obtain ⟨old', hout', hprevious'⟩ := hold _ entry' hentry'
    have hmd5 := ((List.forall₂_iff_get.1 hentries).2 (k + fileCount)
      (List.getElem?_eq_some_iff.1 hentry').1 (List.getElem?_eq_some_iff.1 hout').1).md5sum
    simp only [List.get_eq_getElem, (List.getElem?_eq_some_iff.1 hentry').2,
      (List.getElem?_eq_some_iff.1 hout').2] at hmd5
    rw [← hmd5, listFile_md5sum]
    rcases hdigest' : digest api path includeMd5 entry' with _ | hash
    · -- The digest of the page before is left.
      rw [previous, if_neg (by omega), Nat.add_sub_cancel, hout] at hprevious'
      obtain ⟨hash, hdigest⟩ := Option.isSome_iff_exists.1 hdigest
      rw [← Option.some.inj hprevious', listFile_md5sum, hdigest]
      exact md5Field_ne_nil hsize hash
    · exact md5Field_ne_nil hsize hash
  · intro hstay
    have hmd5 : ∀ (k : ℕ) entry (file : PBStorageFile), entries[k]? = some entry → outs[k]? = some file →
        digest api path includeMd5 entry = none → file.md5sum = [] := by
      intro k
      induction k using Nat.strong_induction_on with
      | _ k ih =>
        intro entry file hentry hfile hnone
        obtain ⟨old, hout, hprevious⟩ := hold k entry hentry
        rcases Option.some.inj (hfile.symm.trans hout)
        rw [listFile_md5sum, hnone]
        unfold previous at hprevious
        split_ifs at hprevious with hk
        · rw [Nat.zero_add, Nat.mod_eq_of_lt hk, List.getElem?_replicate_of_lt hk] at hprevious
          exact (Option.some.inj hprevious).symm
        · have hlt : k - fileCount < entries.length := by
            have := (List.getElem?_eq_some_iff.1 hentry).1
            omega
          have hentry' := List.getElem?_eq_getElem hlt
          have hout' := List.getElem?_eq_getElem (hlength.symm ▸ hlt)
          rw [hout'] at hprevious
          rw [← Option.some.inj hprevious]
          refine ih _ (by omega) _ _ hentry' hout' ?_
          rcases hdigest : digest api path includeMd5 entries[k - fileCount] with _ | hash
          · rfl
          · have hsome := hstay (k - fileCount) _ entry hentry'
              (by rwa [Nat.sub_add_cancel (by omega)]) (by simp [hdigest])
            rw [hnone] at hsome
            cases hsome
    refine List.forall₂_iff_get.2 ⟨hlength.symm, fun k hk hk' => ?_⟩
    have hentry := List.getElem?_eq_getElem hk
    obtain ⟨old, hout, -⟩ := hold k _ hentry
    have hfile := List.getElem?_eq_getElem hk'
    have heq := Option.some.inj (hfile.symm.trans hout)
    simp only [List.get_eq_getElem]
    refine ⟨by rw [heq]; rfl, by rw [heq]; rfl, by rw [heq]; rfl, by rw [heq]; rfl, ?_⟩
    rcases hdigest : digest api path includeMd5 entries[k] with _ | hash
    · simpa using hmd5 k _ _ hentry hfile hdigest
    · rw [heq, listFile_md5sum, hdigest]
      simpa using md5Field_ne_nil hsize hash

theorem listProcess_paged_iff {fileCount : ℕ} (hcount : 3 < fileCount) (hsize : 32 < md5Size)
    (commandId : UInt32) :
    (∃ sent, listProcess fileCount md5Size api commandId (some path) includeMd5 filterMaxSize =
        .ok sent ∧ ListPaged api path includeMd5 (directory api path filterMaxSize) sent) ↔
      DigestsStay api path includeMd5 fileCount (directory api path filterMaxSize) := by
  by_cases hroot : path = ['/']
  · have hprocess : listProcess fileCount md5Size api commandId (some path) includeMd5
        filterMaxSize = .ok [listMessage commandId false (hardCodedDirs.map fun name =>
          { PBStorageFile.zero with isDir := true, name := some name })] := by
      simp [listProcess, allocSet, hroot, listRoot, furiAssert, hardCodedDirs, hcount, bind,
        Except.bind, pure, Except.pure]
    have hdirectory : directory api path filterMaxSize =
        hardCodedDirs.map fun name => (⟨true, 0⟩, name) := by rw [directory, if_pos hroot]
    rw [hprocess, hdirectory]
    refine ⟨fun _ k entry entry' hentry hentry' hdigest => ?_, fun _ => ⟨_, rfl, ⟨_, .singleton rfl⟩,
      ?_⟩⟩
    · rw [List.getElem?_eq_none] at hentry'
      · cases hentry'
      · simp only [hardCodedDirs, List.length_map, List.length_cons, List.length_nil]
        omega
    · simp only [List.flatMap_cons, List.flatMap_nil, List.append_nil, messageFiles, listMessage]
      rw [List.forall₂_map_left_iff, List.forall₂_map_right_iff]
      refine List.forall₂_same.2 fun name _ => ⟨rfl, rfl, rfl, rfl, ?_⟩
      simp [PBStorageFile.zero, digest]
  · rcases hopen : api.dirOpen path with error | entries
    · have hprocess : listProcess fileCount md5Size api commandId (some path) includeMd5
          filterMaxSize = .ok [⟨commandId, storageGetError error, false, .empty⟩] := by
        simp [listProcess, allocSet, hroot, hopen, bind, Except.bind, pure, Except.pure]
      have hdirectory : directory api path filterMaxSize = [] := by
        rw [directory, if_neg hroot, hopen]
      rw [hprocess, hdirectory]
      exact ⟨fun _ k entry entry' hentry => by simp at hentry,
        fun _ => ⟨_, rfl, ⟨_, .singleton rfl⟩, .nil⟩⟩
    · have hprocess : listProcess fileCount md5Size api commandId (some path) includeMd5
          filterMaxSize = .ok (listLoop fileCount md5Size api commandId path includeMd5
            filterMaxSize entries 0 (List.replicate fileCount .zero)) := by
        simp [listProcess, allocSet, hroot, hopen, bind, Except.bind, pure, Except.pure]
      have hdirectory : directory api path filterMaxSize = acceptedEntries filterMaxSize entries := by
        rw [directory, if_neg hroot, hopen]
      obtain ⟨last, outs, hpaged, hfiles, hlength, hold⟩ :=
        @listLoop_spec md5Size api path includeMd5 filterMaxSize fileCount (by omega) commandId
          entries 0 (List.replicate fileCount .zero) (Nat.zero_le _) List.length_replicate
      rw [List.take_zero, List.nil_append] at hfiles
      rw [hprocess, hdirectory, ← forall₂_isEntry_iff (by omega) hsize hlength hold]
      constructor
      · rintro ⟨sent, hsent, -, hentries⟩
        rwa [← Except.ok.inj hsent, hfiles] at hentries
      · exact fun hentries => ⟨_, rfl, ⟨last, hpaged⟩, by rwa [hfiles]⟩

end Listing

/-! ## Reading -/

/-- A read that gets less than it asks for, of a file with a size. -/
def ShortRead (fileRead : ℕ → ℕ × FSError) (size k : ℕ) : Prop :=
  maxDataSize * k < size ∧ (fileRead k).1 < min (size - maxDataSize * k) maxDataSize

/-- What a reading is answered with is in pages, and has the bytes of the file from the first on;
all of them, if that is what the last message says or if each read gets as much as it may ask
for. -/
structure ReadPaged (opened : Except FSError (List UInt8)) (fileRead : ℕ → ℕ × FSError)
    (sent : List StorageMessage) (last : StorageMessage) : Prop where
  paged : Paged sent last
  isPrefix : ∀ content, opened = .ok content → sent.flatMap messageBytes <+: content
  ok : last.commandStatus = .ok →
    ∃ content, opened = .ok content ∧ sent.flatMap messageBytes = content
  whole : ∀ content, opened = .ok content → (∀ k, maxDataSize ≤ (fileRead k).1) →
    sent.flatMap messageBytes = content

/-- A file that is not opened leaves an error, and so does the first read that is short; and where
none is, the size is one of 32 bits. -/
def ErrorsLeft (fileRead : ℕ → ℕ × FSError) : Except FSError (List UInt8) → Prop
  | .error error => error ≠ .ok
  | .ok content =>
    (∀ k, ShortRead fileRead (content.length % 2 ^ 32) k →
      (∀ j < k, ¬ShortRead fileRead (content.length % 2 ^ 32) j) → (fileRead k).2 ≠ .ok) ∧
    (content.length < 2 ^ 32 ∨ ∃ k, ShortRead fileRead (content.length % 2 ^ 32) k)

theorem storageGetError_eq_ok_iff {error : FSError} : storageGetError error = .ok ↔ error = .ok := by
  rcases error <;> simp [storageGetError]

/-- The end of a reading: all is read, or a read is short. -/
inductive ReadEnd (fileRead : ℕ → ℕ × FSError) (size reads : ℕ) (bytes : List UInt8) :
    List UInt8 → StorageMessage → Prop
  | whole {last : StorageMessage} (hlast : last.commandStatus = .ok)
      (hreads : ∀ k ≥ reads, ¬ShortRead fileRead size k) :
      ReadEnd fileRead size reads bytes (bytes.drop (maxDataSize * reads)) last
  | short {last : StorageMessage} (k : ℕ) (hk : reads ≤ k) (hshort : ShortRead fileRead size k)
      (hreads : ∀ j, reads ≤ j → j < k → ¬ShortRead fileRead size j)
      (hlast : last.commandStatus = storageGetError (fileRead k).2) :
      ReadEnd fileRead size reads bytes
        ((bytes.take (maxDataSize * k)).drop (maxDataSize * reads)) last

theorem take_append_drop_add (bytes : List UInt8) (n m : ℕ) :
    (bytes.drop n).take m ++ bytes.drop (n + m) = bytes.drop n := by
  rw [← List.drop_drop, List.take_append_drop]

theorem take_drop_take (content : List UInt8) {size position n : ℕ} (h : position + n ≤ size) :
    ((content.take size).drop position).take n = (content.drop position).take n := by
  rw [List.drop_take, List.take_take, Nat.min_eq_left (by omega)]

theorem readLoop_spec (fileRead : ℕ → ℕ × FSError) (commandId : UInt32) (content : List UInt8)
    {size : ℕ} (hsize : size ≤ content.length) : ∀ (sizeLeft reads : ℕ),
    sizeLeft = size - maxDataSize * reads → (maxDataSize * reads < size ∨ reads = 0) →
    ∃ last, Paged (readLoop fileRead commandId content (maxDataSize * reads) reads sizeLeft) last ∧
      ReadEnd fileRead size reads (content.take size)
        ((readLoop fileRead commandId content (maxDataSize * reads) reads sizeLeft).flatMap
          messageBytes) last := by
  intro sizeLeft
  induction sizeLeft using Nat.strong_induction_on with
  | _ sizeLeft ih =>
    intro reads hleft hreads
    unfold readLoop
    by_cases hzero : sizeLeft = 0
    · -- An empty file.
      have hempty : size = 0 := by
        rcases hreads with hreads | rfl
        · omega
        · simpa [hzero] using hleft.symm
      rw [if_pos hzero]
      refine ⟨_, .singleton rfl, ?_⟩
      have hend : ReadEnd fileRead size reads (content.take size)
          ((content.take size).drop (maxDataSize * reads)) ⟨commandId, .ok, false, .read []⟩ :=
        .whole rfl fun k _ hshort => by
          obtain ⟨hlt, -⟩ := hshort
          omega
      simpa [hempty, messageBytes] using hend
    · rw [if_neg hzero]
      obtain ⟨position, hposition⟩ : ∃ position, position = maxDataSize * reads := ⟨_, rfl⟩
      obtain ⟨readSize, hreadSize⟩ : ∃ readSize, readSize = min sizeLeft maxDataSize := ⟨_, rfl⟩
      have hmax : maxDataSize = 512 := rfl
      rw [← hposition, ← hreadSize]
      dsimp only
      have hlength : ((content.drop position).take (min (fileRead reads).1 readSize)).length =
          min (fileRead reads).1 readSize := by
        rw [List.length_take, List.length_drop]
        omega
      by_cases hfull : ((content.drop position).take (min (fileRead reads).1 readSize)).length =
          readSize
      · rw [if_pos hfull]
        rw [hlength] at hfull
        rw [hfull]
        have hnot : ¬ShortRead fileRead size reads := by
          rintro ⟨-, hlt⟩
          rw [← hposition] at hlt
          omega
        by_cases hmore : 0 < sizeLeft - readSize
        · have hall : readSize = maxDataSize := by omega
          have hnext : position + readSize = maxDataSize * (reads + 1) := by
            rw [hposition, hall, Nat.mul_succ]
          have hprefix : ∀ k, reads + 1 ≤ k → maxDataSize * (reads + 1) ≤ maxDataSize * k :=
            fun k hk => Nat.mul_le_mul_left _ hk
          rw [if_pos hmore, hnext]
          obtain ⟨last, hpaged, hend⟩ := ih (sizeLeft - readSize) (by omega) (reads + 1) (by omega)
            (.inl (by omega))
          refine ⟨last, hpaged.cons (decide_eq_true hmore), ?_⟩
          rw [List.flatMap_cons]
          change ReadEnd _ _ _ _ ((content.drop position).take readSize ++ _) _
          generalize (readLoop fileRead commandId content (maxDataSize * (reads + 1)) (reads + 1)
            (sizeLeft - readSize)).flatMap messageBytes = bytes at hend
          have htake := take_drop_take content
            (show position + readSize ≤ size by omega)
          rcases hend with ⟨hlast, hnone⟩ | ⟨k, hk, hshort, hnone, hlast⟩
          · rw [← hnext, ← htake, take_append_drop_add, hposition]
            refine .whole hlast fun k hk => ?_
            rcases Nat.eq_or_lt_of_le hk with rfl | hk
            · exact hnot
            · exact hnone k hk
          · have hle := hprefix _ hk
            have hlt := hshort.1
            have htake' := take_drop_take (content.take size)
              (show position + readSize ≤ maxDataSize * k by omega)
            rw [← hnext, ← htake, ← htake', take_append_drop_add, hposition]
            refine .short k (by omega) hshort (fun j hj hjk => ?_) hlast
            rcases Nat.eq_or_lt_of_le hj with rfl | hj
            · exact hnot
            · exact hnone j hj hjk
        · have hall : readSize = sizeLeft := by omega
          rw [if_neg hmore]
          refine ⟨_, .singleton (by simp [hmore]), ?_⟩
          have hbytes : (content.drop position).take readSize =
              (content.take size).drop (maxDataSize * reads) := by
            rw [List.drop_take, ← hposition, hall, hleft, ← hposition]
          simp only [List.flatMap_cons, List.flatMap_nil, List.append_nil, messageBytes]
          rw [hbytes]
          refine .whole rfl fun k hk hshort => ?_
          rcases Nat.eq_or_lt_of_le hk with rfl | hk
          · exact hnot hshort
          · have hle := Nat.mul_le_mul_left maxDataSize (Nat.succ_le_of_lt hk)
            have hlt := hshort.1
            rw [Nat.mul_succ] at hle
            omega
      · rw [if_neg hfull]
        rw [hlength] at hfull
        refine ⟨_, .singleton rfl, ?_⟩
        have hend : ReadEnd fileRead size reads (content.take size)
            (((content.take size).take (maxDataSize * reads)).drop (maxDataSize * reads))
            (emptyMessage commandId (storageGetError (fileRead reads).2)) := by
          refine .short reads le_rfl ⟨by omega, ?_⟩ (fun j hj hjk => absurd hj (by omega)) rfl
          rw [← hposition]
          omega
        rw [List.drop_take, Nat.sub_self, List.take_zero] at hend
        exact hend

theorem readProcess_paged_iff (api : StorageApi) (commandId : UInt32) (path : CString) :
    (∃ sent last, readProcess api commandId (some path) = .ok sent ∧
        ReadPaged (api.fileOpen path) api.fileRead sent last) ↔
      ErrorsLeft api.fileRead (api.fileOpen path) := by
  rcases hopen : api.fileOpen path with error | content
  · have hprocess : readProcess api commandId (some path) =
        .ok [emptyMessage commandId (storageGetError error)] := by
      simp [readProcess, allocSet, hopen, bind, Except.bind, pure, Except.pure]
    rw [hprocess]
    constructor
    · rintro ⟨sent, last, hsent, ⟨pages, heq, -, -⟩, -, hok, -⟩ rfl
      rw [← Except.ok.inj hsent, ← List.nil_append [emptyMessage _ _]] at heq
      obtain ⟨-, hlast⟩ := List.append_inj' heq rfl
      rcases (List.singleton_inj.1 hlast)
      obtain ⟨content, hcontent, -⟩ := hok rfl
      cases hcontent
    · intro herror
      refine ⟨_, _, rfl, .singleton rfl, fun content h => ?_, fun hok => ?_, fun content h => ?_⟩
      · cases h
      · exact absurd (storageGetError_eq_ok_iff.1 hok) herror
      · cases h
  · have hprocess : readProcess api commandId (some path) =
        .ok (readLoop api.fileRead commandId content 0 0 (content.length % 2 ^ 32)) := by
      simp [readProcess, allocSet, hopen, bind, Except.bind, pure, Except.pure]
    obtain ⟨size, hsize⟩ : ∃ size, size = content.length % 2 ^ 32 := ⟨_, rfl⟩
    have hle : size ≤ content.length := hsize ▸ Nat.mod_le _ _
    have hmax : maxDataSize = 512 := rfl
    obtain ⟨last, hpaged, hend⟩ := readLoop_spec api.fileRead commandId content hle size 0
      (by omega) (.inr rfl)
    rw [Nat.mul_zero] at hpaged hend
    rw [hprocess, ErrorsLeft, ← hsize]
    generalize readLoop api.fileRead commandId content 0 0 size = messages at hpaged hend
    generalize hbytes : messages.flatMap messageBytes = bytes at hend
    have hlast : ∀ last', Paged messages last' → last' = last := by
      rintro last' ⟨pages', heq', -, -⟩
      obtain ⟨pages, heq, -, -⟩ := hpaged
      exact List.singleton_inj.1 (List.append_inj' (heq'.symm.trans heq) rfl).2
    rcases hend with ⟨hok, hnone⟩ | ⟨k, -, hshort, hfirst, herror⟩
    · constructor
      · rintro ⟨sent, last', hsent, hpaged', -, hwhole, -⟩
        rcases Except.ok.inj hsent
        rw [hlast last' hpaged'] at hwhole
        obtain ⟨content', hcontent, hall⟩ := hwhole hok
        rcases Except.ok.inj hcontent
        refine ⟨fun k hk _ => absurd hk (hnone k (Nat.zero_le k)), .inl ?_⟩
        rw [hbytes, Nat.mul_zero, List.drop_zero] at hall
        have hlength := congrArg List.length hall
        rw [List.length_take] at hlength
        omega
      · rintro ⟨-, hlt | ⟨k, hk⟩⟩
        · have hall : (content.take size).drop (maxDataSize * 0) = content := by
            rw [Nat.mul_zero, List.drop_zero, hsize, Nat.mod_eq_of_lt hlt, List.take_length]
          rw [hall] at hbytes
          refine ⟨messages, last, rfl, hpaged, fun content' h => ?_, fun _ => ⟨content, rfl, hbytes⟩,
            fun content' h _ => ?_⟩
          · rcases Except.ok.inj h
            rw [hbytes]
          · rcases Except.ok.inj h
            exact hbytes
        · exact absurd hk (hnone k (Nat.zero_le k))
    · rw [Nat.mul_zero, List.drop_zero, List.take_take, Nat.min_eq_left hshort.1.le] at hbytes
      constructor
      · rintro ⟨sent, last', hsent, hpaged', -, hwhole, -⟩
        rcases Except.ok.inj hsent
        rw [hlast last' hpaged'] at hwhole
        refine ⟨fun j hj hfirst' hnone => ?_, .inr ⟨k, hshort⟩⟩
        rcases Nat.lt_trichotomy j k with hjk | rfl | hkj
        · exact hfirst j (Nat.zero_le j) hjk hj
        · obtain ⟨content', hcontent, hall⟩ := hwhole
            (herror.trans (storageGetError_eq_ok_iff.2 hnone))
          rcases Except.ok.inj hcontent
          have hlength := congrArg List.length (hbytes.symm.trans hall)
          rw [List.length_take] at hlength
          have hlt := hshort.1
          omega
        · exact hfirst' k hkj hshort
      · rintro ⟨herrors, -⟩
        have hne := herrors k hshort fun j hj => hfirst j (Nat.zero_le j) hj
        refine ⟨messages, last, rfl, hpaged, fun content' h => ?_, fun hok => ?_,
          fun content' _ hfull => ?_⟩
        · rcases Except.ok.inj h
          rw [hbytes]
          exact List.take_prefix _ _
        · exact absurd (storageGetError_eq_ok_iff.1 (herror.symm.trans hok)) hne
        · have hget := hfull k
          obtain ⟨-, hlt⟩ := hshort
          omega

/-! ## Both -/

section Both

variable (fileCount md5Size : ℕ) (api : StorageApi) (commandId : UInt32)

/-- Whether a listing or a reading is answered in pages. -/
def PagingHolds : StorageRequest → Prop
  | .list (some path) includeMd5 filterMaxSize =>
    ∃ sent, respond fileCount md5Size api commandId (.list (some path) includeMd5 filterMaxSize) =
      .ok sent ∧ ListPaged api path includeMd5 (directory api path filterMaxSize) sent
  | .read (some path) =>
    ∃ sent last, respond fileCount md5Size api commandId (.read (some path)) = .ok sent ∧
      ReadPaged (api.fileOpen path) api.fileRead sent last
  | _ => True

/-- No digest is left over, and errors are left where something fails. -/
def Pageable : StorageRequest → Prop
  | .list (some path) includeMd5 filterMaxSize =>
    DigestsStay api path includeMd5 fileCount (directory api path filterMaxSize)
  | .read (some path) => ErrorsLeft api.fileRead (api.fileOpen path)
  | _ => True

end Both

/-- The condition is exact, for a response that has room for the root and for a digest. -/
theorem pagingHolds_iff {fileCount md5Size : ℕ} (hcount : 3 < fileCount) (hsize : 32 < md5Size)
    (api : StorageApi) (commandId : UInt32) (request : StorageRequest) :
    PagingHolds fileCount md5Size api commandId request ↔ Pageable fileCount api request := by
  rcases request with _ | _ | _ | ⟨_ | path, includeMd5, filterMaxSize⟩ | (_ | path) | _ | _ | _ |
    _ | _ | _ | _ | _
  case list.some => exact listProcess_paged_iff hcount hsize commandId
  case read.some => exact readProcess_paged_iff api commandId path
  all_goals exact Iff.rfl

/-- A file of three bytes. -/
theorem pagingHolds_threeBytes : PagingHolds 8 33
    { StorageApi.calm with fileOpen := fun _ => .ok [1, 2, 3] } 1 (.read (some ['a'])) := by
  refine (pagingHolds_iff (by decide) (by decide) _ _ _).2 ⟨?_, .inl (by decide)⟩
  rintro k ⟨-, hlt⟩ -
  change 512 < min _ maxDataSize at hlt
  exact absurd (lt_of_lt_of_le hlt (Nat.min_le_right _ _)) (by decide)

/-- A directory of one file and eight directories. -/
def nineEntries : StorageApi :=
  { StorageApi.calm with
    dirOpen := fun _ => .ok ((⟨false, 1⟩, ['f']) :: List.replicate 8 (⟨true, 0⟩, ['d']))
    md5 := fun _ => .ok (Vector.replicate 16 0) }

/-- The last of the directories is sent with the digest of the file. -/
theorem not_pagingHolds_digest : ¬∀ (fileCount md5Size : ℕ), 3 < fileCount → 32 < md5Size →
    ∀ (api : StorageApi) (commandId : UInt32) (request : StorageRequest),
    PagingHolds fileCount md5Size api commandId request := by
  intro h
  have hcount : 3 < 8 := by decide
  have hsize : 32 < 33 := by decide
  have hstay : DigestsStay nineEntries ['a'] true 8 (directory nineEntries ['a'] 0) :=
    (listProcess_paged_iff hcount hsize 1).1
      (h 8 33 hcount hsize nineEntries 1 (.list (some ['a']) true 0))
  exact absurd (hstay 0 (⟨false, 1⟩, ['f']) (⟨true, 0⟩, ['d']) (by decide) (by decide) rfl)
    (by decide)

end StoragePaging

end KiisuFirmware
