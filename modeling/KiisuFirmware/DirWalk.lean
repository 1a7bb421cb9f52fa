import KiisuFirmware.Run
import KiisuFirmware.RpcStorage
import KiisuFirmware.Disk

/-!
# Walking through a directory

`dir_walk.c`. The directories below one are gone through with one open handle: when a directory is
entered the place in its parent goes on a stack and its name onto the path, and when it is left the
parent is opened again and read up to that place. The storage is what opening a directory gives:
its entries, always in the same order.
-/

namespace KiisuFirmware

/-! ## The storage -/

/-- An open directory has entries still to be read; `error_id` is the outcome of the last call. -/
structure DirFile where
  entries : Option (List (FileInfo × CString))
  errorId : FSError
  deriving DecidableEq

abbrev DirOpen := CString → Except FSError (List (FileInfo × CString))

def storageDirOpen (dirOpen : DirOpen) (path : CString) : Bool × DirFile :=
  match dirOpen path with
  | .ok entries => (true, ⟨some entries, .ok⟩)
  | .error errorId => (false, ⟨none, errorId⟩)

def storageDirClose (_file : DirFile) : DirFile := ⟨none, .ok⟩

/-- The next entry, with as much of its name as fits before the terminator; none unless the error
is `FSE_OK`. -/
def storageDirRead (file : DirFile) (nameLength : ℕ) : Option (FileInfo × CString) × DirFile :=
  match file.entries with
  | some (entry :: entries) =>
    (some (entry.1, entry.2.take (nameLength - 1)), ⟨some entries, .ok⟩)
  | some [] => (none, ⟨some [], .notExist⟩)
  | none => (none, ⟨none, .invalidParameter⟩)

/-! ## The walk -/

inductive DirWalkResult
  | ok
  | error
  | last
  deriving DecidableEq, Repr

structure DirWalk where
  file : DirFile
  path : CString
  /-- The back of the list is its head here. -/
  indexList : List UInt32
  currentIndex : UInt32
  recursive : Bool
  filterCb : Option (CString → FileInfo → Bool)

/-- What a read writes to `return_path` and to `fileinfo`. -/
abbrev DirWalkItem := CString × FileInfo

abbrev DirWalkRead := DirWalkResult × Option DirWalkItem

namespace DirWalk

def SLASH : Char := '/'

def alloc : DirWalk := ⟨⟨none, .ok⟩, [], [], 0, true, none⟩

/-- `furi_string_printf(…, "%s/%s", path, name)`. -/
def joinPath (path name : CString) : CString := path ++ SLASH :: name

/-- Cut at the last slash, if there is one. -/
def dropLast (path : CString) : CString :=
  match path.reverse.findIdx? (· == SLASH) with
  | some i => path.take (path.length - i - 1)
  | none => path

def dirWalkFilter (walk : DirWalk) (name : CString) (fileinfo : FileInfo) : Bool :=
  match walk.filterCb with
  | some cb => cb name fileinfo
  | none => true

section Storage

variable (dirOpen : DirOpen)

def dirWalkOpen (walk : DirWalk) (path : CString) : Bool × DirWalk :=
  let r := storageDirOpen dirOpen path
  (r.1, { walk with path, currentIndex := 0, file := r.2 })

def stepInto (walk : DirWalk) (name : CString) : DirWalk :=
  let path := joinPath walk.path name
  { walk with
    indexList := walk.currentIndex :: walk.indexList
    currentIndex := 0
    path
    file := (storageDirOpen dirOpen path).2 }

/-- The loop of the rewind: each round but the last reads an entry. -/
def rewindLoop (index : UInt32) : ℕ → DirWalk → Bool × DirWalk
  | 0, walk => (false, walk)
  | rounds + 1, walk =>
    if index = walk.currentIndex then (true, walk)
    else
      let r := storageDirRead walk.file 255
      if r.1.isNone then (false, { walk with file := r.2 })
      else rewindLoop index rounds { walk with file := r.2, currentIndex := walk.currentIndex + 1 }

def stepOut (walk : DirWalk) (index : UInt32) (indexList : List UInt32) : Bool × DirWalk :=
  let path := dropLast walk.path
  let file := (storageDirOpen dirOpen path).2
  rewindLoop index ((file.entries.getD []).length + 1)
    { walk with indexList, currentIndex := 0, path, file }

/-- One round of the loop of `dir_walk_iter`, and what it returns if that is the last. -/
def iterRound (walk : DirWalk) : Option DirWalkRead × DirWalk :=
  let r := storageDirRead walk.file 255
  match r.1 with
  | some (info, name) =>
    let walk := { walk with file := r.2, currentIndex := walk.currentIndex + 1 }
    (if walk.dirWalkFilter name info then some (.ok, some (joinPath walk.path name, info))
      else none,
      if info.isDir && walk.recursive then walk.stepInto dirOpen name else walk)
  | none =>
    let walk := { walk with file := r.2 }
    if r.2.errorId = .notExist then
      match walk.indexList with
      | [] => (some (.last, none), walk)
      | index :: indexList =>
        let out := walk.stepOut dirOpen index indexList
        (if out.1 then none else some (.error, none), out.2)
    else (some (.error, none), walk)

/-- If it is through after this many rounds. -/
def dirWalkIter (rounds : ℕ) (walk : DirWalk) : Option (DirWalkRead × DirWalk) :=
  firstOutput (iterRound dirOpen) rounds walk

def dirWalkRead (rounds : ℕ) (walk : DirWalk) : Option (DirWalkRead × DirWalk) :=
  dirWalkIter dirOpen rounds walk

/-- Calls of `dir_walk_read` up to the first one that does not return `DirWalkOK`. -/
def readAll (rounds : ℕ) : ℕ → DirWalk → Option (List DirWalkRead × DirWalk)
  | 0, walk => some ([], walk)
  | calls + 1, walk =>
    (walk.dirWalkRead dirOpen rounds).bind fun r =>
      if r.1.1 = .ok then (readAll rounds calls r.2).map fun rest => (r.1 :: rest.1, rest.2)
      else some ([r.1], r.2)

end Storage

end DirWalk

/-!
## Removing a directory with all that is in it

`storage_simply_remove_recursive` of `storage_external_api.c`, on a tree of directories of which
everything that is a file or empty can be removed. A path is looked up name by name. An open
directory gives the entries it had when it was opened, in the order in which they are there.
-/

def MAX_NAME_LENGTH : ℕ := 256

/-- The names that a file or a directory can have. -/
def StorageName (name : CString) : Prop := name ≠ [] ∧ '/' ∉ name ∧ name.length ≤ 255

abbrev StorageTree := Disk CString StorageName

/-- The names in a path; more than one slash is like one. -/
def pathNames (path : CString) : List CString := (path.splitOn '/').filter (· ≠ [])

namespace StorageTree

variable (disk : StorageTree)

/-- `storage_common_remove`. -/
def remove (path : CString) : FSError × StorageTree :=
  match disk.find (pathNames path) with
  | none => (.notExist, disk)
  | some _ =>
    if hempty : disk.children (pathNames path) = [] then
      (.ok, disk.erase (pathNames path) hempty)
    else (.denied, disk)

def dirOpen : DirOpen := fun path =>
  match disk.find (pathNames path) with
  | none => .error .notExist
  | some e =>
    if e.isDir then
      .ok ((disk.children (pathNames path)).map fun child =>
        (⟨child.isDir, child.size⟩, child.name))
    else .error .notExist

end StorageTree

def storageSimplyRemove (disk : StorageTree) (path : CString) : Bool × StorageTree :=
  let (result, disk) := disk.remove path
  (result == .ok || result == .notExist, disk)

/-- The loop over the entries of `cur_dir`: whether it is to `go_deeper`, into the directory that
`cur_dir` is then. A failed `furi_check` is `none`. -/
def removeEntries (curDir : CString) : List (FileInfo × CString) → StorageTree →
    Option (Bool × CString × StorageTree)
  | [], disk => some (false, curDir, disk)
  | (fileinfo, name) :: entries, disk =>
    let name := name.take (MAX_NAME_LENGTH - 1)
    if fileinfo.isDir then some (true, DirWalk.joinPath curDir name, disk)
    else
      let (error, disk) := disk.remove (DirWalk.joinPath curDir name)
      if error = .ok then removeEntries curDir entries disk else none

/-- One round of the loop: what is returned, where nothing at all is a failed `furi_check`. -/
def removeRound (path : CString) (s : CString × StorageTree) :
    Option (Option Bool) × CString × StorageTree :=
  let (curDir, disk) := s
  let (opened, dir) := storageDirOpen disk.dirOpen curDir
  if !opened then (some (some false), s)
  else
    match removeEntries curDir (dir.entries.getD []) disk with
    | none => (some none, s)
    | some (true, curDir, disk) => (none, curDir, disk)
    | some (false, curDir, disk) =>
      let (error, disk) := disk.remove curDir
      if error ≠ .ok then (some none, curDir, disk)
      else if curDir ≠ path then (none, DirWalk.dropLast curDir, disk)
      else (some (some true), curDir, disk)

/-- If it is through after this many rounds. -/
def storageSimplyRemoveRecursive (rounds : ℕ) (disk : StorageTree) (path : CString) :
    Option (Option Bool × StorageTree) :=
  let (removed, disk) := storageSimplyRemove disk path
  if removed then some (some true, disk)
  else (firstOutput (removeRound path) rounds (path, disk)).map fun (result, _, disk) =>
    (result, disk)

end KiisuFirmware
