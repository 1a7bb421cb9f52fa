import KiisuFirmware.Rpc

/-!
# Storage in a remote session

`rpc_storage.c`. What the storage answers while a request is handled is given beforehand. A string
is taken over when it is handed to the storage, which needs a pointer.
-/

namespace KiisuFirmware

/-- `FS_Error`. -/
inductive FSError
  | ok
  | notReady
  | exist
  | notExist
  | invalidParameter
  | denied
  | invalidName
  | internal
  | notImplemented
  | alreadyOpen
  deriving DecidableEq

structure FileInfo where
  isDir : Bool
  size : UInt64
  deriving DecidableEq

/-- `PB_Storage_File`. -/
structure PBStorageFile where
  isDir : Bool
  name : Option CString
  size : UInt32
  data : Option (List UInt8)
  md5sum : CString
  deriving DecidableEq

namespace PBStorageFile

/-- Memory that is set to zero. -/
def zero : PBStorageFile := ⟨false, none, 0, none, []⟩

/-- `pb_release` frees what there are pointers to. -/
def release (file : PBStorageFile) : PBStorageFile := { file with name := none, data := none }

end PBStorageFile

/-- The contents of the responses. -/
inductive StorageResponse
  | empty
  | info (totalSpace freeSpace : UInt64)
  | timestamp (timestamp : UInt32)
  | stat (file : PBStorageFile)
  | list (file : List PBStorageFile)
  | read (data : List UInt8)
  | md5sum (md5sum : CString)
  deriving DecidableEq

/-- `PB_Main` with a response. -/
structure StorageMessage where
  commandId : UInt32
  commandStatus : CommandStatus
  hasNext : Bool
  content : StorageResponse
  deriving DecidableEq

/-- The contents of the requests. -/
inductive StorageRequest
  | info (path : Option CString)
  | timestamp (path : Option CString)
  | stat (path : Option CString)
  | list (path : Option CString) (includeMd5 : Bool) (filterMaxSize : UInt32)
  | read (path : Option CString)
  | write (path : Option CString) (hasFile : Bool) (data : Option (List UInt8))
  | delete (path : Option CString) (recursive : Bool)
  | mkdir (path : Option CString)
  | md5sum (path : Option CString)
  | rename (oldPath newPath : Option CString)
  | backupCreate (archivePath : Option CString)
  | backupRestore (archivePath : Option CString)
  | tarExtract (tarPath outPath : Option CString)
  deriving DecidableEq

/-- `PB_Main` with a request. -/
structure StorageCommand where
  commandId : UInt32
  hasNext : Bool
  content : StorageRequest
  deriving DecidableEq

/-- The answers of the storage. A file or a directory that cannot be opened leaves an error, and
one that can is what it holds; `fileRead` is how many bytes each read gets, and the error it
leaves. -/
structure StorageApi where
  fsInfo : CString → FSError × UInt64 × UInt64
  timestamp : CString → FSError × UInt32
  stat : CString → FSError × FileInfo
  remove : CString → FSError
  simplyRemoveRecursive : CString → Bool
  mkdir : CString → FSError
  rename : CString → CString → FSError
  intBackup : CString → FSError
  intRestore : CString → FSError
  tarOpen : CString → Bool
  tarUnpack : CString → Bool
  md5 : CString → Except FSError (Vector UInt8 16)
  dirOpen : CString → Except FSError (List (FileInfo × CString))
  fileOpen : CString → Except FSError (List UInt8)
  fileRead : ℕ → ℕ × FSError
  fileWrite : ℕ × FSError

/-- A storage where all goes well. -/
def StorageApi.calm : StorageApi where
  fsInfo _ := (.ok, 0, 0)
  timestamp _ := (.ok, 0)
  stat _ := (.ok, ⟨false, 0⟩)
  remove _ := .ok
  simplyRemoveRecursive _ := true
  mkdir _ := .ok
  rename _ _ := .ok
  intBackup _ := .ok
  intRestore _ := .ok
  tarOpen _ := true
  tarUnpack _ := true
  md5 _ := .error .notExist
  dirOpen _ := .ok []
  fileOpen _ := .ok []
  fileRead _ := (512, .ok)
  fileWrite := (512, .ok)

/-! ## Paths -/

/-- A string that is handed to the storage. -/
def allocSet : Option CString → Except RpcFault CString
  | none => .error .nullPointer
  | some s => .ok s

def isForbidden (c : Char) : Bool := ['\\', '<', '>', '*', '|', '"', ':', '?'].contains c

/-- A name without a character that is not printable or forbidden on some platform. -/
def containsOnlyAscii (name : CString) : Bool :=
  name.all fun c => !(c < ' ' || '~' < c || isForbidden c)

/-- What is behind the last '/'. -/
def baseName (path : CString) : CString := (path.reverse.takeWhile (· ≠ '/')).reverse

def pathContainsOnlyAscii : Option CString → Bool
  | none => false
  | some path => containsOnlyAscii (baseName path)

/-- Bytes that are copied from a field. -/
def copyBytes (data : List UInt8) (size : ℕ) : Except RpcFault (List UInt8) :=
  if size ≤ data.length then .ok (data.take size) else .error .outOfBounds

/-! ## The state -/

inductive RpcStorageState
  | idle
  | writing
  deriving DecidableEq

/-- A file, with what was written to it, also when it is closed. -/
structure WriteFile where
  isOpen : Bool
  data : List UInt8
  deriving DecidableEq

structure RpcStorageSystem where
  file : WriteFile
  state : RpcStorageState
  currentCommandId : UInt32
  deriving DecidableEq

/-- `rpc_send_and_release_empty`. -/
def emptyMessage (commandId : UInt32) (status : CommandStatus) : StorageMessage :=
  ⟨commandId, status, false, .empty⟩

/-- `rpc_system_storage_get_error`. -/
def storageGetError : FSError → CommandStatus
  | .ok => .ok
  | .invalidName => .errorStorageInvalidName
  | .invalidParameter => .errorStorageInvalidParameter
  | .internal => .errorStorageInternal
  | .alreadyOpen => .errorStorageAlreadyOpen
  | .denied => .errorStorageDenied
  | .exist => .errorStorageExist
  | .notExist => .errorStorageNotExist
  | .notReady => .errorStorageNotReady
  | .notImplemented => .errorStorageNotImplemented

namespace RpcStorageSystem

def alloc : RpcStorageSystem := ⟨⟨false, []⟩, .idle, 0⟩

variable (rpcStorage : RpcStorageSystem)

def closeFile : RpcStorageSystem :=
  { rpcStorage with file := { rpcStorage.file with isOpen := false } }

/-- What is sent, and the state that is left. -/
def resetState (sendError : Bool) : List StorageMessage × RpcStorageSystem :=
  match rpcStorage.state with
  | .idle => ([], rpcStorage)
  | .writing =>
    (if sendError then
      [emptyMessage rpcStorage.currentCommandId .errorContinuousCommandInterrupted] else [],
    { rpcStorage.closeFile with state := .idle })

/-! ## Writing -/

/-- The file is opened anew if there is no chain yet. -/
def openToWrite (api : StorageApi) (commandId : UInt32) (path : CString) :
    Option FSError × RpcStorageSystem :=
  match rpcStorage.state with
  | .writing => (none, rpcStorage)
  | .idle =>
    let rpcStorage := { rpcStorage with currentCommandId := commandId, state := .writing }
    match api.fileOpen path with
    | .error error => (some error, { rpcStorage with file := ⟨false, []⟩ })
    | .ok _ => (none, { rpcStorage with file := ⟨true, []⟩ })

/-- The bytes of a request that are written. -/
def chunk (hasFile : Bool) (data : Option (List UInt8)) : List UInt8 :=
  if hasFile then data.getD [] else []

/-- The bytes of a chunk go behind those that were written, as far as they do. -/
def writeChunk (api : StorageApi) (data : List UInt8) :
    Except RpcFault (Option FSError × RpcStorageSystem) := do
  if data = [] then return (none, rpcStorage)
  else
    let buffer ← copyBytes data data.length
    let written := buffer.take api.fileWrite.1
    let file := { rpcStorage.file with data := rpcStorage.file.data ++ written }
    return (if written.length = data.length then none else some api.fileWrite.2,
      { rpcStorage with file := file })

/-- An error the storage does not report is reported. -/
def writeStatus (error : FSError) : CommandStatus :=
  if storageGetError error = .ok then .errorStorageInternal else storageGetError error

/-- The rest of a request to write, where no other chain is left. -/
def continueWrite (api : StorageApi) (request : StorageCommand) (path : Option CString)
    (hasFile : Bool) (data : Option (List UInt8)) :
    Except RpcFault (List StorageMessage × RpcStorageSystem) := do
  let path ← allocSet path
  let (error, rpcStorage) := rpcStorage.openToWrite api request.commandId path
  let (error, rpcStorage) ←
    match error with
    | some error => pure (some error, rpcStorage)
    | none => rpcStorage.writeChunk api (chunk hasFile data)
  match error with
  | some error => return ([emptyMessage rpcStorage.currentCommandId (writeStatus error)],
      (rpcStorage.resetState false).2)
  | none =>
    if request.hasNext then return ([], rpcStorage)
    else return ([emptyMessage rpcStorage.currentCommandId .ok], (rpcStorage.resetState false).2)

def writeProcess (api : StorageApi) (request : StorageCommand) (path : Option CString)
    (hasFile : Bool) (data : Option (List UInt8)) :
    Except RpcFault (List StorageMessage × RpcStorageSystem) := do
  if !pathContainsOnlyAscii path then
    let rpcStorage := { rpcStorage with currentCommandId := request.commandId }
    return ([emptyMessage rpcStorage.currentCommandId .errorStorageInvalidName],
      (rpcStorage.resetState false).2)
  else
    let (interrupted, rpcStorage) :=
      if request.commandId ≠ rpcStorage.currentCommandId ∧ rpcStorage.state = .writing then
        rpcStorage.resetState true
      else ([], rpcStorage)
    let (sent, rpcStorage) ← rpcStorage.continueWrite api request path hasFile data
    return (interrupted ++ sent, rpcStorage)

def free : RpcStorageSystem := (rpcStorage.resetState false).2

end RpcStorageSystem

/-! ## Listing -/

section Listing

-- How many files a response has room for, and how many bytes a digest has.
variable (fileCount md5Size : ℕ)

/-- Two digits for each byte. -/
def md5String (hash : Vector UInt8 16) : CString :=
  hash.toList.flatMap fun byte => [Nat.digitChar (byte.toNat / 16), Nat.digitChar (byte.toNat % 16)]

/-- What `snprintf` leaves in a digest. -/
def md5Field (hash : Vector UInt8 16) : CString := (md5String hash).take (md5Size - 1)

def listFilter (filterMaxSize : UInt32) (fileinfo : FileInfo) (name : CString) : Bool :=
  pathContainsOnlyAscii (some name) &&
    !(filterMaxSize ≠ 0 && decide (filterMaxSize.toUInt64 < fileinfo.size))

/-- One file of the response, over what was there. -/
def listFile (api : StorageApi) (path : CString) (includeMd5 : Bool) (fileinfo : FileInfo)
    (name : CString) (file : PBStorageFile) : PBStorageFile where
  isDir := fileinfo.isDir
  size := fileinfo.size.toUInt32
  data := none
  name := some name
  md5sum :=
    if includeMd5 && !fileinfo.isDir then
      match api.md5 (path ++ '/' :: name) with
      | .ok hash => md5Field md5Size hash
      | .error _ => file.md5sum
    else file.md5sum

def listMessage (commandId : UInt32) (hasNext : Bool) (file : List PBStorageFile) :
    StorageMessage := ⟨commandId, .ok, hasNext, .list file⟩

/-- The entries that are left, with the files of the response and how many of them are used. -/
def listLoop (api : StorageApi) (commandId : UInt32) (path : CString) (includeMd5 : Bool)
    (filterMaxSize : UInt32) :
    List (FileInfo × CString) → ℕ → List PBStorageFile → List StorageMessage
  | [], i, file => [listMessage commandId false (file.take i)]
  | (fileinfo, name) :: entries, i, file =>
    if listFilter filterMaxSize fileinfo name then
      let (sent, i, file) :=
        if i = fileCount then
          ([listMessage commandId true (file.take i)], 0, file.map PBStorageFile.release)
        else ([], i, file)
      let file := file.modify i (listFile md5Size api path includeMd5 fileinfo name)
      sent ++ listLoop api commandId path includeMd5 filterMaxSize entries (i + 1) file
    else listLoop api commandId path includeMd5 filterMaxSize entries i file

def hardCodedDirs : List CString := [['a', 'n', 'y'], ['i', 'n', 't'], ['e', 'x', 't']]

def listRoot (commandId : UInt32) : Except RpcFault (List StorageMessage) := do
  furiAssert (hardCodedDirs.length < fileCount)
  return [listMessage commandId false
    (hardCodedDirs.map fun name => { PBStorageFile.zero with isDir := true, name := some name })]

/-- The responses to a request to list, after the state was reset. -/
def listProcess (api : StorageApi) (commandId : UInt32) (path : Option CString)
    (includeMd5 : Bool) (filterMaxSize : UInt32) : Except RpcFault (List StorageMessage) := do
  let path ← allocSet path
  if path = ['/'] then listRoot fileCount commandId
  else
    match api.dirOpen path with
    | .error error => return [⟨commandId, storageGetError error, false, .empty⟩]
    | .ok entries =>
      return listLoop fileCount md5Size api commandId path includeMd5 filterMaxSize entries 0
        (List.replicate fileCount .zero)

end Listing

/-! ## Reading -/

def maxDataSize : ℕ := 512

/-- The reads from a position on, with what is left by the size the file had. What one of them got
is sent if it is as much as it asked for; otherwise the error it left is. -/
def readLoop (fileRead : ℕ → ℕ × FSError) (commandId : UInt32) (content : List UInt8)
    (position reads sizeLeft : ℕ) : List StorageMessage :=
  if sizeLeft = 0 then [⟨commandId, .ok, false, .read []⟩]
  else
    let readSize := min sizeLeft maxDataSize
    let data := (content.drop position).take (min (fileRead reads).1 readSize)
    if data.length = readSize then
      ⟨commandId, .ok, decide (0 < sizeLeft - readSize), .read data⟩ ::
        if 0 < sizeLeft - readSize then
          readLoop fileRead commandId content (position + readSize) (reads + 1)
            (sizeLeft - readSize)
        else []
    else [emptyMessage commandId (storageGetError (fileRead reads).2)]
termination_by sizeLeft
decreasing_by
  have hpos : 0 < min sizeLeft maxDataSize := lt_min (Nat.pos_of_ne_zero ‹_›) (by decide)
  omega

/-- The size of the file goes into a `size_t`. -/
def readProcess (api : StorageApi) (commandId : UInt32) (path : Option CString) :
    Except RpcFault (List StorageMessage) := do
  let path ← allocSet path
  match api.fileOpen path with
  | .error error => return [emptyMessage commandId (storageGetError error)]
  | .ok content =>
    return readLoop api.fileRead commandId content 0 0 (content.length % 2 ^ 32)

/-! ## The other requests -/

def infoProcess (api : StorageApi) (commandId : UInt32) (path : Option CString) :
    Except RpcFault (List StorageMessage) := do
  let (error, totalSpace, freeSpace) := api.fsInfo (← allocSet path)
  return [⟨commandId, storageGetError error, false,
    if error = .ok then .info totalSpace freeSpace else .empty⟩]

def timestampProcess (api : StorageApi) (commandId : UInt32) (path : Option CString) :
    Except RpcFault (List StorageMessage) := do
  let (error, timestamp) := api.timestamp (← allocSet path)
  return [⟨commandId, storageGetError error, false,
    if error = .ok then .timestamp timestamp else .empty⟩]

def statProcess (api : StorageApi) (commandId : UInt32) (path : Option CString) :
    Except RpcFault (List StorageMessage) := do
  let (error, fileinfo) := api.stat (← allocSet path)
  return [⟨commandId, storageGetError error, false,
    if error = .ok then
      .stat { PBStorageFile.zero with isDir := fileinfo.isDir, size := fileinfo.size.toUInt32 }
    else .empty⟩]

/-- A directory without an entry whose name could be listed. -/
def isDirIsEmpty (api : StorageApi) (path : CString) : Bool :=
  if (api.stat path).1 = .ok && (api.stat path).2.isDir then
    match api.dirOpen path with
    | .error _ => true
    | .ok entries => !entries.any fun entry => pathContainsOnlyAscii (some entry.2)
  else true

def deleteStatus (api : StorageApi) (recursive : Bool) : Option CString → CommandStatus
  | none => .errorInvalidParameters
  | some path =>
    let error := api.remove path
    if error = .denied && !isDirIsEmpty api path then
      if recursive then if api.simplyRemoveRecursive path then .ok else .error
      else .errorStorageDirNotEmpty
    else if error = .notExist then .ok
    else storageGetError error

def deleteProcess (api : StorageApi) (commandId : UInt32) (path : Option CString)
    (recursive : Bool) : Except RpcFault (List StorageMessage) :=
  .ok [emptyMessage commandId (deleteStatus api recursive path)]

def mkdirProcess (api : StorageApi) (commandId : UInt32) (path : Option CString) :
    Except RpcFault (List StorageMessage) :=
  .ok [emptyMessage commandId (match path with
    | none => .errorInvalidParameters
    | some path =>
      if pathContainsOnlyAscii (some path) then storageGetError (api.mkdir path)
      else .errorStorageInvalidName)]

def md5sumProcess (md5Size : ℕ) (api : StorageApi) (commandId : UInt32) (path : Option CString) :
    Except RpcFault (List StorageMessage) :=
  .ok [match path with
    | none => emptyMessage commandId .errorInvalidParameters
    | some path =>
      match api.md5 path with
      | .ok hash => ⟨commandId, .ok, false, .md5sum (md5Field md5Size hash)⟩
      | .error error => emptyMessage commandId (storageGetError error)]

def renameProcess (api : StorageApi) (commandId : UInt32) (oldPath newPath : Option CString) :
    Except RpcFault (List StorageMessage) := do
  if pathContainsOnlyAscii newPath then
    let oldPath ← allocSet oldPath
    let newPath ← allocSet newPath
    return [emptyMessage commandId (storageGetError (api.rename oldPath newPath))]
  else return [emptyMessage commandId .errorStorageInvalidName]

def intBackupDefaultLocation : CString := "/ext/backup.tar".toList

/-- The destination of a backup, or the default one. -/
def backupLocation : Option CString → CString
  | none => intBackupDefaultLocation
  | some path => if path = [] then intBackupDefaultLocation else path

/-- Whether the storage was left without an error. -/
def okStatus (ok : Bool) : CommandStatus := if ok then .ok else .error

def backupCreateProcess (api : StorageApi) (commandId : UInt32) (archivePath : Option CString) :
    Except RpcFault (List StorageMessage) :=
  .ok [emptyMessage commandId (okStatus (api.intBackup (backupLocation archivePath) = .ok))]

def backupRestoreProcess (api : StorageApi) (commandId : UInt32) (archivePath : Option CString) :
    Except RpcFault (List StorageMessage) :=
  .ok [emptyMessage commandId (okStatus (api.intRestore (backupLocation archivePath) = .ok))]

def tarExtractProcess (api : StorageApi) (commandId : UInt32) (tarPath outPath : Option CString) :
    Except RpcFault (List StorageMessage) := do
  if !pathContainsOnlyAscii outPath then
    return [emptyMessage commandId .errorStorageInvalidName]
  else
    let tarPath ← allocSet tarPath
    if !api.tarOpen tarPath then
      return [emptyMessage commandId .errorStorageInvalidParameter]
    else
      let outPath ← allocSet outPath
      return [emptyMessage commandId
        (if api.tarUnpack outPath then .ok else .errorStorageInternal)]

/-! ## All the requests -/

section Process

variable (fileCount md5Size : ℕ) (api : StorageApi) (commandId : UInt32)

/-- What a request other than one to write is answered, after the state was reset. -/
def respond : StorageRequest → Except RpcFault (List StorageMessage)
  | .info path => infoProcess api commandId path
  | .timestamp path => timestampProcess api commandId path
  | .stat path => statProcess api commandId path
  | .list path includeMd5 filterMaxSize =>
    listProcess fileCount md5Size api commandId path includeMd5 filterMaxSize
  | .read path => readProcess api commandId path
  | .write _ _ _ => .ok []
  | .delete path recursive => deleteProcess api commandId path recursive
  | .mkdir path => mkdirProcess api commandId path
  | .md5sum path => md5sumProcess md5Size api commandId path
  | .rename oldPath newPath => renameProcess api commandId oldPath newPath
  | .backupCreate archivePath => backupCreateProcess api commandId archivePath
  | .backupRestore archivePath => backupRestoreProcess api commandId archivePath
  | .tarExtract tarPath outPath => tarExtractProcess api commandId tarPath outPath

end Process

/-- A request in a session: what is sent, and the state that is left. -/
def RpcStorageSystem.process (fileCount md5Size : ℕ) (rpcStorage : RpcStorageSystem)
    (api : StorageApi) (request : StorageCommand) :
    Except RpcFault (List StorageMessage × RpcStorageSystem) :=
  match request.content with
  | .write path hasFile data => rpcStorage.writeProcess api request path hasFile data
  | content => do
    let (interrupted, rpcStorage) := rpcStorage.resetState true
    let sent ← respond fileCount md5Size api request.commandId content
    return (interrupted ++ sent, rpcStorage)

/-!
## Aliases of paths

`storage_process_alias` of `storage_processing.c`. What the storage answers about a directory and
what becomes of it when one is made is given (`StorageCommon`).
-/

def STORAGE_APP_DATA_PATH_PREFIX : CString := "/data".toList

def STORAGE_APP_ASSETS_PATH_PREFIX : CString := "/assets".toList

def STORAGE_INT_PATH_PREFIX : CString := "/int".toList

def APPS_DATA_PATH : CString := "/ext/apps_data".toList

def APPS_ASSETS_PATH : CString := "/ext/apps_assets".toList

/-- `EXT_PATH(STORAGE_INTERNAL_DIR_NAME)`. -/
def INT_ON_EXT_PATH : CString := "/ext/.int".toList

/-- The name of an application, which is one of a file without its extension, or the one in its
manifest. -/
structure AppId where
  name : CString
  noSlash : '/' ∉ name

/-- `storage_process_common_stat` and `storage_process_common_mkdir`. -/
structure StorageCommon (σ : Type) where
  stat : σ → CString → FSError
  mkdir : σ → CString → σ

def furiStringStartWith (path start : CString) : Bool := start.isPrefixOf path

/-- `furi_string_replace_at(path, 0, …)`. -/
def replaceStart (path : CString) (length : ℕ) (text : CString) : CString :=
  text ++ path.drop length

def appsPath (apps : CString) (appid : AppId) : CString := apps ++ '/' :: appid.name

variable {σ : Type} (app : StorageCommon σ)

/-- The path, and what becomes of the storage. -/
def storageProcessAlias (appid : AppId) (createFolders : Bool) (path : CString) (storage : σ) :
    CString × σ :=
  if furiStringStartWith path STORAGE_APP_DATA_PATH_PREFIX then
    let appsDataPath := appsPath APPS_DATA_PATH appid
    (replaceStart path STORAGE_APP_DATA_PATH_PREFIX.length appsDataPath,
      if createFolders && app.stat storage appsDataPath != .ok then
        app.mkdir (app.mkdir storage APPS_DATA_PATH) appsDataPath
      else storage)
  else if furiStringStartWith path STORAGE_APP_ASSETS_PATH_PREFIX then
    (replaceStart path STORAGE_APP_ASSETS_PATH_PREFIX.length (appsPath APPS_ASSETS_PATH appid),
      storage)
  else if furiStringStartWith path STORAGE_INT_PATH_PREFIX then
    (replaceStart path STORAGE_INT_PATH_PREFIX.length INT_ON_EXT_PATH,
      if app.stat storage INT_ON_EXT_PATH != .ok then app.mkdir storage INT_ON_EXT_PATH
      else storage)
  else (path, storage)

end KiisuFirmware
