import KiisuFirmware.RpcApp
import KiisuFirmware.Rpc
import KiisuFirmware.RpcStorage

/-!
# Fields that are absent

Which of the handlers of the storage, the applications and the screen need a field that a request
may not have, or that may be shorter than what they read.
-/

namespace KiisuFirmware

/-- A request to one of the subsystems, with what the rest of the system says to it. -/
inductive RpcRequest
  | storage (api : StorageApi) (request : StorageCommand)
  | app (answers : AppAnswers) (commandId : UInt32) (request : AppRequest)
  | gui (commandId : UInt32) (request : GuiRequest)

/-- The subsystems of a session, with the address of the one for applications. -/
structure RpcSystems where
  storage : RpcStorageSystem
  app : RpcAppSystem
  gui : RpcGuiSystem
  self : UInt32

namespace RpcSystems

def alloc (self : UInt32) : RpcSystems := ⟨.alloc, .alloc, .alloc, self⟩

/-- The handler of a request. -/
def handle (fileCount md5Size : ℕ) (systems : RpcSystems) :
    RpcRequest → Except RpcFault RpcSystems
  | .storage api request => do
    let (_, storage) ← systems.storage.process fileCount md5Size api request
    return { systems with storage := storage }
  | .app answers commandId request => do
    let (app, _) ← AppLink.handle systems.app systems.self commandId answers request
    return { systems with app := app }
  | .gui commandId request => do
    return { systems with gui := ← systems.gui.process commandId request }

/-- No pointer is followed that is not there, and no bytes are read that are not. -/
def MemorySafe {α : Type} (result : Except RpcFault α) : Prop :=
  result ≠ .error .nullPointer ∧ result ≠ .error .outOfBounds

/-- The fields of a request to the storage that its handler needs. -/
def StorageFields : StorageRequest → Prop
  | .info path | .timestamp path | .stat path | .read path => path.isSome
  | .list path _ _ => path.isSome
  | .rename oldPath newPath => pathContainsOnlyAscii newPath = true → oldPath.isSome
  | .tarExtract tarPath outPath => pathContainsOnlyAscii outPath = true → tarPath.isSome
  | .write _ _ _ | .delete _ _ | .mkdir _ | .md5sum _ | .backupCreate _ | .backupRestore _ => True

/-- The arguments of a button, if there is an application to be told. -/
def AppFields (app : RpcAppSystem) : AppRequest → Prop
  | .buttonPress args _ | .buttonPressRelease args _ => app.callback.isSome → args.isSome
  | _ => True

/-- A frame as large as the display. -/
def Frame (data : Option (List UInt8)) : Prop :=
  ∃ bytes, data = some bytes ∧ canvasBufferSize ≤ bytes.length

/-- The frames of a request, if a display is to show them. -/
def GuiFields (gui : RpcGuiSystem) : GuiRequest → Prop
  | .startVirtualDisplay (some data) _ => gui.virtualDisplayViewPort = none → Frame data
  | .screenFrame data => gui.virtualDisplayViewPort.isSome → Frame data
  | _ => True

/-- The fields that the handler of a request needs. -/
def Fields (systems : RpcSystems) : RpcRequest → Prop
  | .storage _ request => StorageFields request.content
  | .app _ _ request => AppFields systems.app request
  | .gui _ request => GuiFields systems.gui request

/-! ## Results -/

section Results

variable {α β : Type}

@[simp] theorem memorySafe_ok (a : α) : MemorySafe (.ok a : Except RpcFault α) := by
  simp [MemorySafe]

@[simp] theorem memorySafe_error (fault : RpcFault) :
    MemorySafe (.error fault : Except RpcFault α) ↔
      fault ≠ .nullPointer ∧ fault ≠ .outOfBounds := by
  simp [MemorySafe]

theorem memorySafe_bind {result : Except RpcFault α} {f : α → Except RpcFault β}
    (hf : ∀ a, MemorySafe (f a)) : MemorySafe (result >>= f) ↔ MemorySafe result := by
  rcases result with fault | a
  · exact (memorySafe_error fault).trans (memorySafe_error fault).symm
  · exact ⟨fun _ => memorySafe_ok a, fun _ => hf a⟩

theorem memorySafe_allocSet (path : Option CString) :
    MemorySafe (allocSet path) ↔ path.isSome = true := by
  rcases path with _ | path <;> simp [allocSet]

theorem memorySafe_strlen (s : Option CString) : MemorySafe (strlen s) ↔ s.isSome = true := by
  rcases s with _ | s <;> simp [strlen]

theorem memorySafe_furiAssert (condition : Bool) : MemorySafe (furiAssert condition) := by
  unfold furiAssert
  split_ifs <;> simp

end Results

/-! ## Storage -/

theorem memorySafe_writeChunk (storage : RpcStorageSystem) (api : StorageApi) (data : List UInt8) :
    MemorySafe (storage.writeChunk api data) := by
  unfold RpcStorageSystem.writeChunk
  split_ifs
  · exact memorySafe_ok _
  · simp [copyBytes, bind, Except.bind, pure, Except.pure]

theorem memorySafe_continueWrite (storage : RpcStorageSystem) (api : StorageApi)
    (request : StorageCommand) (name : CString) (hasFile : Bool) (data : Option (List UInt8)) :
    MemorySafe (storage.continueWrite api request (some name) hasFile data) := by
  unfold RpcStorageSystem.continueWrite
  refine (memorySafe_bind fun path => ?_).2 ((memorySafe_allocSet _).2 rfl)
  rcases storage.openToWrite api request.commandId path with ⟨_ | error, opened⟩
  · refine (memorySafe_bind fun result => ?_).2 (memorySafe_writeChunk _ _ _)
    rcases result with ⟨_ | error, written⟩
    · dsimp only
      split_ifs <;> exact memorySafe_ok _
    · exact memorySafe_ok _
  · exact memorySafe_ok _

theorem memorySafe_writeProcess (storage : RpcStorageSystem) (api : StorageApi)
    (request : StorageCommand) (path : Option CString) (hasFile : Bool)
    (data : Option (List UInt8)) :
    MemorySafe (storage.writeProcess api request path hasFile data) := by
  unfold RpcStorageSystem.writeProcess
  by_cases hpath : pathContainsOnlyAscii path = true
  · obtain ⟨name, rfl⟩ : ∃ name, path = some name := by
      rcases path with _ | name
      · cases hpath
      · exact ⟨name, rfl⟩
    rw [hpath, Bool.not_true, if_neg Bool.false_ne_true]
    split_ifs <;>
      exact (memorySafe_bind fun _ => memorySafe_ok _).2 (memorySafe_continueWrite _ _ _ _ _ _)
  · rw [Bool.eq_false_of_not_eq_true hpath, Bool.not_false, if_pos rfl]
    exact memorySafe_ok _

theorem memorySafe_rename (api : StorageApi) (commandId : UInt32) (oldPath newPath : Option CString) :
    MemorySafe (renameProcess api commandId oldPath newPath) ↔
      StorageFields (.rename oldPath newPath) := by
  unfold renameProcess StorageFields
  split_ifs with hpath
  · obtain ⟨name, rfl⟩ : ∃ name, newPath = some name := by
      rcases newPath with _ | name
      · cases hpath
      · exact ⟨name, rfl⟩
    refine (memorySafe_bind fun _ => memorySafe_ok _).trans ((memorySafe_allocSet oldPath).trans ?_)
    simp [hpath]
  · simp [hpath, pure, Except.pure]

theorem memorySafe_tarExtract (api : StorageApi) (commandId : UInt32)
    (tarPath outPath : Option CString) : MemorySafe (tarExtractProcess api commandId tarPath outPath) ↔
      StorageFields (.tarExtract tarPath outPath) := by
  unfold tarExtractProcess StorageFields
  by_cases hpath : pathContainsOnlyAscii outPath = true
  · obtain ⟨name, rfl⟩ : ∃ name, outPath = some name := by
      rcases outPath with _ | name
      · cases hpath
      · exact ⟨name, rfl⟩
    rw [hpath, Bool.not_true, if_neg Bool.false_ne_true]
    refine (memorySafe_bind fun path => ?_).trans ((memorySafe_allocSet tarPath).trans ?_)
    · split_ifs <;> exact memorySafe_ok _
    · simp [hpath]
  · rw [Bool.eq_false_of_not_eq_true hpath, Bool.not_false, if_pos rfl]
    simp [hpath, pure, Except.pure]

theorem memorySafe_respond (fileCount md5Size : ℕ) (api : StorageApi) (commandId : UInt32)
    (request : StorageRequest) : MemorySafe (respond fileCount md5Size api commandId request) ↔
      StorageFields request := by
  rcases request with path | path | path | ⟨path, includeMd5, filterMaxSize⟩ | path |
    ⟨path, hasFile, data⟩ | ⟨path, recursive⟩ | path | path | ⟨oldPath, newPath⟩ | archivePath |
    archivePath | ⟨tarPath, outPath⟩
  case info | timestamp | stat =>
    exact (memorySafe_bind fun _ => memorySafe_ok _).trans (memorySafe_allocSet path)
  case list =>
    refine (memorySafe_bind fun path => ?_).trans (memorySafe_allocSet path)
    split_ifs
    · exact (memorySafe_bind fun _ => memorySafe_ok _).2 (memorySafe_furiAssert _)
    · rcases api.dirOpen path with error | entries <;> exact memorySafe_ok _
  case read =>
    refine (memorySafe_bind fun path => ?_).trans (memorySafe_allocSet path)
    rcases api.fileOpen path with error | content <;> exact memorySafe_ok _
  case rename => exact memorySafe_rename api commandId oldPath newPath
  case tarExtract => exact memorySafe_tarExtract api commandId tarPath outPath
  all_goals exact ⟨fun _ => trivial, fun _ => memorySafe_ok _⟩

theorem memorySafe_storage (fileCount md5Size : ℕ) (storage : RpcStorageSystem) (api : StorageApi)
    (request : StorageCommand) :
    MemorySafe (storage.process fileCount md5Size api request) ↔ StorageFields request.content := by
  unfold RpcStorageSystem.process
  split
  · next path hasFile data hcontent =>
    rw [hcontent]
    exact ⟨fun _ => trivial, fun _ => memorySafe_writeProcess storage api request path hasFile data⟩
  · exact (memorySafe_bind fun _ => memorySafe_ok _).trans (memorySafe_respond _ _ _ _ _)

/-! ## Applications -/

theorem memorySafe_setLastCommand (app : RpcAppSystem) (commandId : UInt32)
    (event : RpcAppSystemEvent) : MemorySafe (app.setLastCommand commandId event) := by
  refine (memorySafe_bind fun _ => ?_).2 (memorySafe_furiAssert _)
  exact (memorySafe_bind fun _ => memorySafe_ok _).2 (memorySafe_furiAssert _)

theorem memorySafe_pass (app : RpcAppSystem) (commandId : UInt32)
    (event : Except RpcFault RpcAppSystemEvent) :
    MemorySafe (app.pass commandId event) ↔ (app.callback.isSome = true → MemorySafe event) := by
  unfold RpcAppSystem.pass
  rcases app.callback with _ | callback
  · simp [pure, Except.pure]
  · refine (memorySafe_bind fun event => ?_).trans (by simp)
    exact (memorySafe_bind fun _ => memorySafe_ok _).2 (memorySafe_setLastCommand _ _ _)

theorem memorySafe_buttonData (args : Option CString) (index : ℤ) :
    MemorySafe (RpcAppSystem.buttonData args index) ↔ args.isSome = true := by
  refine (memorySafe_bind fun length => ?_).trans (memorySafe_strlen args)
  split_ifs <;> exact memorySafe_ok _

theorem memorySafe_app (app : RpcAppSystem) (self : UInt32) (answers : AppAnswers)
    (commandId : UInt32) (request : AppRequest) :
    MemorySafe (AppLink.handle app self commandId answers request) ↔ AppFields app request := by
  rcases request with ⟨name, args⟩ | _ | _ | path | ⟨args, index⟩ | _ | ⟨args, index⟩ | _ | data
  case start =>
    refine (memorySafe_bind fun _ => memorySafe_ok _).trans ⟨fun _ => trivial, fun _ => ?_⟩
    refine (memorySafe_bind fun _ => ?_).2 (memorySafe_furiAssert _)
    refine (memorySafe_bind fun _ => ?_).2 (memorySafe_furiAssert _)
    rcases name with _ | name <;> exact memorySafe_ok _
  case buttonPress | buttonPressRelease =>
    refine (memorySafe_pass _ _ _).trans (imp_congr_right fun _ => ?_)
    exact (memorySafe_bind fun _ => memorySafe_ok _).trans (memorySafe_buttonData args index)
  case exit | loadFile | buttonRelease | dataExchange =>
    exact (memorySafe_pass _ _ _).trans ⟨fun _ => trivial, fun _ _ => memorySafe_ok _⟩
  case lockStatus | getError => exact ⟨fun _ => trivial, fun _ => memorySafe_ok _⟩

/-! ## The screen -/

theorem memorySafe_copyFrame (data : Option (List UInt8)) :
    MemorySafe (RpcGuiSystem.copyFrame data) ↔ Frame data := by
  unfold RpcGuiSystem.copyFrame Frame
  rcases data with _ | bytes
  · simp
  · dsimp only
    split_ifs with hlength <;> simp [hlength]

theorem memorySafe_gui (gui : RpcGuiSystem) (commandId : UInt32) (request : GuiRequest) :
    MemorySafe (gui.process commandId request) ↔ GuiFields gui request := by
  rcases request with _ | _ | ⟨key, type⟩ | ⟨_ | data, sendInput⟩ | _ | data
  case startVirtualDisplay.none =>
    refine ⟨fun _ => trivial, fun _ => ?_⟩
    unfold RpcGuiSystem.process RpcGuiSystem.startVirtualDisplayProcess
    rcases gui.virtualDisplayViewPort with _ | viewPort <;> exact memorySafe_ok _
  case startVirtualDisplay.some =>
    unfold RpcGuiSystem.process RpcGuiSystem.startVirtualDisplayProcess GuiFields
    rcases gui.virtualDisplayViewPort with _ | viewPort
    · refine (memorySafe_bind fun _ => memorySafe_ok _).trans ((memorySafe_copyFrame data).trans ?_)
      simp
    · simp
  case screenFrame =>
    unfold RpcGuiSystem.process RpcGuiSystem.virtualDisplayFrameProcess GuiFields
    rcases gui.virtualDisplayViewPort with _ | viewPort
    · simp
    · refine (memorySafe_bind fun _ => memorySafe_ok _).trans ((memorySafe_copyFrame data).trans ?_)
      simp
  all_goals exact ⟨fun _ => trivial, fun _ => memorySafe_ok _⟩

/-! ## All of them -/

/-- In any state of the subsystems. -/
theorem memorySafe_handle_iff (fileCount md5Size : ℕ) (systems : RpcSystems)
    (request : RpcRequest) :
    MemorySafe (systems.handle fileCount md5Size request) ↔ Fields systems request := by
  rcases request with ⟨api, request⟩ | ⟨answers, commandId, request⟩ | ⟨commandId, request⟩
  · exact (memorySafe_bind fun _ => memorySafe_ok _).trans
      (memorySafe_storage fileCount md5Size systems.storage api request)
  · exact (memorySafe_bind fun _ => memorySafe_ok _).trans
      (memorySafe_app systems.app systems.self answers commandId request)
  · exact (memorySafe_bind fun _ => memorySafe_ok _).trans
      (memorySafe_gui systems.gui commandId request)

/-- A first frame of one byte, in a session that has just been opened. -/
theorem not_memorySafe_shortFrame : ¬∀ (fileCount md5Size : ℕ) (self : UInt32)
    (request : RpcRequest), MemorySafe ((alloc self).handle fileCount md5Size request) := by
  intro h
  exact (h 8 33 0x20000000 (.gui 1 (.startVirtualDisplay (some (some [0])) false))).2 rfl

end RpcSystems

end KiisuFirmware
