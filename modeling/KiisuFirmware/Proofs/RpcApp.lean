import KiisuFirmware.RpcApp

/-!
# Each request for an application is answered once

There is one place for a command that waits to be confirmed, and the id 0 says that it is empty. As
long as a request comes when it is empty, and with another id, each is answered, under its own id,
when it comes or when the application confirms it.
-/

namespace KiisuFirmware

/-- The request that a message answers. -/
def AppMessage.answers : AppMessage → Option UInt32
  | .empty commandId _ => some commandId
  | .lockStatus commandId _ => some commandId
  | .getError commandId _ _ => some commandId
  | .appState _ => none
  | .dataExchange _ => none

/-- The request that an action is. -/
def AppAction.requested : AppAction → Option UInt32
  | .request commandId _ _ => some commandId
  | _ => none

/-- The requests for the application. -/
def AppRequest.isEvent : AppRequest → Bool
  | .start _ _ => false
  | .lockStatus => false
  | .getError => false
  | _ => true

/-- The fields that are measured are there. -/
def AppRequest.hasArgs : AppRequest → Bool
  | .buttonPress args _ => args.isSome
  | .buttonPressRelease args _ => args.isSome
  | _ => true

namespace AppLink

/-- The requests that have been answered. -/
def answered (link : AppLink) : List UInt32 := link.rpcApp.session.filterMap AppMessage.answers

/-- The application confirms what it has been given. -/
def Confirming (link : AppLink) : AppAction → Prop
  | .confirm _ => link.unconfirmed ≠ []
  | _ => True

/-- Nothing waits when an application is started or given something, and what it is given has an id
and arguments. -/
def Unhurried (link : AppLink) : AppAction → Prop
  | .request commandId request _ =>
    match request with
    | .start _ _ => link.unconfirmed = []
    | .lockStatus => True
    | .getError => True
    | request => link.rpcApp.callback.isSome →
        link.unconfirmed = [] ∧ commandId ≠ 0 ∧ request.hasArgs
  | _ => True

/-- No check fails, each request but the ones not confirmed yet has one answer, under its own id, and
one that comes when there is no application is told so. -/
def AnsweredOnce (self : UInt32) (actions : List AppAction) : Prop :=
  ∃ link, exec (step self) alloc actions = .ok link ∧
    (link.answered ++ link.unconfirmed.map Prod.fst).Perm
      (actions.filterMap AppAction.requested) ∧
    ∀ commandId request answers, AppRequest.isEvent request → link.rpcApp.callback = none →
      step self link (.request commandId request answers) =
        .ok { link with rpcApp := link.rpcApp.send (.empty commandId .errorAppNotRunning) }

/-- The place for a command has the one event that is not confirmed, if there is one. -/
inductive Paired : AppLink → Prop
  | idle (rpcApp : RpcAppSystem) : rpcApp.lastCommandId = 0 → rpcApp.lastEventType = .invalid →
      Paired ⟨rpcApp, []⟩
  | waiting (rpcApp : RpcAppSystem) (event : RpcAppSystemEvent) : rpcApp.lastCommandId ≠ 0 →
      rpcApp.lastEventType ∈ RpcAppSystem.confirmable →
      Paired ⟨rpcApp, [(rpcApp.lastCommandId, event)]⟩

theorem Paired.congr {link : AppLink} (h : Paired link) {rpcApp : RpcAppSystem}
    (hid : rpcApp.lastCommandId = link.rpcApp.lastCommandId)
    (htype : rpcApp.lastEventType = link.rpcApp.lastEventType) :
    Paired ⟨rpcApp, link.unconfirmed⟩ := by
  rcases h with ⟨app, h0, hinvalid⟩ | ⟨app, event, h0, hconfirmable⟩
  · exact .idle rpcApp (hid.trans h0) (htype.trans hinvalid)
  · dsimp only at hid htype ⊢
    rw [← hid]
    refine .waiting rpcApp event ?_ ?_
    · rwa [hid]
    · rwa [htype]

/-- What a step that can be taken does to the answers. -/
def Counted (link link' : AppLink) (requested : Option UInt32) : Prop :=
  Paired link' ∧ (link'.answered ++ link'.unconfirmed.map Prod.fst).Perm
    (link.answered ++ link.unconfirmed.map Prod.fst ++ requested.toList)

theorem answered_send (rpcApp : RpcAppSystem) (unconfirmed : List (UInt32 × RpcAppSystemEvent))
    (message : AppMessage) : answered ⟨rpcApp.send message, unconfirmed⟩ =
      answered ⟨rpcApp, unconfirmed⟩ ++ message.answers.toList := by
  unfold answered RpcAppSystem.send
  rw [List.filterMap_append]
  rcases message with _ | _ | _ | _ | _ <;> rfl

theorem counted_send {link : AppLink} (h : Paired link) (rpcApp : RpcAppSystem)
    (hid : rpcApp.lastCommandId = link.rpcApp.lastCommandId)
    (htype : rpcApp.lastEventType = link.rpcApp.lastEventType)
    (hsession : rpcApp.session = link.rpcApp.session) (message : AppMessage) :
    Counted link ⟨rpcApp.send message, link.unconfirmed⟩ message.answers := by
  refine ⟨h.congr hid htype, ?_⟩
  have hanswered : answered ⟨rpcApp, link.unconfirmed⟩ = link.answered := by
    unfold answered
    rw [hsession]
  rw [answered_send, hanswered, List.append_assoc, List.append_assoc]
  exact List.perm_append_comm.append_left _

theorem counted_same {link : AppLink} (h : Paired link) {rpcApp : RpcAppSystem}
    (hid : rpcApp.lastCommandId = link.rpcApp.lastCommandId)
    (htype : rpcApp.lastEventType = link.rpcApp.lastEventType)
    (hsession : rpcApp.session = link.rpcApp.session) :
    Counted link ⟨rpcApp, link.unconfirmed⟩ none := by
  refine ⟨h.congr hid htype, ?_⟩
  unfold answered
  rw [hsession]
  simp

theorem startProcess_ok {rpcApp : RpcAppSystem} (hid : rpcApp.lastCommandId = 0)
    (htype : rpcApp.lastEventType = .invalid) (self commandId : UInt32)
    (loaderStart : CString → Option CString → LoaderStatus) (name args : Option CString) :
    ∃ (app : RpcAppSystem) (status : CommandStatus), rpcApp.startProcess self loaderStart commandId name args =
        .ok (app.send (.empty commandId status)) ∧
      app.lastCommandId = rpcApp.lastCommandId ∧ app.lastEventType = rpcApp.lastEventType ∧
      app.session = rpcApp.session := by
  unfold RpcAppSystem.startProcess
  simp only [hid, htype, furiAssert, decide_true, if_true]
  rcases name with _ | name
  · exact ⟨rpcApp, _, rfl, hid, htype, rfl⟩
  · exact ⟨rpcApp.errorReset, _, rfl, hid, htype, rfl⟩

theorem pass_ok {rpcApp : RpcAppSystem} (hid : rpcApp.lastCommandId = 0)
    (htype : rpcApp.lastEventType = .invalid) (hcallback : rpcApp.callback.isSome)
    (commandId : UInt32) (event : RpcAppSystemEvent) :
    rpcApp.pass commandId (.ok event) =
      .ok ({ rpcApp.errorReset with lastCommandId := commandId, lastEventType := event.type },
        some event) := by
  obtain ⟨callback, hsome⟩ := Option.isSome_iff_exists.1 hcallback
  unfold RpcAppSystem.pass
  rw [hsome]
  show (rpcApp.errorReset.setLastCommand commandId event >>= _) = _
  unfold RpcAppSystem.setLastCommand furiAssert
  rw [show rpcApp.errorReset.lastCommandId = 0 from hid,
    show rpcApp.errorReset.lastEventType = .invalid from htype]
  rfl

theorem pass_none {rpcApp : RpcAppSystem} (hcallback : rpcApp.callback = none) (commandId : UInt32)
    (event : Except RpcFault RpcAppSystemEvent) :
    rpcApp.pass commandId event =
      .ok (rpcApp.send (.empty commandId .errorAppNotRunning), none) := by
  unfold RpcAppSystem.pass
  rw [hcallback]
  rfl

theorem handle_eq_pass (rpcApp : RpcAppSystem) (self commandId : UInt32) (answers : AppAnswers)
    {request : AppRequest} (h : request.isEvent) :
    ∃ event, handle rpcApp self commandId answers request = rpcApp.pass commandId event ∧
      (request.hasArgs → ∃ e, event = .ok e ∧ e.type ∈ RpcAppSystem.confirmable) := by
  rcases request with ⟨name, args⟩ | _ | _ | path | ⟨_ | args, index⟩ | _ | ⟨_ | args, index⟩ | _ |
    data
  · exact absurd h Bool.false_ne_true
  · exact absurd h Bool.false_ne_true
  · exact ⟨_, rfl, fun _ => ⟨_, rfl, by simp [RpcAppSystem.confirmable]⟩⟩
  · exact ⟨_, rfl, fun _ => ⟨_, rfl, by simp [RpcAppSystem.confirmable]⟩⟩
  · exact ⟨_, rfl, fun hargs => absurd hargs Bool.false_ne_true⟩
  · refine ⟨_, rfl, fun _ => ?_⟩
    unfold RpcAppSystem.buttonData strlen
    by_cases hempty : args.length = 0
    · exact ⟨⟨.buttonPress, .int32 index⟩, by simp [hempty, bind, Except.bind, pure, Except.pure],
        by simp [RpcAppSystem.confirmable]⟩
    · exact ⟨⟨.buttonPress, .string (some args)⟩,
        by simp [hempty, bind, Except.bind, pure, Except.pure], by simp [RpcAppSystem.confirmable]⟩
  · exact ⟨_, rfl, fun _ => ⟨_, rfl, by simp [RpcAppSystem.confirmable]⟩⟩
  · exact ⟨_, rfl, fun hargs => absurd hargs Bool.false_ne_true⟩
  · refine ⟨_, rfl, fun _ => ?_⟩
    unfold RpcAppSystem.buttonData strlen
    by_cases hempty : args.length = 0
    · exact ⟨⟨.buttonPressRelease, .int32 index⟩,
        by simp [hempty, bind, Except.bind, pure, Except.pure], by simp [RpcAppSystem.confirmable]⟩
    · exact ⟨⟨.buttonPressRelease, .string (some args)⟩,
        by simp [hempty, bind, Except.bind, pure, Except.pure], by simp [RpcAppSystem.confirmable]⟩
  · exact absurd h Bool.false_ne_true
  · exact ⟨_, rfl, fun _ => ⟨_, rfl, by simp [RpcAppSystem.confirmable]⟩⟩

theorem step_notRunning (self : UInt32) {link : AppLink} (hcallback : link.rpcApp.callback = none)
    (commandId : UInt32) {request : AppRequest} (hevent : request.isEvent) (answers : AppAnswers) :
    step self link (.request commandId request answers) =
      .ok { link with rpcApp := link.rpcApp.send (.empty commandId .errorAppNotRunning) } := by
  obtain ⟨event, hhandle, -⟩ := handle_eq_pass link.rpcApp self commandId answers hevent
  simp [step, hhandle, pass_none hcallback, bind, Except.bind, pure, Except.pure]

theorem step_event (self : UInt32) {link : AppLink} (h : Paired link) (commandId : UInt32)
    {request : AppRequest} (hevent : request.isEvent) (answers : AppAnswers)
    (hready : link.rpcApp.callback.isSome →
      link.unconfirmed = [] ∧ commandId ≠ 0 ∧ request.hasArgs) :
    ∃ link', step self link (.request commandId request answers) = .ok link' ∧
      Counted link link' (some commandId) := by
  rcases hcallback : link.rpcApp.callback with _ | callback
  · exact ⟨_, step_notRunning self hcallback commandId hevent answers,
      counted_send h link.rpcApp rfl rfl rfl (.empty commandId _)⟩
  · rw [hcallback] at hready
    obtain ⟨hidle, hid, hargs⟩ := hready rfl
    obtain ⟨event, hhandle, hok⟩ := handle_eq_pass link.rpcApp self commandId answers hevent
    obtain ⟨e, rfl, hconfirmable⟩ := hok hargs
    rcases h with ⟨app, h0, hinvalid⟩ | ⟨app, event, h0, -⟩
    · have hpass := pass_ok h0 hinvalid (by rw [hcallback]; rfl) commandId e
      refine ⟨⟨{ app.errorReset with lastCommandId := commandId, lastEventType := e.type },
        [(commandId, e)]⟩, ?_, .waiting _ e hid hconfirmable, ?_⟩
      · simp [step, hhandle, hpass, bind, Except.bind, pure, Except.pure]
      · show (answered ⟨app, []⟩ ++ [commandId]).Perm _
        simp
    · exact absurd hidle (List.cons_ne_nil _ _)

theorem step_confirm (self : UInt32) {link : AppLink} (h : Paired link)
    (hwaiting : link.unconfirmed ≠ []) (result : Bool) :
    ∃ link', step self link (.confirm result) = .ok link' ∧ Counted link link' none := by
  rcases h with ⟨app, h0, hinvalid⟩ | ⟨app, event, h0, hconfirmable⟩
  · exact absurd rfl hwaiting
  · refine ⟨⟨{ app with lastCommandId := 0, lastEventType := .invalid }.send
        (.empty app.lastCommandId (if result then .ok else .errorAppCmdError)), []⟩, ?_,
      .idle _ rfl rfl, ?_⟩
    · simp [step, RpcAppSystem.confirm, furiCheck, h0, hconfirmable, bind, Except.bind, pure,
        Except.pure]
    · rw [answered_send]
      show (answered ⟨app, []⟩ ++ [app.lastCommandId] ++ []).Perm _
      simp [answered]

theorem step_counted (self : UInt32) {link : AppLink} (h : Paired link) (action : AppAction)
    (hconfirming : link.Confirming action) (hunhurried : link.Unhurried action) :
    ∃ link', step self link action = .ok link' ∧ Counted link link' action.requested := by
  rcases action with ⟨commandId, request, answers⟩ | callback | result | code | text | _ | _ | data
  · by_cases hevent : request.isEvent
    · refine step_event self h commandId hevent answers ?_
      rcases request with ⟨name, args⟩ | _ | _ | path | ⟨args, index⟩ | _ | ⟨args, index⟩ | _ | data
      · exact absurd hevent Bool.false_ne_true
      · exact absurd hevent Bool.false_ne_true
      · exact hunhurried
      · exact hunhurried
      · exact hunhurried
      · exact hunhurried
      · exact hunhurried
      · exact absurd hevent Bool.false_ne_true
      · exact hunhurried
    · rcases request with ⟨name, args⟩ | _ | _ | path | ⟨args, index⟩ | _ | ⟨args, index⟩ | _ | data
      · rcases h with ⟨app, h0, hinvalid⟩ | ⟨app, event, h0, -⟩
        · obtain ⟨app', status, hstart, hid, htype, hsession⟩ :=
            startProcess_ok h0 hinvalid self commandId answers.loaderStart name args
          refine ⟨⟨app'.send (.empty commandId status), []⟩, ?_,
            counted_send (.idle app h0 hinvalid) app' hid htype hsession _⟩
          simp [step, handle, hstart, bind, Except.bind, pure, Except.pure]
        · exact absurd hunhurried (List.cons_ne_nil _ _)
      · refine ⟨⟨link.rpcApp.errorReset.send (.lockStatus commandId answers.locked),
          link.unconfirmed⟩, ?_, counted_send h link.rpcApp.errorReset rfl rfl rfl
            (.lockStatus commandId answers.locked)⟩
        simp [step, handle, RpcAppSystem.lockStatusProcess, bind, Except.bind, pure, Except.pure]
      · exact absurd rfl hevent
      · exact absurd rfl hevent
      · exact absurd rfl hevent
      · exact absurd rfl hevent
      · exact absurd rfl hevent
      · refine ⟨⟨link.rpcApp.send (.getError commandId link.rpcApp.errorCode link.rpcApp.errorText),
          link.unconfirmed⟩, ?_, counted_send h link.rpcApp rfl rfl rfl (.getError commandId _ _)⟩
        simp [step, handle, RpcAppSystem.getErrorProcess, bind, Except.bind, pure, Except.pure]
      · exact absurd rfl hevent
  · exact ⟨_, rfl, counted_same h rfl rfl rfl⟩
  · exact step_confirm self h hconfirming result
  · exact ⟨_, rfl, counted_same h rfl rfl rfl⟩
  · exact ⟨_, rfl, counted_same h rfl rfl rfl⟩
  · exact ⟨_, rfl, counted_send h link.rpcApp rfl rfl rfl (.appState .appStarted)⟩
  · exact ⟨_, rfl, counted_send h link.rpcApp rfl rfl rfl (.appState .appClosed)⟩
  · exact ⟨_, rfl, counted_send h link.rpcApp rfl rfl rfl (.dataExchange _)⟩

theorem exec_counted (self : UInt32) : ∀ (actions : List AppAction) {link : AppLink}, Paired link →
    ExecAlong (fun link action => link.Confirming action ∧ link.Unhurried action) (step self) link
      actions →
    ∃ link', exec (step self) link actions = .ok link' ∧
      (link'.answered ++ link'.unconfirmed.map Prod.fst).Perm
        (link.answered ++ link.unconfirmed.map Prod.fst ++ actions.filterMap AppAction.requested)
  | [], link, _, _ => ⟨link, rfl, by simp⟩
  | action :: actions, link, h, ⟨⟨hconfirming, hunhurried⟩, halong⟩ => by
    obtain ⟨link₁, hstep, hpaired, hperm⟩ := step_counted self h action hconfirming hunhurried
    obtain ⟨link', hexec, hperm'⟩ := exec_counted self actions hpaired (halong link₁ hstep)
    refine ⟨link', ?_, hperm'.trans ?_⟩
    · rw [exec, List.foldlM_cons, hstep]
      exact hexec
    · have hcons : (action :: actions).filterMap AppAction.requested =
          action.requested.toList ++ actions.filterMap AppAction.requested := by
        rcases hrequested : action.requested with _ | commandId <;>
          simp [hrequested]
      rw [hcons, ← List.append_assoc]
      exact hperm.append_right _

/-- No check fails and each request is answered once, if nothing waits when the application is
started or given something, and what it is given has an id other than 0 and arguments. -/
theorem answeredOnce_of_unhurried (self : UInt32) (actions : List AppAction)
    (h : ExecAlong (fun link action => link.Confirming action ∧ link.Unhurried action) (step self)
      alloc actions) : AnsweredOnce self actions := by
  obtain ⟨link, hexec, hperm⟩ := exec_counted self actions (.idle .alloc rfl rfl) h
  exact ⟨link, hexec, hperm, fun commandId request answers hevent hcallback =>
    step_notRunning self hcallback commandId hevent answers⟩

/-- A request to exit that is confirmed. -/
theorem answeredOnce_exit : AnsweredOnce 0x20000000
    [.setCallback (some 0), .request 1 .exit ⟨fun _ _ => .ok, false⟩, .confirm true] := by
  refine answeredOnce_of_unhurried _ _ ⟨⟨trivial, trivial⟩, fun link hlink => ?_⟩
  cases hlink
  refine ⟨⟨trivial, fun _ => ⟨rfl, by decide, rfl⟩⟩, fun link hlink => ?_⟩
  cases hlink
  exact ⟨⟨List.cons_ne_nil _ _, trivial⟩, fun _ _ => trivial⟩

/-- The confirmation of a command with the id 0 fails a check. -/
theorem not_answeredOnce_id_zero : ¬∀ (self : UInt32) (actions : List AppAction),
    ExecAlong Confirming (step self) alloc actions → AnsweredOnce self actions := by
  intro h
  obtain ⟨link, hexec, -⟩ := h 0x20000000
    [.setCallback (some 0), .request 0 .exit ⟨fun _ _ => .ok, false⟩, .confirm true]
    ⟨trivial, fun link hlink => by
      cases hlink
      refine ⟨trivial, fun link hlink => ?_⟩
      cases hlink
      exact ⟨List.cons_ne_nil _ _, fun _ _ => trivial⟩⟩
  exact absurd hexec (by simp [exec, step, alloc, handle, RpcAppSystem.exitRequest,
    RpcAppSystem.pass, RpcAppSystem.setCallback, RpcAppSystem.confirm, RpcAppSystem.setLastCommand,
    RpcAppSystem.errorReset, RpcAppSystem.setErrorCode, RpcAppSystem.setErrorText,
    RpcAppSystem.alloc, furiAssert, furiCheck, bind, Except.bind, pure, Except.pure])

end AppLink

end KiisuFirmware
