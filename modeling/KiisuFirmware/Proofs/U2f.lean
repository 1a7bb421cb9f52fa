import KiisuFirmware.Run
import KiisuFirmware.U2f

/-!
# What the U2F token signs

Registrations and enforced authentications use up a confirmation, and authentications are signed
for key handles of the token alone. The counter grows and the answer is that to the message, as long
as the message is as long as what is read of it, the counter does not wrap around, and a restart
finds a counter that the last signature has not passed.
-/

namespace KiisuFirmware

namespace U2f

variable (crypto : U2fCrypto)

/-- A signature that is for a user who is there. -/
def Signature.consumes : Signature → Bool
  | .registration _ => true
  | .authentication p1 _ _ _ _ => p1 == U2fEnforce

def Signature.counter : Signature → Option UInt32
  | .registration _ => none
  | .authentication _ _ _ _ counter => some counter

/-- The token has made the key handle for the application. -/
def Owns (u2f : U2fData) (appId handle nonce : List UInt8) : Prop :=
  handle = (keyHandle crypto u2f (privateKey crypto u2f appId nonce) appId).toList

/-- A message that is answered with the signature of an authentication, if it is one at all. -/
structure Authentic (env : MsgEnv) (u2f : U2fData) (buf : List UInt8) : Prop where
  ready : u2f.ready = true
  command : buf.getD 1 0 = U2F_CMD_AUTHENTICATE
  dataCheck : env.dataCheck = true
  user : u2f.userPresent = true ∨ reqP1 buf ≠ U2fEnforce
  owns : Owns crypto u2f (reqAppId buf) (reqHandleHash buf) (reqHandleNonce buf)
  signs : reqP1 buf ≠ U2fCheckOnly

/-- The first bytes of the buffer on which the answer depends. -/
def reach (env : MsgEnv) (u2f : U2fData) (buf : List UInt8) (len : ℕ) : ℕ :=
  if !u2f.ready then 0
  else if buf.getD 0 0 ≠ 0x00 ∧ len < 5 then 1
  else if buf.getD 1 0 = U2F_CMD_REGISTER then
    if env.dataCheck && u2f.userPresent then 71 else 2
  else if buf.getD 1 0 = U2F_CMD_AUTHENTICATE then
    if !env.dataCheck then 2
    else if !u2f.userPresent && reqP1 buf == U2fEnforce then 3
    else 136
  else 2

section Congruence

variable {buf buf' : List UInt8} {len : ℕ}

theorem getD_eq_of_take_eq (htake : buf'.take len = buf.take len) {i : ℕ} (hi : i < len) :
    buf'.getD i 0 = buf.getD i 0 := by
  have hget : (buf'.take len).getD i 0 = (buf.take len).getD i 0 := by rw [htake]
  simpa [List.getD_eq_getElem?_getD, List.getElem?_take_of_lt hi] using hget

theorem field_eq_of_take_eq (htake : buf'.take len = buf.take len) {offset length : ℕ}
    (hle : offset + length ≤ len) : field buf' offset length = field buf offset length := by
  have hfield : ∀ bytes : List UInt8,
      field bytes offset length = ((bytes.take len).drop offset).take length := by
    intro bytes
    rw [List.drop_take, List.take_take, min_eq_left (by omega)]
    rfl
  rw [hfield, hfield, htake]

theorem register_eq_of_take_eq (htake : buf'.take len = buf.take len) {env : MsgEnv}
    {u2f : U2fData} {file : CounterFile}
    (hlen : env.dataCheck = true → u2f.userPresent = true → 71 ≤ len) :
    register crypto env u2f file buf' = register crypto env u2f file buf := by
  unfold register
  by_cases hcheck : env.dataCheck = true
  · by_cases huser : u2f.userPresent = true
    · have happ : reqAppId buf' = reqAppId buf :=
        field_eq_of_take_eq htake (hlen hcheck huser)
      have hchallenge : reqChallenge buf' = reqChallenge buf :=
        field_eq_of_take_eq htake (by have := hlen hcheck huser; omega)
      rw [happ, hchallenge]
    · simp only [hcheck, huser]
      rfl
  · simp only [hcheck]
    rfl

theorem authenticate_eq_of_take_eq (htake : buf'.take len = buf.take len) {env : MsgEnv}
    {u2f : U2fData} {file : CounterFile} (hp1 : env.dataCheck = true → 3 ≤ len)
    (hlen : env.dataCheck = true → ¬(!u2f.userPresent && reqP1 buf == U2fEnforce) = true →
      136 ≤ len) :
    authenticate crypto env u2f file buf' = authenticate crypto env u2f file buf := by
  unfold authenticate
  by_cases hcheck : env.dataCheck = true
  · have hp1' : reqP1 buf' = reqP1 buf := getD_eq_of_take_eq htake (hp1 hcheck)
    rw [hp1']
    by_cases huser : (!u2f.userPresent && reqP1 buf == U2fEnforce) = true
    · simp only [hcheck, huser]
      rfl
    · have hle := hlen hcheck huser
      have happ : reqAppId buf' = reqAppId buf := field_eq_of_take_eq htake (by omega)
      have hchallenge : reqChallenge buf' = reqChallenge buf :=
        field_eq_of_take_eq htake (by omega)
      have hhash : reqHandleHash buf' = reqHandleHash buf := field_eq_of_take_eq htake (by omega)
      have hnonce : reqHandleNonce buf' = reqHandleNonce buf := field_eq_of_take_eq htake (by omega)
      rw [happ, hchallenge, hhash, hnonce]
  · simp only [hcheck]
    rfl

theorem msgParse_eq_of_take_eq (htake : buf'.take len = buf.take len) {env : MsgEnv}
    {u2f : U2fData} {file : CounterFile} (hreach : reach env u2f buf len ≤ len) :
    msgParse crypto env u2f file buf' len = msgParse crypto env u2f file buf len := by
  unfold msgParse
  unfold reach at hreach
  by_cases hready : u2f.ready = true
  swap
  · simp only [hready]
    rfl
  have hfirst : 0 < len := by
    simp only [hready, Bool.not_true, Bool.false_eq_true, if_false] at hreach
    split_ifs at hreach <;> omega
  rw [getD_eq_of_take_eq htake hfirst]
  by_cases hshort : buf.getD 0 0 ≠ 0x00 ∧ len < 5
  · simp only [hready, if_pos hshort]
  simp only [hready, Bool.not_true, Bool.false_eq_true, if_false, if_neg hshort] at hreach ⊢
  have hsecond : 1 < len := by
    split_ifs at hreach <;> omega
  rw [getD_eq_of_take_eq htake hsecond]
  split_ifs with hregister hauthenticate
  · rw [if_pos hregister] at hreach
    refine register_eq_of_take_eq crypto htake fun hcheck huser => ?_
    simpa [hcheck, huser] using hreach
  · rw [if_neg hregister, if_pos hauthenticate] at hreach
    refine authenticate_eq_of_take_eq crypto htake (fun hcheck => ?_) fun hcheck huser => ?_
    · simp only [hcheck, Bool.not_true, Bool.false_eq_true, if_false] at hreach
      split_ifs at hreach <;> omega
    · simpa only [hcheck, Bool.not_true, Bool.false_eq_true, if_false, if_neg huser] using hreach
  · rfl
  · rfl

end Congruence

/-- What an answer says about what has been signed for it. -/
inductive Answers (env : MsgEnv) (u2f : U2fData) (buf : List UInt8) : Reply → Prop
  | nothing {reply : Reply} (signed : reply.signed = none)
      (counter : reply.u2f.counter = u2f.counter)
      (ready : reply.u2f.ready = true → u2f.ready = true)
      (user : reply.u2f.userPresent = true → u2f.userPresent = true) : Answers env u2f buf reply
  | registration {reply : Reply} (signed : reply.signed = some (.registration (reqAppId buf)))
      (ready : u2f.ready = true) (user : u2f.userPresent = true)
      (next : reply.u2f = { u2f with userPresent := false }) : Answers env u2f buf reply
  | authentication {reply : Reply} (authentic : Authentic crypto env u2f buf)
      (signed : reply.signed = some (.authentication (reqP1 buf) (reqAppId buf)
        (reqHandleHash buf) (reqHandleNonce buf) (u2f.counter + 1)))
      (next : reply.u2f = { u2f with userPresent := false, counter := u2f.counter + 1 }) :
      Answers env u2f buf reply

section Answers

variable {crypto} {env : MsgEnv} {u2f : U2fData} {buf : List UInt8}

theorem Answers.same {bytes : List UInt8} {file : CounterFile} :
    Answers crypto env u2f buf ⟨bytes, none, u2f, file⟩ := .nothing rfl rfl id id

theorem Answers.spent {bytes : List UInt8} {file : CounterFile} :
    Answers crypto env u2f buf ⟨bytes, none, { u2f with userPresent := false }, file⟩ :=
  .nothing rfl rfl id nofun

theorem Answers.lost {bytes : List UInt8} {file : CounterFile} :
    Answers crypto env u2f buf ⟨bytes, none, { u2f with ready := false }, file⟩ :=
  .nothing rfl rfl nofun id

theorem Answers.register (file : CounterFile) (hready : u2f.ready = true) :
    Answers crypto env u2f buf (register crypto env u2f file buf) := by
  unfold U2f.register
  split_ifs with hcheck huser
  · exact .lost
  · exact .same
  · exact .registration rfl hready (by simpa using huser) rfl

theorem Answers.authenticate (file : CounterFile) (hready : u2f.ready = true)
    (hcommand : buf.getD 1 0 = U2F_CMD_AUTHENTICATE) :
    Answers crypto env u2f buf (authenticate crypto env u2f file buf) := by
  unfold U2f.authenticate
  simp only
  by_cases hcheck : env.dataCheck = true
  swap
  · simp only [hcheck]
    exact .lost
  simp only [hcheck, Bool.not_true, Bool.false_eq_true, if_false]
  by_cases huser : (!u2f.userPresent && reqP1 buf == U2fEnforce) = true
  · rw [if_pos huser]
    exact .same
  rw [if_neg huser]
  generalize (if u2f.userPresent = true then (1 : UInt8) else 0) = flags
  split_ifs with howns honly
  · exact .spent
  · exact .spent
  · refine .authentication ⟨hready, hcommand, hcheck, ?_, ?_, honly⟩ rfl rfl
    · simpa [imp_iff_not_or, or_comm] using huser
    · exact not_not.mp howns

theorem answers (file : CounterFile) (len : ℕ) :
    Answers crypto env u2f buf (msgParse crypto env u2f file buf len) := by
  unfold msgParse
  split_ifs with hready hshort hregister hauthenticate
  · exact .same
  · exact .same
  · exact .register file (by simpa using hready)
  · exact .authenticate file (by simpa using hready) hauthenticate
  · exact .same
  · exact .same

end Answers

end U2f

/-- The token with its counter file, whether the user has confirmed since the last signature that
used a confirmation up, and the counter of the last authentication that has been signed. -/
structure U2fSession where
  u2f : U2fData
  file : U2f.CounterFile
  confirmed : Bool
  last : Option UInt32

namespace U2fSession

open U2f

inductive Event
  | confirm
  | setState
  | restart (env : InitEnv)
  | message (env : MsgEnv) (buf : List UInt8) (len : ℕ)

def start (file : CounterFile) : U2fSession := ⟨alloc, file, false, none⟩

variable (crypto : U2fCrypto)

/-- The session after an answer. -/
def after (session : U2fSession) (reply : Reply) : U2fSession where
  u2f := reply.u2f
  file := reply.file
  confirmed := session.confirmed && !reply.signed.any Signature.consumes
  last := (reply.signed.bind Signature.counter).or session.last

def step (session : U2fSession) : Event → Except String U2fSession
  | .confirm => .ok { session with u2f := confirmUserPresent session.u2f, confirmed := true }
  | .setState => .ok { session with u2f := U2f.setState session.u2f }
  | .restart env =>
    let (u2f, file) := init env session.file alloc
    .ok { session with u2f, file }
  | .message env buf len =>
    .ok (session.after (msgParse crypto env session.u2f session.file buf len))

/-- What the token owes to who sends a message. -/
structure LawfulReply (session : U2fSession) (env : MsgEnv) (buf : List UInt8) (len : ℕ) :
    Prop where
  confirmed : ∀ signature, (msgParse crypto env session.u2f session.file buf len).signed =
    some signature → signature.consumes = true → session.confirmed = true ∧
    (session.after (msgParse crypto env session.u2f session.file buf len)).u2f.userPresent = false
  owns : ∀ p1 appId handle nonce counter,
    (msgParse crypto env session.u2f session.file buf len).signed =
      some (.authentication p1 appId handle nonce counter) →
    Owns crypto session.u2f appId handle nonce
  counter : ∀ signature counter, (msgParse crypto env session.u2f session.file buf len).signed =
    some signature → signature.counter = some counter → ∀ last, session.last = some last →
    last < counter
  within : ∀ buf' : List UInt8, buf'.take len = buf.take len →
    msgParse crypto env session.u2f session.file buf' len =
      msgParse crypto env session.u2f session.file buf len

def Lawful (session : U2fSession) : Event → Prop
  | .message env buf len => LawfulReply crypto session env buf len
  | _ => True

/-- A message is as long as what is read of it, the counter does not wrap around in a signature, and
a restart reads a counter that the last signature has not passed. -/
def Sound (session : U2fSession) : Event → Prop
  | .message env buf len => reach env session.u2f buf len ≤ len ∧
    (Authentic crypto env session.u2f buf → session.u2f.counter ≠ 0xFFFFFFFF)
  | .restart env => ∀ last, session.last = some last → env.readable = true ∧
    ∃ counter, session.file = .current counter ∧ last ≤ counter
  | _ => True

/-- The user who is there has confirmed, and the counter is not behind. -/
structure Invariant (session : U2fSession) : Prop where
  user : session.u2f.userPresent = true → session.confirmed = true
  counter : session.u2f.ready = true → ∀ last, session.last = some last →
    last ≤ session.u2f.counter

theorem Invariant.start (file : CounterFile) : Invariant (start file) := ⟨nofun, nofun⟩

theorem lt_add_one_of_ne_max {counter : UInt32} (hmax : counter ≠ 0xFFFFFFFF) :
    counter < counter + 1 := by
  rw [UInt32.lt_iff_toNat_lt, UInt32.toNat_add]
  have hlt := counter.toNat_lt
  have hne : counter.toNat ≠ 4294967295 := fun h => hmax (UInt32.toNat_inj.mp h)
  simp only [UInt32.reduceToNat]
  omega

section Step

variable {crypto} {session : U2fSession}

theorem LawfulReply.of_sound {env : MsgEnv} {buf : List UInt8} {len : ℕ}
    (hinv : Invariant session) (hsound : Sound crypto session (.message env buf len)) :
    LawfulReply crypto session env buf len := by
  obtain ⟨hreach, hmax⟩ := hsound
  have hanswers := @answers crypto env session.u2f buf session.file len
  refine ⟨?_, ?_, ?_, fun buf' htake => msgParse_eq_of_take_eq crypto htake hreach⟩
  · intro signature hsigned hconsumes
    rcases hanswers with ⟨hnone⟩ | ⟨-, -, huser, hnext⟩ | ⟨hauthentic, hsome, hnext⟩
    · cases hnone.symm.trans hsigned
    · exact ⟨hinv.user huser, congrArg U2fData.userPresent hnext⟩
    · cases hsome.symm.trans hsigned
      refine ⟨hinv.user (hauthentic.user.resolve_right ?_), congrArg U2fData.userPresent hnext⟩
      simpa [Signature.consumes] using hconsumes
  · intro p1 appId handle nonce counter hsigned
    rcases hanswers with ⟨hnone⟩ | ⟨hsome⟩ | ⟨hauthentic, hsome⟩
    · cases hnone.symm.trans hsigned
    · cases hsome.symm.trans hsigned
    · cases hsome.symm.trans hsigned
      exact hauthentic.owns
  · intro signature counter hsigned hcounter last hlast
    rcases hanswers with ⟨hnone⟩ | ⟨hsome⟩ | ⟨hauthentic, hsome⟩
    · cases hnone.symm.trans hsigned
    · cases hsome.symm.trans hsigned
      cases hcounter
    · cases hsome.symm.trans hsigned
      cases hcounter
      exact UInt32.lt_of_le_of_lt (hinv.counter hauthentic.ready last hlast)
        (lt_add_one_of_ne_max (hmax hauthentic))

theorem Invariant.after {env : MsgEnv} {buf : List UInt8} {reply : Reply}
    (hinv : Invariant session) (hanswers : Answers crypto env session.u2f buf reply) :
    Invariant (session.after reply) := by
  rcases hanswers with ⟨hsigned, hcounter, hready, huser⟩ | ⟨hsigned, hready, -, hnext⟩ |
    ⟨-, hsigned, hnext⟩
  · refine ⟨fun h => ?_, fun h last hlast => ?_⟩
    · simpa [U2fSession.after, hsigned] using hinv.user (huser h)
    · simp only [U2fSession.after, hsigned, Option.bind_none, Option.none_or] at hlast
      exact (hinv.counter (hready h) last hlast).trans_eq hcounter.symm
  · refine ⟨fun h => ?_, fun h last hlast => ?_⟩
    · simp [U2fSession.after, hnext] at h
    · simp only [U2fSession.after, hsigned, Option.bind_some, Signature.counter,
        Option.none_or] at hlast
      simpa only [U2fSession.after, hnext] using hinv.counter hready last hlast
  · refine ⟨fun h => ?_, fun h last hlast => ?_⟩
    · simp [U2fSession.after, hnext] at h
    · simp only [U2fSession.after, hsigned, Option.bind_some, Signature.counter,
        Option.some_or, Option.some.injEq] at hlast
      simp [U2fSession.after, hnext, ← hlast]

theorem userPresent_init (env : InitEnv) (file : CounterFile) (u2f : U2fData) :
    (init env file u2f).1.userPresent = u2f.userPresent := by
  unfold init
  split_ifs
  · rfl
  cases env.certKey with
  | none => rfl
  | some certKey =>
    cases env.deviceKey with
    | none => rfl
    | some deviceKey =>
      simp only
      split
      · rfl
      · split_ifs <;> rfl

theorem counter_init {env : InitEnv} {counter : UInt32} (u2f : U2fData)
    (hreadable : env.readable = true) (hready : (init env (.current counter) u2f).1.ready = true)
    (hstart : u2f.ready = false) : (init env (.current counter) u2f).1.counter = counter := by
  unfold init at hready ⊢
  split_ifs at hready ⊢
  · cases hstart.symm.trans hready
  cases hkey : env.certKey with
  | none =>
    rw [hkey] at hready
    cases hstart.symm.trans hready
  | some certKey =>
    cases hdevice : env.deviceKey with
    | none =>
      rw [hkey, hdevice] at hready
      cases hstart.symm.trans hready
    | some deviceKey => simp [hreadable, dataCntRead]

theorem Invariant.step {event : Event} (hinv : Invariant session)
    (hsound : Sound crypto session event) {session' : U2fSession}
    (hstep : step crypto session event = .ok session') : Invariant session' := by
  cases event with
  | confirm =>
    cases hstep
    exact ⟨fun _ => rfl, hinv.counter⟩
  | setState =>
    cases hstep
    exact ⟨nofun, hinv.counter⟩
  | restart env =>
    cases hstep
    refine ⟨fun huser => ?_, fun hready last hlast => ?_⟩
    · exact absurd ((userPresent_init env session.file alloc).symm.trans huser) nofun
    · obtain ⟨hreadable, counter, hfile, hle⟩ := hsound last hlast
      have hinit : (init env session.file alloc).1.ready = true := hready
      rw [hfile] at hinit
      have hcounter : (init env session.file alloc).1.counter = counter := by
        rw [hfile]
        exact counter_init alloc hreadable hinit rfl
      exact hle.trans_eq hcounter.symm
  | message env buf len =>
    cases hstep
    exact hinv.after (answers session.file len)

end Step

/-- The token keeps to what it owes in a session that is sound: a registration or an enforced
authentication has the confirmation of a user and uses it up, an authentication is signed for a key
handle of the token, with a counter that grows from one signature to the next, and what is answered
to a message is in the message. -/
theorem token_lawful (file : CounterFile) (events : List Event)
    (hsound : ExecAlong (Sound crypto) (step crypto) (start file) events) :
    ExecAlong (Lawful crypto) (step crypto) (start file) events := by
  have hinv := Invariant.start file
  generalize start file = session at hsound hinv
  induction events generalizing session with
  | nil => trivial
  | cons event events ih =>
    refine ⟨?_, fun session' hstep => ih _ (hsound.2 session' hstep) (hinv.step hsound.1 hstep)⟩
    cases event with
    | message env buf len => exact .of_sound hinv hsound.1
    | confirm => trivial
    | setState => trivial
    | restart env => trivial

/-- Functions that are the same everywhere. -/
def zeroCrypto : U2fCrypto := ⟨fun _ _ => Vector.replicate 32 0, fun _ => Vector.replicate 32 0,
  fun _ => Vector.replicate 65 0, fun _ _ _ => (Vector.replicate 32 1, Vector.replicate 32 1)⟩

/-- A start with everything there. -/
def startEnv : InitEnv :=
  ⟨true, some (Vector.replicate 32 0), some (Vector.replicate 32 0), true, .done, .done⟩

def authenticateRequest : List UInt8 :=
  [0, U2F_CMD_AUTHENTICATE, 8] ++ List.replicate 133 0

def messageEnv (store : Store) : MsgEnv := ⟨true, [], Vector.replicate 32 0, 0, store⟩

set_option maxRecDepth 20000 in
/-- An authentication that does not ask for the user. -/
theorem token_lawful_authenticate : ExecAlong (Lawful zeroCrypto) (step zeroCrypto)
    (start (.current 5))
    [.restart startEnv, .message (messageEnv .done) authenticateRequest 136] := by
  refine token_lawful zeroCrypto _ _ ⟨nofun, fun session hsession => ?_⟩
  cases hsession
  refine ⟨⟨by decide, fun _ => by decide⟩, fun _ _ => trivial⟩

set_option maxRecDepth 20000 in
/-- A counter that could not be stored is given out again after a restart. -/
theorem not_token_lawful_restart : ¬∀ (crypto : U2fCrypto) (file : CounterFile)
    (events : List Event), ExecAlong (Lawful crypto) (step crypto) (start file) events := by
  intro h
  have hrun := h zeroCrypto (.current 5)
    [.restart startEnv, .message (messageEnv .untouched) authenticateRequest 136,
      .restart startEnv, .message (messageEnv .untouched) authenticateRequest 136]
  have hlast := (((hrun.2 _ rfl).2 _ rfl).2 _ rfl).1
  exact absurd (hlast.counter (.authentication 8 (List.replicate 32 0) (List.replicate 32 0)
    (List.replicate 32 0) 6) 6 (by decide) rfl 6 (by decide)) (by decide)

end U2fSession

end KiisuFirmware
