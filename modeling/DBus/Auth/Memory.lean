/-
  Authentication under memory pressure.

  Every function here is regular: unless an allocation fails it does what it does with
  plenty of memory.  `Redoes` is what an attempt has to leave behind for the next one to do
  what it would have done; credentials may be left half added, for to add them twice is to
  add them once.
-/
import DBus.Auth.Run

namespace DBus

open Alloc

/-! ## Everything is regular -/

section
variable (env : AuthEnv) (auth : DBusAuth) (data : List UInt8) {x : AuthStep}
  {k : DBusAuth → AuthStep}

theorem sendRejected_regular : Regular (sendRejected auth) :=
  regular_pure.withMemory (.lift_bind fun _ => regular_pure)

theorem sendError_regular (message : String) : Regular (sendError auth message) :=
  regular_pure.withMemory regular_pure

theorem sendPieces_regular (n : ℕ) (pieces : List (List UInt8)) :
    Regular (sendPieces n pieces auth) := by
  induction pieces generalizing auth with
  | nil => exact regular_pure
  | cons piece pieces ih => exact regular_pure.withMemory (ih _)

theorem sendData_regular : Regular (sendData auth data) :=
  .ite (regular_pure.withMemory regular_pure) (sendPieces_regular ..)

theorem sendCancel_regular : Regular (sendCancel auth) := regular_pure.withMemory regular_pure

theorem sendBegin_regular : Regular (sendBegin auth data) :=
  .lift_bind fun _ => regular_pure.withMemory
    (.ite regular_pure (regular_pure.withMemory (regular_pure.withMemory regular_pure)))

theorem AuthStep.andThen_regular (hx : Regular x) (hk : ∀ auth, Regular (k auth)) :
    Regular (x.andThen k) :=
  Regular.bind hx fun _ => .ite (hk _) regular_pure

theorem sendOk_regular : Regular (sendOk auth) :=
  AuthStep.andThen_regular (sendPieces_regular ..) fun _ => regular_pure

theorem takeIdentity_regular (hk : ∀ auth, Regular (k auth)) : Regular (takeIdentity auth data k) :=
  .ite (hk _) (.ite (sendRejected_regular _) (regular_pure.withMemory (hk _)))

theorem addCredential_regular (c other : DBusCredentials) (which : DBusCredentialType) :
    Regular (c.addCredential which other) := by
  cases which with
  | unixProcessId | unixUserId => exact regular_pure
  | adtAuditDataId | windowsSid =>
    rw [DBusCredentials.addCredential]
    split
    · exact regular_pure
    · exact regular_pure.withMemory regular_pure

theorem addAll_regular : ∀ (l : List (DBusCredentialType × DBusCredentials)) (c : DBusCredentials),
    Regular (DBusCredentials.addAll l c)
  | [], _ => regular_pure
  | (which, other) :: rest, c => (addCredential_regular c other which).bind fun _ =>
    .ite (addAll_regular rest _) regular_pure

theorem authorize_regular (l : List (DBusCredentialType × DBusCredentials)) :
    Regular (authorize auth l) :=
  (addAll_regular _ _).bind fun _ => .ite (sendOk_regular _) regular_pure

theorem addFromUser_regular (c : DBusCredentials) : Regular (env.addFromUser c data) := by
  refine regular_pure.withMemory ?_
  split <;> exact regular_pure

theorem keyringNewForCredentials_regular (c : Option DBusCredentials) :
    Regular (env.keyringNewForCredentials c data) := by
  refine regular_pure.withMemory ?_
  split
  · exact regular_pure
  · exact regular_pure.withMemory regular_pure

theorem keyringGetBestKey_regular (keyring : DBusKeyring) :
    Regular (env.keyringGetBestKey keyring) := regular_pure.withMemory regular_pure

theorem externalAuthorize_regular : Regular (externalAuthorize auth) :=
  .ite (sendRejected_regular _) (.ite (authorize_regular _ _) (sendRejected_regular _))

theorem externalDesired_regular : Regular (externalDesired env auth) :=
  .ite ((addAll_regular _ _).bind fun _ => .ite (externalAuthorize_regular _) regular_pure)
    ((addFromUser_regular _ _ _).bind fun _ =>
      .ite (externalAuthorize_regular _) (sendRejected_regular _))

theorem handleServerDataExternalMech_regular : Regular (handleServerDataExternalMech env auth data) :=
  .ite (sendRejected_regular _) (takeIdentity_regular _ _ fun _ =>
    .ite (AuthStep.andThen_regular (sendData_regular _ _) fun _ => regular_pure)
      (externalDesired_regular _ _))

theorem sha1ComputeHash_regular (id : ℤ) (challenge : List UInt8) :
    Regular (sha1ComputeHash env auth id challenge data) :=
  .lift_bind fun _ => regular_pure.withMemory
    (.ite regular_pure (regular_pure.withMemory regular_pure))

theorem sha1SendChallenge_regular (keyring : DBusKeyring) :
    Regular (sha1SendChallenge env auth keyring) :=
  (keyringGetBestKey_regular _ _).bind fun _ => .ite (sendRejected_regular _)
    (regular_pure.withMemory
      (AuthStep.andThen_regular (sendData_regular _ _) fun _ => regular_pure))

theorem sha1FirstRest_regular : Regular (sha1FirstRest env data auth) := by
  refine (addFromUser_regular _ _ _).bind fun _ => .ite (sendRejected_regular _)
    (regular_pure.withMemory ?_)
  dsimp only
  split
  · exact sha1SendChallenge_regular _ _ _
  · refine (keyringNewForCredentials_regular _ _ _).bind fun r => ?_
    match r with
    | .ok keyring => exact sha1SendChallenge_regular _ _ _
    | .error true => exact regular_pure
    | .error false => exact sendRejected_regular _

theorem sha1CheckHash_regular (clientHash : List UInt8) :
    Regular (sha1CheckHash env auth data clientHash) := by
  refine (sha1ComputeHash_regular _ _ _ _ _).bind fun r => ?_
  cases r with
  | none => exact regular_pure
  | some correctHash =>
    exact .ite (sendRejected_regular _) (.ite (sendRejected_regular _) (authorize_regular _ _))

theorem sha1HandleSecondClientResponse_regular :
    Regular (sha1HandleSecondClientResponse env auth data) :=
  .lift_bind fun _ => .ite (sendRejected_regular _) (regular_pure.withMemory
    (.lift_bind fun _ => .lift_bind fun _ => .lift_bind fun _ =>
      .ite (sendRejected_regular _) (sha1CheckHash_regular _ _ _ _)))

theorem handleServerDataAnonymousMech_regular : Regular (handleServerDataAnonymousMech auth data) :=
  .lift_bind fun _ => .ite (regular_lift.withMemory (sendRejected_regular _))
    (authorize_regular _ _)

theorem serverDataFunc_regular (m : Mechanism) : Regular (m.serverDataFunc env auth data) := by
  cases m with
  | external => exact handleServerDataExternalMech_regular _ _ _
  | cookieSha1 =>
    exact .ite (takeIdentity_regular _ _ fun _ => sha1FirstRest_regular _ _ _)
      (sha1HandleSecondClientResponse_regular _ _ _)
  | anonymous => exact handleServerDataAnonymousMech_regular _ _

theorem sendAuth_regular (m : Mechanism) : Regular (sendAuth env auth m) :=
  regular_pure.withMemory regular_pure

theorem cookieAnswer_regular (val : ℤ) : Regular (cookieAnswer env auth val data) := by
  refine regular_pure.withMemory ((sha1ComputeHash_regular _ _ _ _ _).bind fun r => ?_)
  cases r with
  | none => exact regular_pure
  | some hash => exact .ite (sendError_regular _ _) (regular_pure.withMemory (sendData_regular _ _))

theorem cookieCheck_regular (context cookieIdStr : List UInt8) :
    Regular (cookieCheck env auth context cookieIdStr data) := by
  refine .ite (sendError_regular _ _) ?_
  split
  · exact sendError_regular _ _
  · refine .ite (sendError_regular _ _) ?_
    split
    · exact cookieAnswer_regular _ _ _ _
    · refine (keyringNewForCredentials_regular _ _ _).bind fun r => ?_
      match r with
      | .ok keyring => exact cookieAnswer_regular _ _ _ _
      | .error true => exact regular_pure
      | .error false => exact sendError_regular _ _

theorem handleClientDataCookieSha1Mech_regular :
    Regular (handleClientDataCookieSha1Mech env auth data) :=
  .lift_bind fun _ => .ite (sendError_regular _ _) (regular_pure.withMemory
    (.lift_bind fun _ => .lift_bind fun _ => .lift_bind fun _ =>
      .ite (sendError_regular _ _) (regular_pure.withMemory
        (.lift_bind fun _ => .lift_bind fun _ => .lift_bind fun _ =>
          cookieCheck_regular _ _ _ _ _))))

theorem clientDataFunc_regular (m : Mechanism) : Regular (m.clientDataFunc env auth data) := by
  cases m with
  | external => exact regular_pure
  | cookieSha1 => exact handleClientDataCookieSha1Mech_regular _ _ _
  | anonymous => exact regular_pure

theorem processData_regular {dataFunc : DBusAuth → List UInt8 → AuthStep}
    (h : ∀ auth data, Regular (dataFunc auth data)) : Regular (processData auth data dataFunc) :=
  regular_pure.withMemory (.ite (sendError_regular _ _) (h _ _))

theorem orForgetMech_regular (h : Regular x) : Regular (orForgetMech x) :=
  Regular.bind h fun _ => .ite regular_pure regular_pure

theorem handleAuth_regular : Regular (handleAuth env auth data) := by
  refine .ite (sendRejected_regular _) (.lift_bind fun _ =>
    regular_pure.withMemory (regular_pure.withMemory (.lift_bind fun _ =>
      .lift_bind fun _ => .lift_bind fun _ => ?_)))
  dsimp only
  split
  · exact orForgetMech_regular (processData_regular _ _ fun _ _ => serverDataFunc_regular _ _ _ _)
  · exact orForgetMech_regular (sendRejected_regular _)

theorem recordLoop_regular (allowedMechs : Option (List (List UInt8))) :
    ∀ (fuel next : ℕ) (mechs : List Mechanism), Regular (recordLoop allowedMechs data fuel next mechs)
  | 0, _, _ => regular_lift
  | fuel + 1, next, mechs => by
    refine .ite regular_pure (regular_pure.withMemory (.lift_bind fun r => ?_))
    dsimp only
    split
    · exact recordLoop_regular allowedMechs fuel _ _
    · exact .ite (recordLoop_regular allowedMechs fuel _ _)
        (regular_pure.withMemory (recordLoop_regular allowedMechs fuel _ _))

theorem recordMechanisms_regular : Regular (recordMechanisms auth data) :=
  .ite regular_pure ((recordLoop_regular _ _ _ _ _).bind fun _ => .ite regular_pure regular_pure)

theorem processRejected_regular : Regular (processRejected env auth data) := by
  refine AuthStep.andThen_regular (recordMechanisms_regular _ _) fun auth => ?_
  split
  · exact AuthStep.andThen_regular (sendAuth_regular _ _ _) fun _ => regular_pure
  · exact regular_pure

theorem handler_regular (state : AuthStateData) (command : AuthCommand) :
    Regular (state.handler env auth command data) := by
  cases state with
  | serverWaitingForAuth =>
    cases command with
    | auth => exact handleAuth_regular _ _ _
    | begin => exact regular_pure
    | error => exact sendRejected_regular _
    | _ => exact sendError_regular _ _
  | serverWaitingForData =>
    cases command with
    | data => exact .lift_bind fun _ =>
        processData_regular _ _ fun _ _ => serverDataFunc_regular _ _ _ _
    | begin => exact regular_pure
    | cancel | error => exact sendRejected_regular _
    | _ => exact sendError_regular _ _
  | serverWaitingForBegin =>
    cases command with
    | begin => exact regular_pure
    | cancel | error => exact sendRejected_regular _
    | _ => exact sendError_regular _ _
  | clientWaitingForData =>
    refine .lift_bind fun _ => ?_
    cases command with
    | data => exact processData_regular _ _ fun _ _ => clientDataFunc_regular _ _ _ _
    | rejected => exact processRejected_regular _ _ _
    | ok => exact sendBegin_regular _ _
    | error => exact sendCancel_regular _
    | _ => exact sendError_regular _ _
  | clientWaitingForOk =>
    cases command with
    | rejected => exact processRejected_regular _ _ _
    | ok => exact sendBegin_regular _ _
    | data | error => exact sendCancel_regular _
    | _ => exact sendError_regular _ _
  | clientWaitingForReject =>
    cases command with
    | rejected => exact processRejected_regular _ _ _
    | _ => exact regular_pure
  | _ => exact regular_lift

theorem processLine_regular : Regular (processLine env auth data) :=
  .ite (sendError_regular _ _) (.lift_bind fun _ => .lift_bind fun _ =>
    regular_pure.withMemory (handler_regular _ _ _ _ _))

theorem processCommand_regular : Regular (processCommand env auth) := by
  rw [processCommand]
  split
  · exact regular_pure
  · exact regular_pure.withMemory ((processLine_regular _ _ _).bind fun _ =>
      .ite regular_pure regular_pure)

end

/-! ## What an attempt leaves -/

/-- Before the client knows the mechanisms of the server, it has none to try. -/
def MechsTidy (auth : DBusAuth) : Prop := auth.alreadyGotMechanisms = false → auth.mechsToTry = []

/-- What the next attempt has to find as it was: its buffers and its place in the conversation. -/
structure Shell (auth auth' : DBusAuth) : Prop where
  side : auth'.side = auth.side
  state : auth'.state = auth.state
  incoming : auth'.incoming = auth.incoming
  outgoing : auth'.outgoing = auth.outgoing
  neededMemory : auth'.neededMemory = auth.neededMemory
  allowedMechs : auth'.allowedMechs = auth.allowedMechs
  mechs : MechsTidy auth → MechsTidy auth'

theorem shell_refl (auth : DBusAuth) : Shell auth auth := ⟨rfl, rfl, rfl, rfl, rfl, rfl, fun h => h⟩

/-- From `auth'` on, `h` does with plenty of memory what it does from `auth` on. -/
structure Redoes (h : DBusAuth → AuthStep) (auth auth' : DBusAuth) : Prop where
  again : h auth' .plenty = h auth .plenty
  shell : Shell auth auth'
  mech : auth'.mech = auth.mech

theorem redoes_refl (h : DBusAuth → AuthStep) (auth : DBusAuth) : Redoes h auth auth :=
  ⟨rfl, shell_refl auth, rfl⟩

/-! ### Credentials that are added twice -/

namespace DBusCredentials

variable {α : Type}

theorem orElse_idem (x y : Option α) : (x <|> x <|> y) = (x <|> y) := by cases x <;> rfl

theorem orElse_absorb (x y z : Option α) : (x <|> y <|> x <|> z) = (x <|> y <|> z) := by
  cases x <;> cases y <;> rfl

theorem adding_idem (c o : DBusCredentials) (w : DBusCredentialType) :
    (c.adding o w).adding o w = c.adding o w := by
  cases w <;> simp only [adding, orElse_idem]

theorem adding_absorb (c o o' : DBusCredentials) (w w' : DBusCredentialType) :
    ((c.adding o w).adding o' w').adding o w = (c.adding o' w').adding o w := by
  cases w <;> cases w' <;> simp only [adding, orElse_idem, orElse_absorb]

theorem addingAll_absorb {o : DBusCredentials} {w : DBusCredentialType} :
    ∀ {ops : List (DBusCredentialType × DBusCredentials)}, (w, o) ∈ ops → ∀ c : DBusCredentials,
      (c.adding o w).addingAll ops = c.addingAll ops
  | (w', o') :: ops, h, c => by
    rcases List.mem_cons.1 h with heq | hm
    · obtain ⟨rfl, rfl⟩ : w = w' ∧ o = o' := by simpa using heq
      exact congrArg (addingAll · ops) (adding_idem c o w)
    · calc ((c.adding o w).addingAll ((w', o') :: ops))
          = ((c.adding o w).adding o' w').addingAll ops := rfl
        _ = (((c.adding o w).adding o' w').adding o w).addingAll ops := (addingAll_absorb hm _).symm
        _ = ((c.adding o' w').adding o w).addingAll ops := by rw [adding_absorb]
        _ = c.addingAll ((w', o') :: ops) := addingAll_absorb hm _

theorem addingAll_sublist {ops : List (DBusCredentialType × DBusCredentials)} :
    ∀ {part : List (DBusCredentialType × DBusCredentials)}, part ⊆ ops → ∀ c : DBusCredentials,
      (c.addingAll part).addingAll ops = c.addingAll ops
  | [], _, _ => rfl
  | (w, o) :: _, h, c => (addingAll_sublist (List.subset_of_cons_subset h) (c.adding o w)).trans
      (addingAll_absorb (h List.mem_cons_self) c)

theorem addUser_idem (c : DBusCredentials) (u : UserId) : (c.addUser u).addUser u = c.addUser u := by
  cases u <;> rfl

end DBusCredentials

end DBus
