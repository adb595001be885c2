/-
  Which allocations of a command may fail.

  Most functions notice a failure and leave nothing that would change the next attempt.
  Some store what they have before they have all their memory, or take a user, a key or a
  keyring that cannot be looked up for one that is not there.  `commandMayFail` says which
  allocations of a command are of the first kind.
-/
import DBus.Auth.Memory

namespace DBus

open Outcome Alloc DBusCredentials

/-! ## Which allocations may fail -/

/-- In EXTERNAL: none behind the one for the identity; nor that for a look at the user. -/
def externalMayFail (auth : DBusAuth) (data : List UInt8) : ℕ → Prop :=
  if data ≠ [] then if auth.identity ≠ [] then Always else Next Never
  else if auth.identity = [] then Always else Skip Always

/-- In DBUS_COOKIE_SHA1: all for the second response.  For the first, none behind that for the
    identity; without one, neither that for a look at the user, nor any behind the choice
    of a keyring. -/
def cookieMayFail (env : AuthEnv) (auth : DBusAuth) (data : List UInt8) : ℕ → Prop :=
  if auth.cookieId < 0 then
    if data ≠ [] then if auth.identity ≠ [] then Always else Next Never
    else match env.userOf [] with
    | none => Skip Always
    | some u => Skip (Next
        (if cachedKeyring { auth with desiredIdentity := auth.desiredIdentity.addUser u } = none
          then Next Never else Never))
  else Always

/-- In ANONYMOUS: not that for the message about data that is not UTF-8. -/
def anonymousMayFail (data : List UInt8) : ℕ → Prop :=
  if stringValidateUtf8 (.ofBytes data) 0 data.length = .ok false then Skip Always else Always

section
variable (env : AuthEnv) (auth : DBusAuth)

def Mechanism.serverMayFail (data : List UInt8) : Mechanism → ℕ → Prop
  | .external => externalMayFail auth data
  | .cookieSha1 => cookieMayFail env auth data
  | .anonymous => anonymousMayFail data

/-- Where the client checks the challenge: not that for the keys of a keyring. -/
def checkMayFail (context : List UInt8) : ℕ → Prop :=
  if auth.keyring = none ∧ env.keyringFor none context ≠ none then Next (Skip Always) else Always

def Mechanism.clientMayFail (data : List UInt8) : Mechanism → ℕ → Prop
  | .cookieSha1 => Next (Next (checkMayFail env auth (data.take (firstBlank data 0))))
  | _ => Always

end

/-- In `process_data`. -/
def dataMayFail (mayFail : List UInt8 → ℕ → Prop) (args : List UInt8) : ℕ → Prop :=
  if args.length ≠ (hexDecode args).2 then Always else Next (mayFail (hexDecode args).1)

section
variable (env : AuthEnv) (auth : DBusAuth)

/-- In `handle_auth`. -/
def authMayFail (args : List UInt8) : ℕ → Prop :=
  Next (Next (match findMech (args.take (firstBlank args 0)) auth.allowedMechs with
    | some m => dataMayFail (fun data => m.serverMayFail env auth data)
        (args.drop (behindBlanks args (firstBlank args 0)))
    | none => Always))

def handlerMayFail (command : AuthCommand) (args : List UInt8) : ℕ → Prop :=
  match auth.state, command with
  | .serverWaitingForAuth, .auth => if args = [] then Always else authMayFail env auth args
  | .serverWaitingForData, .data =>
    match auth.mech with
    | some m => dataMayFail (fun data => m.serverMayFail env auth data) args
    | none => Always
  | .clientWaitingForData, .data =>
    match auth.mech with
    | some m => dataMayFail (fun data => m.clientMayFail env auth data) args
    | none => Always
  | _, _ => Always

/-- In `process_command`, of the line that has arrived: the copy of the line and of the
    command, and what the handler allocates. -/
def commandMayFail : ℕ → Prop :=
  Next (if validateAscii auth.firstLine = false then Always
    else Next (handlerMayFail env auth (commandOf auth.firstLine) (argsOf auth.firstLine)))

end

/-! ## The mechanisms of the server -/

/-- Return `FALSE`, with a conversation of which `P` holds. -/
def Quits (P : DBusAuth → Prop) (r : Bool × DBusAuth) : Prop := r.1 = false ∧ P r.2

section
variable {env : AuthEnv} {auth : DBusAuth} {data : List UInt8} {P : DBusAuth → Prop} {x : AuthStep}
  {h : DBusAuth → AuthStep} {d p : DBusCredentials} {k : Option DBusKeyring} {c : List UInt8}
  {u : UserId} {m : ℕ → Prop} {auth' : DBusAuth} {args : List UInt8}

theorem noMemory_heeds (h : P auth) (hx : Heeds x (Quits P)) :
    Heeds (withMemory (noMemory auth) x) (Quits P) := .withMemory ⟨rfl, h⟩ hx

theorem sendRejected_heeds (h : P auth) : Heeds (sendRejected auth) (Quits P) :=
  noMemory_heeds h (.lift_bind fun _ _ => heeds_pure)

theorem sendError_heeds (message : String) (h : P auth) : Heeds (sendError auth message) (Quits P) :=
  noMemory_heeds h heeds_pure

/-- If an append fails, the conversation is as it was before the first one. -/
theorem sendPieces_heeds (pieces : List (List UInt8)) (h : P auth)
    (hs : ∃ sent, auth' = auth.send sent) :
    Heeds (sendPieces auth.outgoing.length pieces auth') (Quits P) := by
  induction pieces generalizing auth' with
  | nil => exact heeds_pure
  | cons piece pieces ih =>
    obtain ⟨sent, rfl⟩ := hs
    refine noMemory_heeds (by simpa [DBusAuth.send] using h) (ih ⟨sent ++ piece, ?_⟩)
    simp [DBusAuth.send]

theorem DBusAuth.send_nil : auth = auth.send [] := by simp [send]

theorem sendData_heeds (h : P auth) : Heeds (sendData auth data) (Quits P) :=
  .ite (fun _ => noMemory_heeds h heeds_pure) fun _ =>
    sendPieces_heeds _ h ⟨[], auth.send_nil⟩

theorem sendCancel_heeds (h : P auth) : Heeds (sendCancel auth) (Quits P) := noMemory_heeds h heeds_pure

theorem AuthStep.andThen_heeds {k : DBusAuth → AuthStep} (hx : Heeds x (Quits P))
    (hrg : Regular x)
    (hk : ∀ auth, x .plenty = (.ok (true, auth), .plenty) → Heeds (k auth) (Quits P)) :
    Heeds (x.andThen k) (Quits P) := by
  refine .bind hx hrg ?_ ?_
  · rintro ⟨ok, auth⟩ h
    cases ok with
    | true => exact hk auth h
    | false => exact heeds_pure
  · rintro ⟨ok, auth⟩ ⟨rfl : ok = false, h⟩
    exact ⟨(false, auth), rfl, rfl, h⟩

theorem sendOk_heeds (h : P auth) : Heeds (sendOk auth) (Quits P) :=
  AuthStep.andThen_heeds (sendPieces_heeds _ h ⟨[], auth.send_nil⟩) (sendPieces_regular ..)
    fun _ _ => heeds_pure

theorem addCredential_heeds (c other : DBusCredentials) (which : DBusCredentialType) :
    Heeds (c.addCredential which other) (· = (false, c)) := by
  cases which with
  | unixProcessId | unixUserId => exact heeds_pure
  | adtAuditDataId | windowsSid =>
    rw [addCredential]
    split
    · exact heeds_pure
    · exact .withMemory rfl heeds_pure

theorem addAll_heeds : ∀ (l : List (DBusCredentialType × DBusCredentials)) (c : DBusCredentials),
    Heeds (addAll l c) fun r => ∃ part ⊆ l, r = (false, c.addingAll part)
  | [], _ => heeds_pure
  | (which, other) :: rest, c => by
    refine (addCredential_heeds c other which).bind (addCredential_regular ..) (fun r hr => ?_) ?_
    · rw [addCredential_plenty] at hr
      cases hr
      refine (addAll_heeds rest (c.adding other which)).mono ?_
      rintro r ⟨part, hp, rfl⟩
      exact ⟨(which, other) :: part, List.cons_subset_cons _ hp, rfl⟩
    · rintro r rfl
      exact ⟨_, rfl, [], List.nil_subset _, rfl⟩

/-- If one of the allocations fails that may, `h` returns `FALSE` and can be redone. -/
def Recovers (m : ℕ → Prop) (h : DBusAuth → AuthStep) (auth : DBusAuth) : Prop :=
  Survives m (h auth) (Quits (Redoes h auth))

/-- A mechanism that returns `FALSE` leaves these fields changed at most. -/
theorem redoes_with (hh : h { auth with
      desiredIdentity := d, authorizedIdentity := p, keyring := k, challenge := c } .plenty =
    h auth .plenty) : Redoes h auth { auth with
      desiredIdentity := d, authorizedIdentity := p, keyring := k, challenge := c } :=
  ⟨hh, ⟨rfl, rfl, rfl, rfl, rfl, rfl, fun h => h⟩, rfl⟩

theorem authorize_plenty (auth : DBusAuth) (l : List (DBusCredentialType × DBusCredentials)) :
    authorize auth l .plenty = (.ok (true, { auth with
      authorizedIdentity := auth.authorizedIdentity.addingAll l }.accept), .plenty) := by
  obtain ⟨_, h, rfl⟩ := (authorize_lands (e := .assertion) l).returns trivial
  exact h

theorem authorize_heeds (auth : DBusAuth) (d : DBusCredentials)
    {l : List (DBusCredentialType × DBusCredentials)}
    (hst : h auth .plenty = authorize { auth with desiredIdentity := d } l .plenty)
    (hh : ∀ p, h { auth with desiredIdentity := d, authorizedIdentity := p } .plenty =
      authorize { auth with desiredIdentity := d, authorizedIdentity := p } l .plenty) :
    Heeds (authorize { auth with desiredIdentity := d } l) (Quits (Redoes h auth)) := by
  have hp : ∀ part ⊆ l, Redoes h auth { auth with
      desiredIdentity := d, authorizedIdentity := auth.authorizedIdentity.addingAll part } := by
    intro part hsb
    refine redoes_with ?_
    rw [hh, hst, authorize_plenty, authorize_plenty]
    rw [addingAll_sublist hsb]
  refine (addAll_heeds l _).bind (addAll_regular ..) (fun r hr => ?_) ?_
  · rw [addAll_plenty] at hr
    cases hr
    exact sendOk_heeds (hp l (List.Subset.refl l))
  · rintro r ⟨part, hsb, rfl⟩
    exact ⟨_, rfl, rfl, hp part hsb⟩

/-! ### EXTERNAL -/

theorem externalAuthorize_heeds (auth : DBusAuth) (d : DBusCredentials)
    (hst : h auth .plenty = externalAuthorize { auth with desiredIdentity := d } .plenty)
    (hh : ∀ p, h { auth with desiredIdentity := d, authorizedIdentity := p } .plenty =
      externalAuthorize { auth with desiredIdentity := d, authorizedIdentity := p } .plenty) :
    Heeds (externalAuthorize { auth with desiredIdentity := d }) (Quits (Redoes h auth)) := by
  have hsl : Redoes h auth { auth with desiredIdentity := d } :=
    redoes_with ((hh auth.authorizedIdentity).trans hst.symm)
  refine .ite (fun _ => sendRejected_heeds hsl) fun hd =>
    .ite (fun hc => authorize_heeds auth d ?_ fun p => ?_) fun _ => sendRejected_heeds hsl
  · rw [hst, externalAuthorize, if_neg hd, if_pos hc]
  · rw [hh, externalAuthorize, if_neg hd, if_pos hc]

theorem addFromUser_plenty (c : DBusCredentials) {username : List UInt8}
    (h : env.userOf username = some u) :
    env.addFromUser c username .plenty = (.ok (true, c.addUser u), .plenty) := by
  rw [AuthEnv.addFromUser, h]
  rfl

theorem externalDesired_survives
    (hh : ∀ d p, h { auth with desiredIdentity := d, authorizedIdentity := p } .plenty =
      externalDesired env { auth with desiredIdentity := d, authorizedIdentity := p } .plenty) :
    Survives (if auth.identity = [] then Always else Skip Always) (externalDesired env auth)
      (Quits (Redoes h auth)) := by
  have hsl : h auth .plenty = externalDesired env auth .plenty :=
    hh auth.desiredIdentity auth.authorizedIdentity
  have hl : ∀ d, Redoes h auth { auth with desiredIdentity := d } := fun d =>
    redoes_with ((hh d auth.authorizedIdentity).trans hsl.symm)
  refine .ite (fun hi => ?_) fun hi => ?_
  · refine Heeds.survives ((addAll_heeds _ _).bind (addAll_regular ..) (fun r hr => ?_) ?_)
    · rw [addAll_plenty] at hr
      cases hr
      refine externalAuthorize_heeds auth _ ?_ fun p => ?_
      · rw [hsl, externalDesired, if_pos hi]
        exact bind_of_ok (addAll_plenty ..) _
      · rw [hh, externalDesired, if_pos hi]
        exact bind_of_ok (addAll_plenty ..) _
    · rintro r ⟨part, -, rfl⟩
      exact ⟨_, rfl, rfl, hl _⟩
  · rw [if_neg (show ¬ auth.identity = [] from hi), AuthEnv.addFromUser, withMemory_bind]
    refine Survives.skip (Heeds.survives ?_)
    cases hu : env.userOf auth.identity with
    | none => exact sendRejected_heeds (hl _)
    | some u =>
      refine externalAuthorize_heeds auth _ ?_ fun p => ?_
      · rw [hsl, externalDesired, if_neg hi]
        exact bind_of_ok (addFromUser_plenty _ hu) _
      · rw [hh, externalDesired, if_neg hi]
        exact bind_of_ok (addFromUser_plenty _ hu) _

theorem takeIdentity_survives {k : DBusAuth → AuthStep} (hsl : P auth)
    (hk : data = [] → Survives m (k auth) (Quits P)) :
    Survives (if data ≠ [] then if auth.identity ≠ [] then Always else Next Never else m)
      (takeIdentity auth data k) (Quits P) := by
  refine .ite (fun hd => ?_) fun hd => .ite (fun hi => ?_) fun hi => ?_
  · rw [if_neg (not_not.2 hd)]
    exact hk hd
  · exact (sendRejected_heeds hsl).survives
  · rw [if_pos hd, if_neg hi]
    exact .withMemory ⟨rfl, hsl⟩ survives_never

theorem handleServerDataExternalMech_recovers :
    Recovers (externalMayFail auth data) (handleServerDataExternalMech env · data) auth := by
  have hsl := redoes_refl (handleServerDataExternalMech env · data) auth
  refine .ite (fun _ => (sendRejected_heeds hsl).survives) fun hc => takeIdentity_survives hsl ?_
  rintro rfl
  refine .ite (fun _ => ?_) fun hak => externalDesired_survives fun d p => ?_
  · exact (AuthStep.andThen_heeds (sendData_heeds hsl) (sendData_regular ..)
      fun _ _ => heeds_pure).survives
  · rw [handleServerDataExternalMech, if_neg hc, takeIdentity, if_pos rfl, if_neg hak]

/-! ### DBUS_COOKIE_SHA1 -/

theorem sha1ComputeHash_heeds (id : ℤ) (challenge : List UInt8) :
    Heeds (sha1ComputeHash env auth id challenge data) (· = none) :=
  .lift_bind fun _ _ => .withMemory rfl
    (.ite (fun _ => heeds_pure) fun _ => .withMemory rfl heeds_pure)

theorem sha1CheckHash_heeds {clientChallenge clientHash : List UInt8}
    (hh : ∀ p, h { auth with authorizedIdentity := p } .plenty =
      sha1CheckHash env { auth with authorizedIdentity := p } clientChallenge clientHash .plenty) :
    Heeds (sha1CheckHash env auth clientChallenge clientHash) (Quits (Redoes h auth)) := by
  have hsl := redoes_refl h auth
  refine (sha1ComputeHash_heeds _ _).bind (sha1ComputeHash_regular ..) (fun r hr => ?_) ?_
  · cases r with
    | none => exact heeds_pure
    | some hash =>
      refine .ite (fun _ => sendRejected_heeds hsl) fun hne =>
        .ite (fun _ => sendRejected_heeds hsl) fun heq => ?_
      refine authorize_heeds auth auth.desiredIdentity ?_ fun p => ?_
      · refine (hh auth.authorizedIdentity).trans ((bind_of_ok hr _).trans ?_)
        dsimp only
        rw [if_neg hne, if_neg heq]
      · refine (hh p).trans ((bind_of_ok hr _).trans ?_)
        dsimp only
        rw [if_neg hne, if_neg heq]
  · rintro r rfl
    exact ⟨_, rfl, rfl, hsl⟩

theorem sha1HandleSecondClientResponse_heeds
    (hh : ∀ p, h { auth with authorizedIdentity := p } .plenty =
      sha1HandleSecondClientResponse env { auth with authorizedIdentity := p } data .plenty) :
    Heeds (sha1HandleSecondClientResponse env auth data) (Quits (Redoes h auth)) := by
  have hsl := redoes_refl h auth
  refine .lift_bind fun r hfn => ?_
  obtain ⟨found, blank⟩ := r
  refine .ite (fun _ => sendRejected_heeds hsl) fun hfo => noMemory_heeds hsl ?_
  refine .lift_bind fun cc hcc => .lift_bind fun i hi => .lift_bind fun ch hch => ?_
  refine .ite (fun _ => sendRejected_heeds hsl) fun hne => sha1CheckHash_heeds fun p => ?_
  refine (hh p).trans ((lift_bind hfn _ _).trans ?_)
  dsimp only
  rw [if_neg hfo, withMemory_plenty]
  refine (lift_bind hcc _ _).trans ((lift_bind hi _ _).trans ((lift_bind hch _ _).trans ?_))
  rw [if_neg hne]

theorem sha1FirstRest_again (hu : env.userOf data = some u) (hk : cachedKeyring { auth with
        desiredIdentity := auth.desiredIdentity.addUser u, keyring := k } =
      cachedKeyring { auth with desiredIdentity := auth.desiredIdentity.addUser u }) :
    sha1FirstRest env data { auth with
        desiredIdentity := auth.desiredIdentity.addUser u, keyring := k } .plenty =
      sha1FirstRest env data auth .plenty := by
  refine (bind_of_ok (addFromUser_plenty _ hu) _).trans
    (Eq.trans ?_ (bind_of_ok (addFromUser_plenty _ hu) _).symm)
  dsimp only
  rw [addUser_idem, if_neg (by decide), if_neg (by decide), withMemory_plenty,
    withMemory_plenty, hk]

theorem sha1FirstRest_survives
    (hst : h auth .plenty = sha1FirstRest env [] { auth with challenge := [] } .plenty)
    (hh : ∀ d k, h { auth with desiredIdentity := d, keyring := k, challenge := [] } .plenty =
      sha1FirstRest env [] { auth with desiredIdentity := d, keyring := k, challenge := [] } .plenty) :
    Survives (match env.userOf [] with
        | none => Skip Always
        | some u => Skip (Next
            (if cachedKeyring { auth with
                desiredIdentity := auth.desiredIdentity.addUser u, challenge := [] } = none
              then Next Never else Never)))
      (sha1FirstRest env [] { auth with challenge := [] }) (Quits (Redoes h auth)) := by
  rw [sha1FirstRest, AuthEnv.addFromUser, withMemory_bind]
  cases hu : env.userOf [] with
  | none =>
    have hsl := (hh auth.desiredIdentity auth.keyring).trans hst.symm
    exact .skip (sendRejected_heeds (redoes_with hsl)).survives
  | some u =>
    have hl : ∀ k, cachedKeyring { auth with
          desiredIdentity := auth.desiredIdentity.addUser u, keyring := k, challenge := [] } =
        cachedKeyring { auth with
          desiredIdentity := auth.desiredIdentity.addUser u, challenge := [] } →
        Redoes h auth { auth with
          desiredIdentity := auth.desiredIdentity.addUser u, keyring := k, challenge := [] } := by
      intro k hk
      refine redoes_with ((hh _ k).trans (Eq.trans ?_ hst.symm))
      exact @sha1FirstRest_again _ { auth with challenge := [] } _ _ _ hu hk
    refine .skip (.withMemory ⟨rfl, hl auth.keyring rfl⟩ ?_)
    cases hcc : cachedKeyring { auth with
      desiredIdentity := auth.desiredIdentity.addUser u, challenge := [] } with
    | some keyring => exact survives_never
    | none =>
      rw [if_pos rfl]
      dsimp only
      rw [AuthEnv.keyringNewForCredentials, withMemory_bind]
      have hnn : Quits (Redoes h auth) (false, _) := ⟨rfl, hl none (by rw [hcc]; rfl)⟩
      exact .withMemory hnn survives_never

theorem handleServerDataCookieSha1Mech_recovers :
    Recovers (cookieMayFail env auth data) (handleServerDataCookieSha1Mech env · data) auth := by
  refine .ite (fun hc => ?_) fun hc => ?_
  · have hst : ∀ d k c, handleServerDataCookieSha1Mech env { auth with
        desiredIdentity := d, keyring := k, challenge := c } data .plenty =
        sha1HandleFirstClientResponse env { auth with
          desiredIdentity := d, keyring := k, challenge := c } data .plenty := by
      intro d k c
      rw [handleServerDataCookieSha1Mech, if_pos hc]
    rw [cookieMayFail, if_pos hc]
    refine @takeIdentity_survives { auth with challenge := [] } data _ _ _ ?_ ?_
    · refine redoes_with ((hst auth.desiredIdentity auth.keyring []).trans ?_)
      exact (hst auth.desiredIdentity auth.keyring auth.challenge).symm
    · rintro rfl
      exact sha1FirstRest_survives (hst auth.desiredIdentity auth.keyring auth.challenge)
        fun d k => hst d k []
  · refine (sha1HandleSecondClientResponse_heeds fun p => ?_).survives
    rw [handleServerDataCookieSha1Mech, if_neg hc]

/-! ### ANONYMOUS -/

theorem handleServerDataAnonymousMech_recovers :
    Recovers (anonymousMayFail data) (handleServerDataAnonymousMech · data) auth := by
  refine .lift_bind fun valid hvl => .ite (fun h => ?_) fun h => ?_
  · rw [anonymousMayFail, hvl, h, if_pos rfl]
    exact .skip (sendRejected_heeds (redoes_refl _ auth)).survives
  · have hst : ∀ d p, handleServerDataAnonymousMech { auth with
        desiredIdentity := d, authorizedIdentity := p } data .plenty = authorize { auth with
        desiredIdentity := .empty, authorizedIdentity := p } (anonymousGrant auth.credentials)
        .plenty := by
      intro d p
      refine (lift_bind hvl _ _).trans ?_
      rw [if_neg h]
    exact (authorize_heeds auth .empty (hst auth.desiredIdentity auth.authorizedIdentity)
      (hst .empty)).survives

theorem serverDataFunc_recovers (m : Mechanism) :
    Recovers (m.serverMayFail env auth data) (m.serverDataFunc env · data) auth := by
  cases m with
  | external => exact handleServerDataExternalMech_recovers
  | cookieSha1 => exact handleServerDataCookieSha1Mech_recovers
  | anonymous => exact handleServerDataAnonymousMech_recovers

/-! ## Commands of both sides -/

theorem Redoes.through {h' : DBusAuth → AuthStep} (hr : Redoes h auth auth')
    (hst : ∀ auth' : DBusAuth, auth'.mech = auth.mech → h' auth' .plenty = h auth' .plenty) :
    Redoes h' auth auth' :=
  ⟨(hst auth' hr.mech).trans (hr.again.trans (hst auth rfl).symm), hr.shell, hr.mech⟩

/-! ### The client's answer to a challenge -/

theorem cookieAnswer_heeds (val : ℤ) (serverChallenge : List UInt8) (h : P auth) :
    Heeds (cookieAnswer env auth val serverChallenge) (Quits P) := by
  refine noMemory_heeds h ((sha1ComputeHash_heeds _ _).bind (sha1ComputeHash_regular ..)
    (fun r _ => ?_) ?_)
  · cases r with
    | none => exact heeds_pure
    | some hash =>
      exact .ite (fun _ => sendError_heeds _ h) fun _ => noMemory_heeds h (sendData_heeds h)
  · rintro r rfl
    exact ⟨_, rfl, rfl, h⟩

theorem cookieCheck_recovers (context cookieIdStr serverChallenge : List UInt8) :
    Recovers (checkMayFail env auth context) (cookieCheck env · context cookieIdStr serverChallenge)
      auth := by
  have hsl := redoes_refl (cookieCheck env · context cookieIdStr serverChallenge) auth
  refine .ite (fun _ => (sendError_heeds _ hsl).survives) fun hcn => ?_
  cases hvl : env.strtol cookieIdStr with
  | none => exact (sendError_heeds _ hsl).survives
  | some val =>
    refine .ite (fun _ => (sendError_heeds _ hsl).survives) fun hch => ?_
    cases hky : auth.keyring with
    | some keyring => exact (cookieAnswer_heeds val serverChallenge hsl).survives
    | none =>
      rw [AuthEnv.keyringNewForCredentials, withMemory_bind]
      cases hl : env.keyringFor none context with
      | none =>
        rw [checkMayFail, hl, if_neg (by simp)]
        exact (noMemory_heeds hsl (sendError_heeds _ hsl)).survives
      | some k =>
        rw [checkMayFail, hl, hky, if_pos (by simp)]
        refine .withMemory ⟨rfl, hsl⟩ ?_
        rw [withMemory_bind]
        refine .skip (cookieAnswer_heeds val serverChallenge ⟨?_, ?_, rfl⟩).survives
        · have hld : cookieCheck env { auth with keyring := some k } context cookieIdStr
              serverChallenge .plenty = cookieAnswer env { auth with keyring := some k } val
              serverChallenge .plenty := by
            rw [cookieCheck, if_neg hcn, hvl]
            dsimp only
            rw [if_neg hch]
          have hlo : cookieCheck env auth context cookieIdStr serverChallenge .plenty =
              cookieAnswer env { auth with keyring := some k } val serverChallenge .plenty := by
            have hnw : env.keyringNewForCredentials none context .plenty = (.ok (.ok k), .plenty) := by
              rw [AuthEnv.keyringNewForCredentials, hl]
              rfl
            rw [cookieCheck, if_neg hcn, hvl]
            dsimp only
            rw [if_neg hch, hky]
            exact bind_of_ok hnw _
          exact hld.trans hlo.symm
        · exact ⟨rfl, rfl, rfl, rfl, rfl, rfl, fun h => h⟩

theorem handleClientDataCookieSha1Mech_recovers :
    Recovers (Mechanism.clientMayFail env auth data .cookieSha1)
      (handleClientDataCookieSha1Mech env · data) auth := by
  have hsl := redoes_refl (handleClientDataCookieSha1Mech env · data) auth
  refine .lift_bind fun r hfn => ?_
  obtain ⟨found, blank⟩ := r
  have hb : blank = firstBlank data 0 := by
    rw [findBlank_eq (Nat.zero_le _)] at hfn
    cases hfn
    rfl
  refine .ite (fun _ => (sendError_heeds _ hsl).survives) fun hfo =>
    .withMemory ⟨rfl, hsl⟩ ?_
  refine .lift_bind fun context hcn => .lift_bind fun i hi => ?_
  have hw : context = data.take (firstBlank data 0) := by
    rw [hb, copyLen_start (firstBlank_le (Nat.zero_le _))] at hcn
    cases hcn
    rfl
  refine .lift_bind fun r hfn' => ?_
  obtain ⟨found', j⟩ := r
  refine .ite (fun _ => (sendError_heeds _ hsl).survives) fun hfo' =>
    .withMemory ⟨rfl, hsl⟩ ?_
  refine .lift_bind fun cookieIdStr hid => .lift_bind fun i' hi' =>
    .lift_bind fun serverChallenge hch => ?_
  rw [← hw]
  refine (cookieCheck_recovers context cookieIdStr serverChallenge).mono fun r ⟨hf, hr⟩ => ⟨hf, ?_⟩
  refine hr.through fun auth' _ => ?_
  refine (lift_bind hfn _ _).trans ?_
  dsimp only
  rw [if_neg hfo, withMemory_plenty]
  refine (lift_bind hcn _ _).trans ((lift_bind hi _ _).trans ((lift_bind hfn' _ _).trans ?_))
  rw [if_neg hfo', withMemory_plenty]
  exact (lift_bind hid _ _).trans ((lift_bind hi' _ _).trans (lift_bind hch _ _))

theorem clientDataFunc_recovers (m : Mechanism) :
    Recovers (m.clientMayFail env auth data) (m.clientDataFunc env · data) auth := by
  cases m with
  | external => exact heeds_pure.survives
  | cookieSha1 => exact handleClientDataCookieSha1Mech_recovers
  | anonymous => exact heeds_pure.survives

/-! ## Commands -/

theorem processData_recovers {dataFunc : DBusAuth → List UInt8 → AuthStep}
    {mayFail : List UInt8 → ℕ → Prop} (h : ∀ data, Recovers (mayFail data) (dataFunc · data) auth) :
    Recovers (dataMayFail mayFail args) (processData · args dataFunc) auth := by
  have hsl := redoes_refl (processData · args dataFunc) auth
  by_cases hh : args.length ≠ (hexDecode args).2
  · rw [dataMayFail, if_pos hh]
    refine (noMemory_heeds hsl (.ite (fun _ => sendError_heeds _ hsl) fun h => ?_)).survives
    exact absurd hh h
  · rw [dataMayFail, if_neg hh]
    refine .withMemory ⟨rfl, hsl⟩ (.ite (fun h => absurd h hh) fun _ => ?_)
    refine (h _).mono fun r ⟨hf, hr⟩ => ⟨hf, hr.through fun auth' _ => ?_⟩
    rw [processData, withMemory_plenty, if_neg hh]

/-- A weaker form of `Redoes`, for commands, which may choose their mechanism anew. -/
structure Repeats (h : DBusAuth → AuthStep) (auth auth' : DBusAuth) : Prop where
  again : h auth' .plenty = h auth .plenty
  shell : Shell auth auth'

theorem Redoes.repeats (hr : Redoes h auth auth') :
    Repeats h auth auth' := ⟨hr.again, hr.shell⟩

theorem repeats_refl (h : DBusAuth → AuthStep) (auth : DBusAuth) : Repeats h auth auth :=
  ⟨rfl, shell_refl auth⟩

theorem Survives.orForgetMech {Q : DBusAuth → Prop} (hx : Survives m x (Quits Q))
    (hq : ∀ auth, Q auth → P { auth with mech := none }) :
    Survives m (orForgetMech x) (Quits P) := by
  have heq : DBus.orForgetMech x = x >>= fun r =>
      pure (if r.1 then (true, r.2) else (false, { r.2 with mech := none })) := by
    refine congrArg (x >>= ·) (funext fun r => ?_)
    obtain ⟨ok, auth⟩ := r
    cases ok <;> rfl
  rw [heq]
  refine Alloc.Survives.bind_pure hx ?_
  rintro ⟨ok, auth⟩ ⟨rfl : ok = false, h⟩
  exact ⟨rfl, hq auth h⟩

theorem handleAuth_survives (args : List UInt8) :
    Survives (if args = [] then Always else authMayFail env auth args) (handleAuth env auth args)
      (Quits (Repeats (handleAuth env · args) auth)) := by
  have hsl := repeats_refl (handleAuth env · args) auth
  refine .ite (fun _ => (sendRejected_heeds hsl).survives) fun har => ?_
  rw [if_neg har]
  refine .lift_bind fun r hfn => ?_
  obtain ⟨found, blank⟩ := r
  have hb : blank = firstBlank args 0 := by
    rw [findBlank_eq (Nat.zero_le _)] at hfn
    cases hfn
    rfl
  have hle : blank ≤ args.length := hb ▸ firstBlank_le (Nat.zero_le _)
  have hch : handleAuth env { auth with mech := none } args .plenty =
      handleAuth env auth args .plenty := by
    rw [handleAuth, handleAuth, if_neg har, if_neg har]
    refine (lift_bind hfn _ _).trans (Eq.symm ((lift_bind hfn _ _).trans ?_))
    rfl
  have hnn : Repeats (handleAuth env · args) auth { auth with mech := none } :=
    ⟨hch, rfl, rfl, rfl, rfl, rfl, rfl, fun h => h⟩
  refine .withMemory ⟨rfl, hsl⟩ (.withMemory ⟨rfl, hnn⟩ ?_)
  refine .lift_bind fun mech hmc => .lift_bind fun i hi => .lift_bind fun her hh => ?_
  have hnm : mech = args.take (firstBlank args 0) := by
    rw [copyLen_start hle] at hmc
    cases hmc
    rw [hb]
  have hrs : her = args.drop (behindBlanks args (firstBlank args 0)) := by
    obtain rfl : i = behindBlanks args blank := skipBlank_eq hle hi
    rw [copyLen_rest (behindBlanks_le hle)] at hh
    cases hh
    rw [hb]
  rw [← hnm, ← hrs]
  cases hfo : findMech mech auth.allowedMechs with
  | none =>
    have hrj : Heeds (sendRejected { auth with mech := none }) (Quits (· = { auth with mech := none })) :=
      sendRejected_heeds rfl
    refine Survives.orForgetMech hrj.survives ?_
    rintro auth' rfl
    exact hnn
  | some m =>
    have hst : ∀ auth' : DBusAuth, auth'.allowedMechs = auth.allowedMechs →
        handleAuth env auth' args .plenty = orForgetMech (processData { auth' with mech := some m }
          her (m.serverDataFunc env)) .plenty := by
      intro auth' hal
      rw [handleAuth, if_neg har]
      refine (lift_bind hfn _ _).trans ?_
      dsimp only
      rw [withMemory_plenty, withMemory_plenty]
      refine (lift_bind hmc _ _).trans ((lift_bind hi _ _).trans ((lift_bind hh _ _).trans ?_))
      rw [hal, hfo]
    have hdt : ∀ data, Recovers (m.serverMayFail env auth data) (m.serverDataFunc env · data)
        { auth with mech := some m } := by
      intro data
      have h : Recovers _ (m.serverDataFunc env · data) { auth with mech := some m } :=
        serverDataFunc_recovers m
      cases m <;> exact h
    refine Survives.orForgetMech (processData_recovers hdt) fun auth' hr => ?_
    obtain ⟨hag, hsh, hm⟩ := hr
    refine ⟨?_, ⟨hsh.side, hsh.state, hsh.incoming, hsh.outgoing, hsh.neededMemory,
      hsh.allowedMechs, hsh.mechs⟩⟩
    have het : { auth' with mech := some m } = auth' := by rw [← (show auth'.mech = some m from hm)]
    refine (hst { auth' with mech := none } hsh.allowedMechs).trans
      (Eq.trans ?_ (hst auth rfl).symm)
    rw [het]
    exact bind_congr hag _

/-! ### The list of mechanisms -/

theorem recordLoop_heeds (allowedMechs : Option (List (List UInt8))) (args : List UInt8) :
    ∀ (fuel next : ℕ) (mechs : List Mechanism),
      Heeds (recordLoop allowedMechs args fuel next mechs) (· = (false, []))
  | 0, _, _ => heeds_lift
  | fuel + 1, next, mechs => by
    refine .ite (fun _ => heeds_pure) fun _ => .withMemory rfl (.lift_bind fun r _ => ?_)
    dsimp only
    split
    · exact recordLoop_heeds allowedMechs args fuel _ _
    · exact .ite (fun _ => recordLoop_heeds allowedMechs args fuel _ _) fun _ =>
        .withMemory rfl (recordLoop_heeds allowedMechs args fuel _ _)

theorem recordMechanisms_heeds (h : P auth) (hm : MechsTidy auth) (args : List UInt8) :
    Heeds (recordMechanisms auth args) (Quits P) := by
  refine .ite (fun _ => heeds_pure) fun hg => (recordLoop_heeds _ _ _ _ _).bind
    (recordLoop_regular ..) (fun r _ => .ite (fun _ => heeds_pure) fun _ => heeds_pure) ?_
  rintro r rfl
  refine ⟨_, rfl, rfl, ?_⟩
  rw [← hm (by simpa using hg)]
  exact h

theorem recordMechanisms_returns
    (h : recordMechanisms auth args .plenty = (.ok (true, auth'), .plenty)) :
    ∃ mechs, auth' = { auth with mechsToTry := mechs, alreadyGotMechanisms := true } := by
  rw [recordMechanisms] at h
  split at h
  · next hg =>
    cases h
    exact ⟨auth.mechsToTry, by rw [← hg]⟩
  · rcases hl : recordLoop auth.allowedMechs args (args.length + 1) 0 auth.mechsToTry .plenty with ⟨out, a⟩
    cases out with
    | error e => simp [bind_of_error hl] at h
    | ok r =>
      rw [bind_of_ok hl] at h
      obtain ⟨ok, mechs⟩ := r
      cases ok with
      | true =>
        cases h
        exact ⟨mechs, rfl⟩
      | false => cases h

theorem processRejected_recovers (hm : MechsTidy auth) (args : List UInt8) :
    Recovers m (processRejected env · args) auth := by
  have hrc := recordMechanisms_heeds (redoes_refl (processRejected env · args) auth) hm args
  refine Heeds.survives (AuthStep.andThen_heeds hrc (recordMechanisms_regular ..) fun auth' h => ?_)
  obtain ⟨mechs, rfl⟩ := recordMechanisms_returns h
  have hag : processRejected env auth args .plenty = processRejected env { auth with
      mechsToTry := mechs, alreadyGotMechanisms := true } args .plenty := (bind_of_ok h _).trans rfl
  have hl : Redoes (processRejected env · args) auth
      { auth with mechsToTry := mechs, alreadyGotMechanisms := true } :=
    ⟨hag.symm, ⟨rfl, rfl, rfl, rfl, rfl, rfl, (by rintro _ ⟨⟩)⟩, rfl⟩
  split
  · exact AuthStep.andThen_heeds (noMemory_heeds hl heeds_pure) (sendAuth_regular ..)
      fun _ _ => heeds_pure
  · exact heeds_pure

theorem sendBegin_heeds (args : List UInt8) (h : P auth) : Heeds (sendBegin auth args) (Quits P) :=
  .lift_bind fun _ hg => noMemory_heeds h (.ite (fun _ => heeds_pure) fun _ =>
    noMemory_heeds h (noMemory_heeds (by rwa [← assert_eq_ok.1 hg]) heeds_pure))

/-! ### The states -/

/-- If one of the allocations fails that may, `h` returns `FALSE` and can be repeated. -/
def Retries (m : ℕ → Prop) (h : DBusAuth → AuthStep) (auth : DBusAuth) : Prop :=
  Survives m (h auth) (Quits (Repeats h auth))

theorem Recovers.through {h' : DBusAuth → AuthStep} (hr : Recovers m h auth)
    (hst : ∀ auth' : DBusAuth, auth'.mech = auth.mech → h' auth' .plenty = h auth' .plenty) :
    Survives m (h auth) (Quits (Repeats h' auth)) :=
  hr.mono fun _ ⟨hf, hr⟩ => ⟨hf, (hr.through hst).repeats⟩

theorem handler_retries (hm : MechsTidy auth) (command : AuthCommand) (args : List UInt8) :
    Retries (handlerMayFail env auth command args) (auth.state.handler env · command args) auth := by
  have hsl : ∀ h, Repeats h auth auth := fun h => repeats_refl h auth
  unfold handlerMayFail
  cases hst : auth.state with
  | serverWaitingForAuth =>
    cases command with
    | auth => exact handleAuth_survives args
    | begin => exact heeds_pure.survives
    | error => exact (sendRejected_heeds (hsl _)).survives
    | _ => exact (sendError_heeds _ (hsl _)).survives
  | serverWaitingForData =>
    cases command with
    | data =>
      refine .lift_bind fun m hmc => ?_
      have hmc : auth.mech = some m := valueOr_eq_ok.1 hmc
      rw [hmc]
      refine (processData_recovers fun _ => serverDataFunc_recovers m).through fun auth' h => ?_
      refine lift_bind ?_ _ _
      rw [h, hmc, valueOr_some]
    | begin => exact heeds_pure.survives
    | cancel | error => exact (sendRejected_heeds (hsl _)).survives
    | _ => exact (sendError_heeds _ (hsl _)).survives
  | serverWaitingForBegin =>
    cases command with
    | begin => exact heeds_pure.survives
    | cancel | error => exact (sendRejected_heeds (hsl _)).survives
    | _ => exact (sendError_heeds _ (hsl _)).survives
  | clientWaitingForData =>
    refine .lift_bind fun m hmc => ?_
    have hmc : auth.mech = some m := valueOr_eq_ok.1 hmc
    have hsr : ∀ auth' : DBusAuth, auth'.mech = auth.mech →
        valueOr Stop.assertion auth'.mech = .ok m := by
      intro auth' h
      rw [h, hmc, valueOr_some]
    cases command with
    | data =>
      rw [hmc]
      exact (processData_recovers fun _ => clientDataFunc_recovers m).through
        fun auth' h => lift_bind (hsr auth' h) _ _
    | rejected =>
      exact (processRejected_recovers hm args).through fun auth' h => lift_bind (hsr auth' h) _ _
    | ok => exact (sendBegin_heeds args (hsl _)).survives
    | error => exact (sendCancel_heeds (hsl _)).survives
    | _ => exact (sendError_heeds _ (hsl _)).survives
  | clientWaitingForOk =>
    cases command with
    | rejected => exact (processRejected_recovers hm args).through fun _ _ => rfl
    | ok => exact (sendBegin_heeds args (hsl _)).survives
    | data | error => exact (sendCancel_heeds (hsl _)).survives
    | _ => exact (sendError_heeds _ (hsl _)).survives
  | clientWaitingForReject =>
    cases command with
    | rejected => exact (processRejected_recovers hm args).through fun _ _ => rfl
    | _ => exact heeds_pure.survives
  | _ => exact heeds_lift.survives

theorem processLine_retries (hm : MechsTidy auth) (line : List UInt8) :
    Retries (if validateAscii line = false then Always
      else Next (handlerMayFail env auth (commandOf line) (argsOf line))) (processLine env · line)
      auth := by
  have hsl := repeats_refl (processLine env · line) auth
  refine .ite (fun _ => (sendError_heeds _ hsl).survives) fun hac => ?_
  rw [if_neg hac]
  refine .lift_bind fun r hfn => ?_
  obtain ⟨found, i⟩ := r
  have hi : i = firstBlank line 0 := by
    rw [findBlank_eq (Nat.zero_le _)] at hfn
    cases hfn
    rfl
  refine .lift_bind fun j hj => .withMemory ⟨rfl, hsl⟩ ?_
  have hj' : j = behindBlanks line (firstBlank line 0) :=
    hi ▸ skipBlank_eq (hi ▸ firstBlank_le (Nat.zero_le _)) hj
  have hcm : lookupCommandFromName (line.take i) = commandOf line := by rw [hi, commandOf]
  have har : line.drop j = argsOf line := by rw [hj', argsOf]
  rw [hcm, har]
  refine (handler_retries hm _ _).mono fun r ⟨hf, hag, hsh⟩ => ⟨hf, ?_, hsh⟩
  have hsp : ∀ auth' : DBusAuth, auth'.state = auth.state → processLine env auth' line .plenty =
      auth.state.handler env auth' (commandOf line) (argsOf line) .plenty := by
    intro auth' hst
    rw [processLine, if_neg hac]
    refine (lift_bind hfn _ _).trans ((lift_bind hj _ _).trans ?_)
    rw [withMemory_plenty, hst, hcm, har]
  exact (hsp _ hsh.state).trans (hag.trans (hsp auth rfl).symm)

theorem withoutNeed_eq (h : auth.neededMemory = false) : { auth with neededMemory := false } = auth := by
  rw [← h]

/-- **Commands**: if one of the allocations fails that may, the command is left and can be
    processed again. -/
theorem processCommand_retries (hm : MechsTidy auth) (hn : auth.neededMemory = false) :
    Survives (commandMayFail env auth) (processCommand env auth) (Quits fun auth' =>
      auth'.neededMemory = true ∧
        Repeats (processCommand env) auth { auth' with neededMemory := false }) := by
  have hsl : Repeats (processCommand env) auth { auth with neededMemory := false } := by
    rw [withoutNeed_eq hn]
    exact repeats_refl _ auth
  cases hel : findEol auth.incoming with
  | none =>
    rw [processCommand, hel]
    exact heeds_pure.survives
  | some eol =>
    have hl : auth.firstLine = auth.incoming.take eol := by rw [DBusAuth.firstLine, hel]; rfl
    have hlr : Retries _ (processLine env · auth.firstLine) auth := processLine_retries hm _
    rw [processCommand, hel]
    dsimp only
    rw [← hl]
    refine .withMemory ⟨rfl, rfl, hsl⟩ ?_
    -- behind the line nothing is allocated
    have hrs : (fun r : Bool × DBusAuth => if r.1 then done (r.2.dropLine eol)
          else noMemory { r.2 with neededMemory := true }) = fun r => pure (if r.1 then
          (true, r.2.dropLine eol) else (false, { r.2 with neededMemory := true })) := by
      funext r
      obtain ⟨ok, auth'⟩ := r
      cases ok <;> rfl
    change Survives _ (processLine env auth auth.firstLine >>= fun r : Bool × DBusAuth =>
      if r.1 then done (r.2.dropLine eol) else noMemory { r.2 with neededMemory := true }) _
    rw [hrs]
    refine hlr.bind_pure ?_
    rintro ⟨ok, auth'⟩ ⟨rfl : ok = false, hag, hsh⟩
    refine ⟨rfl, rfl, ?_⟩
    have het : { auth' with neededMemory := false } = auth' :=
      withoutNeed_eq (hsh.neededMemory.trans hn)
    change Repeats (processCommand env) auth { auth' with neededMemory := false }
    rw [het]
    refine ⟨?_, hsh⟩
    rw [processCommand, processCommand, hsh.incoming, hel]
    dsimp only
    rw [withMemory_plenty, withMemory_plenty, ← hl]
    exact bind_congr hag _

end

end DBus
