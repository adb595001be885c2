/-
  What one command can do on the server while there is memory.

  `DataMove` says what a mechanism can make of the data of the client, `ServerMove` what
  the server can make of a line.  Which lines trip an assertion is said by `ServerFine`:
  those with a line break behind the blanks that are skipped.
-/
import DBus.Auth.Defs

namespace DBus

open Outcome Alloc

/-! ## Sending -/

section
variable {auth : DBusAuth} {e : Stop} {Q : Bool × DBusAuth → Prop}

theorem lands_done (h : Q (true, auth)) : Lands e True (done auth) Q := lands_pure h

theorem sendError_lands (message : String) :
    Lands e True (sendError auth message) (· = (true, auth.send (errorLine message))) :=
  .withMemory (lands_done rfl)

theorem sendPieces_lands (n : ℕ) (pieces : List (List UInt8)) :
    Lands e True (sendPieces n pieces auth) (· = (true, auth.send pieces.flatten)) := by
  induction pieces generalizing auth with
  | nil => exact lands_done (by simp [DBusAuth.send])
  | cons piece pieces ih =>
    refine .withMemory (ih.mono fun r hr => hr.trans ?_)
    simp [DBusAuth.send]

theorem sendData_lands (data : List UInt8) :
    Lands e True (sendData auth data) (· = (true, auth.send (dataLine data))) := by
  unfold dataLine
  refine .ite (fun h => ?_) fun h => ?_
  · rw [if_pos h]
    exact .withMemory (lands_done rfl)
  · rw [if_neg h]
    exact (sendPieces_lands _ _).mono fun r hr => by simpa using hr

theorem sendRejected_lands (h : auth.side = .server) :
    Lands e True (sendRejected auth) (· = (true, auth.reject rejectedLine)) := by
  have ha : assert (auth.side = .server) = .ok () := assert_of h
  exact .withMemory ((lands_lift_ok ha).bind_true fun _ _ => lands_done rfl)

/-- The conversation once `send_ok` has sent its line. -/
def DBusAuth.accept (auth : DBusAuth) : DBusAuth :=
  (auth.send (okLine auth.guid)).gotoState .serverWaitingForBegin

theorem AuthStep.andThen_lands {x : AuthStep} {k : DBusAuth → AuthStep} {c : Prop}
    {auth' : DBusAuth} (hx : Lands e True x (· = (true, auth'))) (hk : Lands e c (k auth') Q) :
    Lands e c (x.andThen k) Q := by
  exact hx.bind_eq hk

theorem sendOk_lands : Lands e True (sendOk auth) (· = (true, auth.accept)) := by
  refine AuthStep.andThen_lands (sendPieces_lands _ _) (lands_done ?_)
  simp [DBusAuth.accept, okLine]

theorem authorize_lands (l : List (DBusCredentialType × DBusCredentials)) :
    Lands e True (authorize auth l) (· = (true, { auth with
      authorizedIdentity := auth.authorizedIdentity.addingAll l }.accept)) := by
  refine (lands_of (DBusCredentials.addAll_plenty ..)).bind_eq ?_
  exact sendOk_lands

section
variable (auth : DBusAuth)

theorem DBusAuth.shutdownMech_eq : auth.shutdownMech = { auth with
    mech := none
    identity := []
    authorizedIdentity := .empty
    desiredIdentity := .empty
    alreadyAskedForInitialResponse := false
    cookieId := if auth.mech = some .cookieSha1 then -1 else auth.cookieId
    challenge := if auth.mech = some .cookieSha1 then [] else auth.challenge } := by
  obtain ⟨side, incoming, outgoing, state, mech⟩ := auth
  rcases mech with _ | _ | _ | _ <;> rfl

theorem DBusAuth.reject_eq (line : List UInt8) : auth.reject line = { auth with
    outgoing := auth.outgoing ++ line
    mech := none
    identity := []
    authorizedIdentity := .empty
    desiredIdentity := .empty
    alreadyAskedForInitialResponse := false
    cookieId := if auth.mech = some .cookieSha1 then -1 else auth.cookieId
    challenge := if auth.mech = some .cookieSha1 then [] else auth.challenge
    failures := auth.failures + 1
    state := if auth.failures + 1 ≥ auth.maxFailures then .needDisconnect
      else .serverWaitingForAuth } := by
  simp only [DBusAuth.reject, DBusAuth.shutdownMech_eq, DBusAuth.send, DBusAuth.gotoState]
  split <;> rfl

theorem reject_identities (line i : List UInt8) (d d' : DBusCredentials) :
    { auth with identity := i, desiredIdentity := d, authorizedIdentity := d' }.reject line =
      auth.reject line := rfl

theorem reject_cookie (line c : List UInt8) (id : ℤ) (h : auth.mech = some .cookieSha1) :
    { auth with cookieId := id, challenge := c }.reject line = auth.reject line := by
  obtain ⟨⟩ := auth
  subst h
  rfl

end

end

/-! ## Data for a mechanism -/

def TakesIdentity (auth : DBusAuth) (data identity : List UInt8) : Prop :=
  (data = [] ∧ identity = auth.identity) ∨ (data ≠ [] ∧ auth.identity = [] ∧ identity = data)

/-- The keyring in which the cookie of the desired user is looked for: the cached one if
    it is the user's, or theirs as it is loaded. -/
def KeyringOf (env : AuthEnv) (auth : DBusAuth) (desired : DBusCredentials) (keyring : DBusKeyring) :
    Prop :=
  (auth.keyring = some keyring ∧ keyring.isForCredentials desired = true) ∨
    env.keyringFor (some desired) auth.context = some keyring

def DBusAuth.challenged (auth : DBusAuth) (env : AuthEnv) (identity : List UInt8) (u : UserId)
    (id : ℤ) (keyring : DBusKeyring) : DBusAuth :=
  let auth := { auth with
    identity := identity
    desiredIdentity := auth.desiredIdentity.addUser u
    keyring := some keyring
    cookieId := id
    challenge := hexEncode env.randomBytes }
  (auth.send (dataLine (challengeData auth auth.challenge))).gotoState .serverWaitingForData

def correctHash (env : AuthEnv) (auth : DBusAuth) (keyring : DBusKeyring)
    (clientChallenge : List UInt8) : List UInt8 :=
  env.sha (auth.challenge ++ asciiBytes ":" ++ clientChallenge ++ asciiBytes ":" ++
    keyring.getHexKey auth.cookieId)

/-- What the server makes of the data of the client for a mechanism. -/
inductive DataMove (env : AuthEnv) (auth : DBusAuth) (data : List UInt8) :
    Mechanism → DBusAuth → Prop
  | rejected (m : Mechanism) (keyring : Option DBusKeyring) :
    DataMove env auth data m ({ auth with keyring := keyring }.reject rejectedLine)
  | poked : data = [] → auth.identity = [] →
    DataMove env auth data .external
      ({ auth.send (dataLine []) with alreadyAskedForInitialResponse := true }.gotoState
        .serverWaitingForData)
  | external (identity : List UInt8) (desired : DBusCredentials) :
    TakesIdentity auth data identity → desired.areAnonymous = false →
    auth.credentials.areSuperset desired = true →
    DataMove env auth data .external { auth with
      identity := identity
      desiredIdentity := desired
      authorizedIdentity :=
        auth.authorizedIdentity.addingAll (externalGrant desired auth.credentials) }.accept
  | challenged (identity : List UInt8) (u : UserId) (id : ℤ) (keyring keyring' : DBusKeyring) :
    auth.cookieId < 0 → TakesIdentity auth data identity → env.userOf data = some u →
    KeyringOf env auth (auth.desiredIdentity.addUser u) keyring →
    env.recentKey keyring = (id, keyring') → 0 ≤ id →
    DataMove env auth data .cookieSha1 (auth.challenged env identity u id keyring')
  | cookie (keyring : DBusKeyring) (clientChallenge : List UInt8) :
    0 ≤ auth.cookieId → auth.keyring = some keyring → keyring.getHexKey auth.cookieId ≠ [] →
    clientChallenge = data.take (firstBlank data 0) →
    data.drop (behindBlanks data (firstBlank data 0)) = correctHash env auth keyring clientChallenge →
    DataMove env auth data .cookieSha1 { auth with
      authorizedIdentity :=
        auth.authorizedIdentity.addingAll (cookieGrant auth.desiredIdentity auth.credentials) }.accept
  | anonymous : DataMove env auth data .anonymous { auth with
      desiredIdentity := .empty
      authorizedIdentity := auth.authorizedIdentity.addingAll (anonymousGrant auth.credentials) }.accept

section
variable {env : AuthEnv} {auth : DBusAuth} {data : List UInt8} {e : Stop} {c : Prop}
  {M : DBusAuth → Prop} {keyring : DBusKeyring} {m : Mechanism}

theorem DataMove.of_reject (m : Mechanism) (i : List UInt8) (d : DBusCredentials) :
    DataMove env auth data m
      ({ auth with identity := i, desiredIdentity := d }.reject rejectedLine) := by
  have h := reject_identities auth rejectedLine i d auth.authorizedIdentity
  exact h ▸ .rejected m auth.keyring

theorem takeIdentity_lands {k : DBusAuth → AuthStep} {Q : Bool × DBusAuth → Prop}
    (hs : auth.side = .server)
    (hr : data ≠ [] → auth.identity ≠ [] → (c ∧ Q (true, auth.reject rejectedLine)))
    (hk : ∀ i, TakesIdentity auth data i → Lands e c (k { auth with identity := i }) Q) :
    Lands e c (takeIdentity auth data k) Q := by
  refine .ite (fun hd => hk auth.identity (.inl ⟨hd, rfl⟩)) fun hd => .ite (fun hi => ?_) fun hi => ?_
  · obtain ⟨hc, hQ⟩ := hr hd hi
    exact ((sendRejected_lands hs).mono fun b hb => hb ▸ hQ).congr ⟨fun _ => hc, fun _ => trivial⟩
  · exact (hk data (.inr ⟨hd, not_not.1 hi, rfl⟩)).withMemory

abbrev Moves (c : Prop) (x : AuthStep) (M : DBusAuth → Prop) : Prop :=
  Lands .assertion c x fun r => r.1 = true ∧ M r.2

theorem sendRejected_moves (hs : auth.side = .server) (h : M (auth.reject rejectedLine)) :
    Moves True (sendRejected auth) M :=
  (sendRejected_lands hs).mono fun b hb => by subst hb; exact ⟨rfl, h⟩

theorem authorize_moves {l : List (DBusCredentialType × DBusCredentials)}
    (h : M { auth with authorizedIdentity := auth.authorizedIdentity.addingAll l }.accept) :
    Moves True (authorize auth l) M :=
  (authorize_lands l).mono fun b hb => by subst hb; exact ⟨rfl, h⟩

theorem sendError_moves {message : String} (h : M (auth.send (errorLine message))) :
    Moves True (sendError auth message) M :=
  (sendError_lands message).mono fun b hb => by subst hb; exact ⟨rfl, h⟩

theorem externalAuthorize_moves (hs : auth.side = .server) (hr : M (auth.reject rejectedLine))
    (hok : auth.desiredIdentity.areAnonymous = false →
      auth.credentials.areSuperset auth.desiredIdentity = true →
      M { auth with
        authorizedIdentity := auth.authorizedIdentity.addingAll
          (externalGrant auth.desiredIdentity auth.credentials) }.accept) :
    Moves True (externalAuthorize auth) M := by
  refine .ite (fun _ => sendRejected_moves hs hr) fun hd => .ite (fun hc => ?_) fun _ => ?_
  · exact authorize_moves (hok (Bool.not_eq_true _ ▸ hd) hc)
  · exact sendRejected_moves hs hr

theorem addFromUser_lands (c : DBusCredentials) (username : List UInt8) :
    Lands e True (env.addFromUser c username) fun r =>
      (r = (false, c) ∧ env.userOf username = none) ∨
        ∃ u, env.userOf username = some u ∧ r = (true, c.addUser u) := by
  apply Lands.withMemory
  cases h : env.userOf username with
  | none => exact lands_pure (.inl ⟨rfl, rfl⟩)
  | some u => exact lands_pure (.inr ⟨u, rfl, rfl⟩)

theorem handleServerDataExternalMech_moves (hs : auth.side = .server) :
    Moves True (handleServerDataExternalMech env auth data) (DataMove env auth data .external) := by
  have hrj : DataMove env auth data .external (auth.reject rejectedLine) := .rejected .external auth.keyring
  refine .ite (fun _ => sendRejected_moves hs hrj) fun _ => ?_
  refine takeIdentity_lands hs (fun _ _ => ⟨trivial, rfl, hrj⟩) fun i hi => ?_
  refine .ite (fun hak => ?_) fun _ => ?_
  · -- nothing but an empty response leaves the identity empty
    obtain ⟨hi0 : i = [], -⟩ := hak
    subst hi0
    have hd : data = [] ∧ auth.identity = [] := by
      rcases hi with ⟨hd, hi⟩ | ⟨hd, -, hi⟩
      · exact ⟨hd, hi.symm⟩
      · exact absurd hi.symm hd
    refine AuthStep.andThen_lands (sendData_lands []) (lands_done ⟨rfl, ?_⟩)
    have hm : DataMove env auth data .external _ := .poked hd.1 hd.2
    obtain ⟨⟩ := auth
    obtain ⟨-, rfl⟩ := hd
    exact hm
  · refine .ite (fun _ => ?_) fun _ => ?_
    · refine (lands_of (DBusCredentials.addAll_plenty ..)).bind_eq ?_
      refine externalAuthorize_moves (M := DataMove env auth data .external) ?_ ?_ fun ha hc => ?_
      · exact hs
      · exact .of_reject ..
      · exact .external i _ hi ha hc
    · refine (addFromUser_lands .empty i).bind_true fun b hb => ?_
      rcases hb with ⟨rfl, -⟩ | ⟨u, -, rfl⟩
      · exact sendRejected_moves hs (.of_reject ..)
      · refine externalAuthorize_moves (M := DataMove env auth data .external) ?_ ?_ fun ha hc => ?_
        · exact hs
        · exact .of_reject ..
        · exact .external i _ hi ha hc

theorem keyringGetBestKey_lands (keyring : DBusKeyring) :
    Lands e True (env.keyringGetBestKey keyring) (· = env.recentKey keyring) :=
  .withMemory (lands_pure rfl)

theorem keyringNewForCredentials_lands (c : Option DBusCredentials) (context : List UInt8) :
    Lands e True (env.keyringNewForCredentials c context) fun r =>
      (r = .error false ∧ env.keyringFor c context = none) ∨
        ∃ k, env.keyringFor c context = some k ∧ r = .ok k := by
  apply Lands.withMemory
  cases h : env.keyringFor c context with
  | none => exact lands_pure (.inl ⟨rfl, rfl⟩)
  | some k => exact .withMemory (lands_pure (.inr ⟨k, rfl, rfl⟩))

theorem sha1SendChallenge_moves {auth' : DBusAuth} (hs : auth'.side = .server)
    (hr : ∀ id keyring', M ({ auth' with keyring := some keyring', cookieId := id }.reject rejectedLine))
    (hok : ∀ id keyring', env.recentKey keyring = (id, keyring') → 0 ≤ id → M (({ auth' with
          keyring := some keyring'
          cookieId := id
          challenge := hexEncode env.randomBytes }.send (dataLine (challengeData { auth' with
            keyring := some keyring'
            cookieId := id
            challenge := hexEncode env.randomBytes } (hexEncode env.randomBytes)))).gotoState
        .serverWaitingForData)) : Moves True (sha1SendChallenge env auth' keyring) M := by
  refine (keyringGetBestKey_lands keyring).bind_true fun b hb => ?_
  obtain ⟨id, keyring'⟩ := b
  refine .ite (fun _ => sendRejected_moves hs (hr id keyring')) fun hid => .withMemory ?_
  refine AuthStep.andThen_lands (sendData_lands _) (lands_done ⟨rfl, ?_⟩)
  exact hok id keyring' hb.symm (not_lt.1 hid)

theorem sha1HandleFirstClientResponse_moves (hs : auth.side = .server) (hc : auth.cookieId < 0)
    (hm : auth.mech = some .cookieSha1) :
    Moves True (sha1HandleFirstClientResponse env auth data) (DataMove env auth data .cookieSha1) := by
  -- the cookie, the challenge and the identities are forgotten by a rejection
  have hrj : ∀ (i c : List UInt8) (d : DBusCredentials) (id : ℤ) (k : Option DBusKeyring),
      DataMove env auth data .cookieSha1 ({ auth with
        identity := i, desiredIdentity := d, keyring := k, cookieId := id, challenge := c }.reject
        rejectedLine) := by
    intro i c d id k
    have h := reject_cookie { auth with identity := i, desiredIdentity := d, keyring := k }
      rejectedLine c id hm
    exact h ▸ .rejected .cookieSha1 k
  refine takeIdentity_lands hs (fun _ _ => ⟨trivial, rfl, hrj _ _ _ _ _⟩) fun i hi => ?_
  refine (addFromUser_lands _ data).bind_true fun b hb => ?_
  rcases hb with ⟨rfl, -⟩ | ⟨u, hu, rfl⟩
  · exact sendRejected_moves hs (hrj _ _ _ _ _)
  -- the keyring is the cached one or loaded
  have hsn : ∀ keyring, KeyringOf env auth (auth.desiredIdentity.addUser u) keyring →
      Moves True (sha1SendChallenge env { auth with
        identity := i
        challenge := []
        desiredIdentity := auth.desiredIdentity.addUser u
        keyring := some keyring } keyring) (DataMove env auth data .cookieSha1) := by
    intro keyring hk
    exact sha1SendChallenge_moves hs (fun _ _ => hrj _ _ _ _ _) fun id keyring' hb hid =>
      .challenged i u id keyring keyring' hc hi hu hk hb hid
  refine .withMemory ?_
  cases hcc : cachedKeyring { auth with
      identity := i, challenge := [], desiredIdentity := auth.desiredIdentity.addUser u } with
  | some keyring =>
    have hk := Option.filter_eq_some_iff.1 hcc
    exact hsn keyring (.inl hk)
  | none =>
    refine (keyringNewForCredentials_lands _ _).bind_true fun b hb => ?_
    rcases hb with ⟨rfl, -⟩ | ⟨keyring, hk, rfl⟩
    · exact sendRejected_moves hs (hrj _ _ _ _ _)
    · exact hsn keyring (.inr hk)

/-- Data of the client in which no line break stands behind the first blanks. -/
def DataFine (data : List UInt8) : Prop :=
  firstBlank data 0 < data.length → SkipFine data (firstBlank data 0)

theorem sha1ComputeHash_lands (hk : auth.keyring = some keyring) (id : ℤ)
    (serverChallenge clientChallenge : List UInt8) :
    Lands e True (sha1ComputeHash env auth id serverChallenge clientChallenge) fun r =>
      (keyring.getHexKey id = [] ∧ r = some []) ∨
        (keyring.getHexKey id ≠ [] ∧ r = some (env.sha (serverChallenge ++ asciiBytes ":" ++
          clientChallenge ++ asciiBytes ":" ++ keyring.getHexKey id))) := by
  have hv : valueOr Stop.assertion auth.keyring = .ok keyring := by rw [hk, valueOr_some]
  refine (lands_lift_ok hv).bind_eq ?_
  refine .withMemory (.ite (fun h => lands_pure (.inl ⟨h, rfl⟩)) fun h => .withMemory ?_)
  exact lands_pure (.inr ⟨h, rfl⟩)

section
variable (hs : auth.side = .server)
include hs

theorem sha1CheckHash_moves (hc : 0 ≤ auth.cookieId) (hk : auth.keyring = some keyring)
    {clientChallenge clientHash : List UInt8}
    (hcc : clientChallenge = data.take (firstBlank data 0))
    (hch : clientHash = data.drop (behindBlanks data (firstBlank data 0))) :
    Moves True (sha1CheckHash env auth clientChallenge clientHash)
      (DataMove env auth data .cookieSha1) := by
  have hrj : DataMove env auth data .cookieSha1 (auth.reject rejectedLine) :=
    .rejected .cookieSha1 auth.keyring
  refine (sha1ComputeHash_lands hk ..).bind_true fun r hr => ?_
  rcases hr with ⟨-, rfl⟩ | ⟨hne, rfl⟩
  · exact .ite (fun _ => sendRejected_moves hs hrj) fun hn => absurd rfl hn
  · refine .ite (fun _ => sendRejected_moves hs hrj) fun _ => ?_
    refine .ite (fun _ => sendRejected_moves hs hrj) fun heq => ?_
    refine authorize_moves ?_
    exact .cookie keyring clientChallenge hc hk hne hcc (hch ▸ not_not.1 heq)

theorem sha1HandleSecondClientResponse_moves (hc : 0 ≤ auth.cookieId) (hk : auth.keyring ≠ none) :
    Moves (DataFine data) (sha1HandleSecondClientResponse env auth data)
      (DataMove env auth data .cookieSha1) := by
  have hrj : DataMove env auth data .cookieSha1 (auth.reject rejectedLine) :=
    .rejected .cookieSha1 auth.keyring
  obtain ⟨keyring, hk⟩ := Option.ne_none_iff_exists'.1 hk
  have hle : firstBlank data 0 ≤ data.length := firstBlank_le (Nat.zero_le _)
  refine (lands_lift_ok (findBlank_eq (Nat.zero_le _))).bind_eq ?_
  refine .ite (fun hf => ?_) fun hf => .withMemory ?_
  · have hfn : DataFine data := fun h => absurd h (of_decide_eq_false hf)
    exact (sendRejected_moves hs hrj).congr ⟨fun _ => hfn, fun _ => trivial⟩
  · have hlt : firstBlank data 0 < data.length := by simpa using hf
    refine (lands_lift_ok (copyLen_start hle)).bind_eq ?_
    have hfn : SkipFine data (firstBlank data 0) ∧ True ↔ DataFine data :=
      ⟨fun h _ => h.1, fun h => ⟨h hlt, trivial⟩⟩
    refine .congr ((lands_lift (skipBlank_decides hle)).bind ?_) hfn
    · rintro - i rfl
      refine (lands_lift_ok (copyLen_rest (behindBlanks_le hle))).bind_eq ?_
      exact .ite (fun _ => sendRejected_moves hs hrj) fun _ => sha1CheckHash_moves hs hc hk rfl rfl

theorem handleServerDataAnonymousMech_moves :
    Moves True (handleServerDataAnonymousMech auth data) (DataMove env auth data .anonymous) := by
  have hv := stringValidateUtf8_eq rfl (Memory.holds_append.1 (holds_ofBytes data)).1
  refine (lands_lift_ok hv).bind_eq ?_
  refine .ite (fun _ => .withMemory (sendRejected_moves hs ?_)) fun _ => ?_
  · exact .rejected .anonymous auth.keyring
  · refine authorize_moves ?_
    exact .anonymous

end

/-! ## Lines for the server -/

def commandOf (line : List UInt8) : AuthCommand :=
  lookupCommandFromName (line.take (firstBlank line 0))

def argsOf (line : List UInt8) : List UInt8 := line.drop (behindBlanks line (firstBlank line 0))

theorem findMech_name {name : List UInt8} {allowedMechs : Option (List (List UInt8))}
    (h : findMech name allowedMechs = some m) : m.name = name := by
  rw [findMech] at h
  split at h
  · cases h
  · simpa using List.find?_some h

/-- The line carries data for a mechanism: it starts one, or goes on with the one in use. -/
def Response (auth : DBusAuth) (line : List UInt8) (m : Mechanism) (data : List UInt8) : Prop :=
  (auth.state = .serverWaitingForAuth ∧ commandOf line = .auth ∧
    findMech ((argsOf line).take (firstBlank (argsOf line) 0)) auth.allowedMechs = some m ∧
    data = (hexDecode ((argsOf line).drop
      (behindBlanks (argsOf line) (firstBlank (argsOf line) 0)))).1) ∨
  (auth.state = .serverWaitingForData ∧ commandOf line = .data ∧ auth.mech = some m ∧
    data = (hexDecode (argsOf line)).1)

def OneLine (message : String) : Prop := 0x0d ∉ asciiBytes message

instance (message : String) : Decidable (OneLine message) :=
  inferInstanceAs (Decidable (0x0d ∉ asciiBytes message))

/-- What the server makes of a line. -/
inductive ServerMove (env : AuthEnv) (auth : DBusAuth) (line : List UInt8) : DBusAuth → Prop
  | error (m : Option Mechanism) (message : String) : OneLine message →
    (auth.state = .serverWaitingForAuth ∨ m = auth.mech) →
    ServerMove env auth line ({ auth with mech := m }.send (errorLine message))
  | rejected (m : Option Mechanism) : (auth.state = .serverWaitingForAuth ∨ m = auth.mech) →
    ServerMove env auth line ({ auth with mech := m }.reject rejectedLine)
  | data (m : Mechanism) (data : List UInt8) (auth' : DBusAuth) : Response auth line m data →
    DataMove env { auth with mech := some m } data m auth' → ServerMove env auth line auth'
  | begun : auth.state = .serverWaitingForBegin → commandOf line = .begin →
    ServerMove env auth line (auth.gotoState .authenticated)
  | dropped : auth.state ≠ .serverWaitingForBegin → commandOf line = .begin →
    ServerMove env auth line (auth.gotoState .needDisconnect)

/-- What holds of the conversation of a server all the time. -/
structure ServerOk (auth : DBusAuth) : Prop where
  side : auth.side = .server
  state : auth.state ∈ [.serverWaitingForAuth, .serverWaitingForData, .serverWaitingForBegin,
    AuthStateData.authenticated, .needDisconnect]
  waitingForAuth : auth.state = .serverWaitingForAuth → auth.cookieId < 0
  waitingForData : auth.state = .serverWaitingForData →
    ∃ m, auth.mech = some m ∧ (m = .cookieSha1 → 0 ≤ auth.cookieId)
  keyring : 0 ≤ auth.cookieId → auth.keyring ≠ none
  cookie : 0 ≤ auth.cookieId → auth.mech = some .cookieSha1

/-- No line break stands behind blanks where the server skips them: behind the command, the
    name of a mechanism, and the challenge of the client. -/
def ServerFine (auth : DBusAuth) (line : List UInt8) : Prop :=
  validateAscii line = true → SkipFine line (firstBlank line 0) ∧
    (auth.state = .serverWaitingForAuth → commandOf line = .auth →
      SkipFine (argsOf line) (firstBlank (argsOf line) 0)) ∧
    (auth.state = .serverWaitingForData → commandOf line = .data →
      auth.mech = some .cookieSha1 → (hexDecode (argsOf line)).2 = (argsOf line).length →
      DataFine (hexDecode (argsOf line)).1)

theorem serverDataFunc_moves (auth : DBusAuth) (hs : auth.side = .server)
    (hm : auth.mech = some m) (hk : 0 ≤ auth.cookieId → auth.keyring ≠ none) :
    Moves (m = .cookieSha1 → 0 ≤ auth.cookieId → DataFine data) (m.serverDataFunc env auth data)
      (DataMove env auth data m) := by
  cases m with
  | external =>
    exact (handleServerDataExternalMech_moves hs).congr ⟨nofun, fun _ => trivial⟩
  | anonymous =>
    exact (handleServerDataAnonymousMech_moves hs).congr ⟨nofun, fun _ => trivial⟩
  | cookieSha1 =>
    refine .ite (fun hc => ?_) fun hc => ?_
    · exact (sha1HandleFirstClientResponse_moves hs hc hm).congr
        ⟨fun _ _ h => absurd hc (not_lt.2 h), fun _ => trivial⟩
    · have hc := not_lt.1 hc
      exact (sha1HandleSecondClientResponse_moves hs hc (hk hc)).congr
        ⟨fun h _ _ => h, fun h => h rfl hc⟩

theorem processData_moves {args : List UInt8} {dataFunc : DBusAuth → List UInt8 → AuthStep}
    (her : M (auth.send (errorLine "Invalid hex encoding")))
    (hdt : (hexDecode args).2 = args.length → Moves c (dataFunc auth (hexDecode args).1) M) :
    Moves ((hexDecode args).2 = args.length → c) (processData auth args dataFunc) M := by
  refine .withMemory (.ite (fun h => ?_) fun h => ?_)
  · exact (sendError_moves her).congr ⟨fun _ h' => absurd h'.symm h, fun _ => trivial⟩
  · have h := (not_not.1 h).symm
    exact (hdt h).congr ⟨fun hc _ => hc, fun hc => hc h⟩

theorem orForgetMech_moves {x : AuthStep} (h : Moves c x M) : Moves c (orForgetMech x) M := by
  refine .congr (h.bind (d := True) fun _ b hb => ?_) (Iff.of_eq (and_true c))
  obtain ⟨ok, auth'⟩ := b
  obtain ⟨rfl : ok = true, hM⟩ := hb
  exact lands_done ⟨rfl, hM⟩

section
variable {line : List UInt8}

theorem ServerMove.send {message : String} (h : OneLine message) :
    ServerMove env auth line (auth.send (errorLine message)) :=
  .error auth.mech message h (.inr rfl)

theorem ServerMove.reject : ServerMove env auth line (auth.reject rejectedLine) :=
  .rejected auth.mech (.inr rfl)

theorem vacuous {a p : Prop} (h : ¬ a) : True ↔ (a → p) := iff_of_true trivial (absurd · h)

/-- A line is left to the state once the blanks behind the command are skipped. -/
theorem handler_moves {st : AuthStateData} (hac : validateAscii line = true)
    (hst : auth.state = st) (h : Moves c (st.handler env auth (commandOf line) (argsOf line)) M) :
    Moves (SkipFine line (firstBlank line 0) ∧ c) (processLine env auth line) M := by
  have hle : firstBlank line 0 ≤ line.length := firstBlank_le (Nat.zero_le _)
  subst hst
  rw [processLine, if_neg (by simp [hac])]
  refine (lands_lift_ok (findBlank_eq (Nat.zero_le _))).bind_eq ?_
  refine (lands_lift (skipBlank_decides hle)).bind ?_
  rintro - i rfl
  exact .withMemory h

section
variable (hok : ServerOk auth)
include hok

section
variable (hst : auth.state = .serverWaitingForAuth)
include hst

theorem handleAuth_moves (hcm : commandOf line = .auth) :
    Moves (SkipFine (argsOf line) (firstBlank (argsOf line) 0)) (handleAuth env auth (argsOf line))
      (ServerMove env auth line) := by
  obtain ⟨args, har⟩ : ∃ args, args = argsOf line := ⟨_, rfl⟩
  rw [← har]
  have hle : firstBlank args 0 ≤ args.length := firstBlank_le (Nat.zero_le _)
  refine .ite (fun h => ?_) fun h => ?_
  · have hfi : SkipFine args (firstBlank args 0) := by
      rw [h]
      decide +kernel
    exact (sendRejected_moves hok.side .reject).congr ⟨fun _ => hfi, fun _ => trivial⟩
  · refine (lands_lift_ok (findBlank_eq (Nat.zero_le _))).bind_eq ?_
    refine .withMemory (.withMemory ?_)
    refine (lands_lift_ok (copyLen_start hle)).bind_eq ?_
    refine .congr ((lands_lift (skipBlank_decides hle)).bind (d := True) ?_)
      (Iff.of_eq (and_true _))
    rintro - i rfl
    refine (lands_lift_ok (copyLen_rest (behindBlanks_le hle))).bind_eq ?_
    cases hfn : findMech (args.take (firstBlank args 0)) auth.allowedMechs with
    | none => exact orForgetMech_moves (sendRejected_moves hok.side (.rejected none (.inl hst)))
    | some m =>
      have hng := hok.waitingForAuth hst
      have hdt : Moves True (m.serverDataFunc env { auth with mech := some m }
          (hexDecode (args.drop (behindBlanks args (firstBlank args 0)))).1)
          (ServerMove env auth line) := by
        refine .congr (c := m = .cookieSha1 → 0 ≤ auth.cookieId → DataFine _)
          ((serverDataFunc_moves { auth with mech := some m } hok.side rfl hok.keyring).mono
            fun b hb => And.intro hb.1 ?_)
          ⟨fun _ => trivial, fun _ _ h => absurd hng (not_lt.2 h)⟩
        exact .data m _ _ (.inl ⟨hst, hcm, har ▸ hfn, har ▸ rfl⟩) hb.2
      exact (orForgetMech_moves (processData_moves (M := ServerMove env auth line)
        (.error (some m) _ (by decide) (.inl hst)) fun _ => hdt)).congr ⟨fun _ => trivial, fun _ _ => trivial⟩

theorem handleServerStateWaitingForAuth_moves :
    Moves (commandOf line = .auth → SkipFine (argsOf line) (firstBlank (argsOf line) 0))
      (handleServerStateWaitingForAuth env auth (commandOf line) (argsOf line))
      (ServerMove env auth line) := by
  have hne : auth.state ≠ .serverWaitingForBegin := by
    rw [hst]
    decide
  cases hcm : commandOf line with
  | auth => exact (handleAuth_moves hok hst hcm).congr ⟨fun h _ => h, fun h => h rfl⟩
  | begin => exact (lands_done ⟨rfl, .dropped hne hcm⟩).congr (vacuous (by decide))
  | error =>
    exact (sendRejected_moves hok.side .reject).congr (vacuous (by decide))
  | _ => exact (sendError_moves (.send (by decide))).congr (vacuous (by decide))

end

theorem handleServerStateWaitingForData_moves (hst : auth.state = .serverWaitingForData) :
    Moves (commandOf line = .data → auth.mech = some .cookieSha1 →
        (hexDecode (argsOf line)).2 = (argsOf line).length → DataFine (hexDecode (argsOf line)).1)
      (handleServerStateWaitingForData env auth (commandOf line) (argsOf line))
      (ServerMove env auth line) := by
  have hne : auth.state ≠ .serverWaitingForBegin := by
    rw [hst]
    decide
  cases hcm : commandOf line with
  | data =>
    obtain ⟨m, hm, hc⟩ := hok.waitingForData hst
    have hv : valueOr Stop.outside auth.mech = .ok m := by rw [hm, valueOr_some]
    refine (lands_lift_ok hv).bind_eq ?_
    have hsl : { auth with mech := some m } = auth := by rw [← hm]
    refine .congr (processData_moves (.send (by decide)) fun hx => (serverDataFunc_moves auth hok.side hm
      hok.keyring).mono fun r hr => ⟨hr.1, ?_⟩) ?_
    · exact .data m _ _ (.inr ⟨hst, hcm, hm, rfl⟩) (hsl.symm ▸ hr.2)
    · rw [hm]
      constructor
      · intro h _ hb hx
        obtain rfl := Option.some.inj hb
        exact h hx rfl (hc rfl)
      · intro h hx hb _
        exact h rfl (by rw [hb]) hx
  | cancel => exact (sendRejected_moves hok.side .reject).congr (vacuous (by decide))
  | begin => exact (lands_done ⟨rfl, .dropped hne hcm⟩).congr (vacuous (by decide))
  | error => exact (sendRejected_moves hok.side .reject).congr (vacuous (by decide))
  | _ => exact (sendError_moves (.send (by decide))).congr (vacuous (by decide))

theorem handleServerStateWaitingForBegin_moves (hst : auth.state = .serverWaitingForBegin) :
    Moves True (handleServerStateWaitingForBegin auth (commandOf line)) (ServerMove env auth line) := by
  cases hcm : commandOf line with
  | begin => exact lands_done ⟨rfl, .begun hst hcm⟩
  | cancel | error => exact sendRejected_moves hok.side .reject
  | _ => exact sendError_moves (.send (by decide))

/-- **A line on the server**: it trips an assertion or is one of the moves. -/
theorem processLine_server (hend : auth.state.inEndState = false) :
    Moves (ServerFine auth line) (processLine env auth line) (ServerMove env auth line) := by
  by_cases hac : validateAscii line = true
  · rcases (by simpa using hok.state : _ ∨ _ ∨ _ ∨ _ ∨ _) with hst | hst | hst | hst | hst
    · exact (handler_moves hac hst (handleServerStateWaitingForAuth_moves hok hst)).congr
        (by simp [ServerFine, hac, hst])
    · exact (handler_moves hac hst (handleServerStateWaitingForData_moves hok hst)).congr
        (by simp [ServerFine, hac, hst])
    · exact (handler_moves hac hst (handleServerStateWaitingForBegin_moves hok hst)).congr
        (by simp [ServerFine, hac, hst])
    · rw [hst] at hend
      cases hend
    · rw [hst] at hend
      cases hend
  · rw [processLine, if_pos (by simpa using hac)]
    exact (sendError_moves (.send (by decide))).congr (vacuous hac)

end

end

end

end DBus
