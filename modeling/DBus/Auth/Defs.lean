/-
  The authentication conversation (dbus-auth.c): the states of both sides, the mechanisms
  and the loop of `_dbus_auth_do_work`.

  A function of the source that returns whether there was memory returns that truth
  value with the conversation as it leaves it.  Allocations that follow each other with
  nothing kept in between are one allocation here.
-/
import DBus.Auth.Credentials

namespace DBus

open Outcome Alloc

/-! ## Conversations -/

/-- The mechanisms, in the order of `all_mechanisms`. -/
inductive Mechanism where
  | external | cookieSha1 | anonymous
deriving DecidableEq, Repr

/-- `all_mechanisms` -/
def allMechanisms : List Mechanism := [.external, .cookieSha1, .anonymous]

def Mechanism.name : Mechanism → List UInt8
  | .external => asciiBytes "EXTERNAL"
  | .cookieSha1 => asciiBytes "DBUS_COOKIE_SHA1"
  | .anonymous => asciiBytes "ANONYMOUS"

/-- The side of a conversation. -/
inductive AuthSide where
  | client | server
deriving DecidableEq, Repr

/-- `DBusAuthStateData`: the states of the server, of the client, and the common ones. -/
inductive AuthStateData where
  | serverWaitingForAuth | serverWaitingForData | serverWaitingForBegin
  | clientNeedSendAuth | clientWaitingForData | clientWaitingForOk | clientWaitingForReject
  | authenticated | needDisconnect
deriving DecidableEq, Repr

/-- `DBusAuthCommand` -/
inductive AuthCommand where
  | auth | cancel | data | begin | rejected | ok | error | unknown
deriving DecidableEq, Repr

/-- `auth_command_names` -/
def authCommandNames : List (List UInt8 × AuthCommand) :=
  [(asciiBytes "AUTH", .auth), (asciiBytes "CANCEL", .cancel), (asciiBytes "DATA", .data),
    (asciiBytes "BEGIN", .begin), (asciiBytes "REJECTED", .rejected), (asciiBytes "OK", .ok),
    (asciiBytes "ERROR", .error)]

/-- `lookup_command_from_name` -/
def lookupCommandFromName (command : List UInt8) : AuthCommand :=
  match authCommandNames.find? (·.1 = command) with
  | some (_, c) => c
  | none => .unknown

/-- `DBusAuth`, with the members of both sides. -/
structure DBusAuth where
  side : AuthSide
  incoming : List UInt8
  outgoing : List UInt8
  state : AuthStateData
  mech : Option Mechanism
  identity : List UInt8
  credentials : DBusCredentials
  authorizedIdentity : DBusCredentials
  desiredIdentity : DBusCredentials
  context : List UInt8
  keyring : Option DBusKeyring
  cookieId : ℤ
  challenge : List UInt8
  allowedMechs : Option (List (List UInt8))
  neededMemory : Bool
  alreadyGotMechanisms : Bool
  alreadyAskedForInitialResponse : Bool
  mechsToTry : List Mechanism
  guidFromServer : List UInt8
  failures : ℕ
  maxFailures : ℕ
  guid : List UInt8
deriving DecidableEq, Repr

/-- A function on a conversation: whether there was memory, and the conversation. -/
abbrev AuthStep := Alloc Stop (Bool × DBusAuth)

/-- Return `TRUE`. -/
def done (auth : DBusAuth) : AuthStep := pure (true, auth)

/-- Return `FALSE`. -/
def noMemory (auth : DBusAuth) : AuthStep := pure (false, auth)

/-- Go on with `k` if there was memory. -/
def AuthStep.andThen (x : AuthStep) (k : DBusAuth → AuthStep) : AuthStep := do
  let (ok, auth) ← x
  if ok then k auth else noMemory auth

/-! ## Sending -/

namespace DBusAuth

section
variable (auth : DBusAuth)

def send (bytes : List UInt8) : DBusAuth :=
  { auth with outgoing := auth.outgoing ++ bytes }

/-- `goto_state` -/
def gotoState (state : AuthStateData) : DBusAuth := { auth with state := state }

/-- The shutdown function of a mechanism, the same on both sides. -/
def shutdownFunc : Mechanism → DBusAuth
  | .cookieSha1 => { auth with cookieId := -1, challenge := [] }
  | .external => auth
  | .anonymous => auth

/-- `shutdown_mech` -/
def shutdownMech : DBusAuth :=
  let auth := { auth with
    alreadyAskedForInitialResponse := false
    identity := []
    authorizedIdentity := .empty
    desiredIdentity := .empty }
  match auth.mech with
  | some m => { auth.shutdownFunc m with mech := none }
  | none => auth

/-- What `send_rejected` does once there is memory for the line. -/
def reject (line : List UInt8) : DBusAuth :=
  let auth := (auth.send line).shutdownMech
  let auth := { auth with failures := auth.failures + 1 }
  if auth.failures ≥ auth.maxFailures then auth.gotoState .needDisconnect
  else auth.gotoState .serverWaitingForAuth

end

end DBusAuth

/-- The line of `send_rejected`: it lists all mechanisms, also those not allowed. -/
def rejectedLine : List UInt8 :=
  asciiBytes "REJECTED" ++ allMechanisms.flatMap (fun m => 0x20 :: m.name) ++ crlf

/-- `send_rejected` -/
def sendRejected (auth : DBusAuth) : AuthStep :=
  withMemory (noMemory auth) do
    lift (assert (auth.side = .server))
    done (auth.reject rejectedLine)

/-- The line of `send_error`. -/
def errorLine (message : String) : List UInt8 :=
  asciiBytes "ERROR \"" ++ asciiBytes message ++ asciiBytes "\"" ++ crlf

/-- `send_error` -/
def sendError (auth : DBusAuth) (message : String) : AuthStep :=
  withMemory (noMemory auth) (done (auth.send (errorLine message)))

/-- The line of `send_data`. -/
def dataLine (data : List UInt8) : List UInt8 :=
  if data = [] then asciiBytes "DATA" ++ crlf else asciiBytes "DATA " ++ hexEncode data ++ crlf

/-- The appends of a line in pieces.  If one of them fails, `outgoing` gets its old length. -/
def sendPieces (oldLen : ℕ) : List (List UInt8) → DBusAuth → AuthStep
  | [], auth => done auth
  | piece :: pieces, auth =>
    withMemory (noMemory { auth with outgoing := auth.outgoing.take oldLen })
      (sendPieces oldLen pieces (auth.send piece))

/-- `send_data` -/
def sendData (auth : DBusAuth) (data : List UInt8) : AuthStep :=
  if data = [] then withMemory (noMemory auth) (done (auth.send (asciiBytes "DATA" ++ crlf)))
  else sendPieces auth.outgoing.length [asciiBytes "DATA ", hexEncode data, crlf] auth

/-- The line of `send_ok`. -/
def okLine (guid : List UInt8) : List UInt8 := asciiBytes "OK " ++ guid ++ crlf

/-- `send_ok` -/
def sendOk (auth : DBusAuth) : AuthStep :=
  (sendPieces auth.outgoing.length [asciiBytes "OK ", auth.guid, crlf] auth).andThen
    fun auth => done (auth.gotoState .serverWaitingForBegin)

/-- The line of `send_begin`. -/
def beginLine : List UInt8 := asciiBytes "BEGIN" ++ crlf

/-- `send_begin`: `guid_from_server` is empty again if an allocation fails -/
def sendBegin (auth : DBusAuth) (argsFromOk : List UInt8) : AuthStep := do
  lift (assert (auth.guidFromServer = []))
  withMemory (noMemory auth) (
    let endOfHex := (hexDecode argsFromOk).2
    if endOfHex ≠ argsFromOk.length ∨ endOfHex = 0 then done (auth.gotoState .needDisconnect)
    else withMemory (noMemory auth) (
      let auth := { auth with guidFromServer := argsFromOk }
      withMemory (noMemory { auth with guidFromServer := [] })
        (done ((auth.send beginLine).gotoState .authenticated))))

/-- `send_cancel` -/
def sendCancel (auth : DBusAuth) : AuthStep :=
  withMemory (noMemory auth)
    (done ((auth.send (asciiBytes "CANCEL" ++ crlf)).gotoState .clientWaitingForReject))

/-! ## The server's mechanisms -/

/-- Take the data of the first response for the identity, unless there is one. -/
def takeIdentity (auth : DBusAuth) (data : List UInt8) (k : DBusAuth → AuthStep) : AuthStep :=
  if data = [] then k auth
  else if auth.identity ≠ [] then sendRejected auth
  else withMemory (noMemory auth) (k { auth with identity := data })

section
variable (desired socket : DBusCredentials)

/-- What EXTERNAL adds to the authorized identity: the desired identity, and the process and
    the audit data of the socket. -/
def externalGrant : List (DBusCredentialType × DBusCredentials) :=
  desired.all ++ [(.unixProcessId, socket), (.adtAuditDataId, socket)]

/-- What DBUS_COOKIE_SHA1 adds: the desired identity, and the process of the socket. -/
def cookieGrant : List (DBusCredentialType × DBusCredentials) :=
  desired.all ++ [(.unixProcessId, socket)]

end

/-- What ANONYMOUS adds: the process of the socket. -/
def anonymousGrant (socket : DBusCredentials) : List (DBusCredentialType × DBusCredentials) :=
  [(.unixProcessId, socket)]

/-- Add credentials to the authorized identity, and send OK. -/
def authorize (auth : DBusAuth) (l : List (DBusCredentialType × DBusCredentials)) : AuthStep := do
  let (ok, c) ← DBusCredentials.addAll l auth.authorizedIdentity
  let auth := { auth with authorizedIdentity := c }
  if ok then sendOk auth else noMemory auth

/-- The end of `handle_server_data_external_mech`: what is asked for has to be in the
    credentials of the socket. -/
def externalAuthorize (auth : DBusAuth) : AuthStep :=
  if auth.desiredIdentity.areAnonymous then sendRejected auth
  else if auth.credentials.areSuperset auth.desiredIdentity then
    authorize auth (externalGrant auth.desiredIdentity auth.credentials)
  else sendRejected auth

section
variable (env : AuthEnv) (auth : DBusAuth)

/-- The desired identity of `handle_server_data_external_mech`. -/
def externalDesired : AuthStep :=
  let auth := { auth with desiredIdentity := .empty }
  if auth.identity = [] then do
    let (ok, c) ← auth.desiredIdentity.addCredentials auth.credentials
    let auth := { auth with desiredIdentity := c }
    if ok then externalAuthorize auth else noMemory auth
  else do
    let (ok, c) ← env.addFromUser auth.desiredIdentity auth.identity
    let auth := { auth with desiredIdentity := c }
    if ok then externalAuthorize auth else sendRejected auth

/-- `handle_server_data_external_mech` -/
def handleServerDataExternalMech (data : List UInt8) : AuthStep :=
  if auth.credentials.areAnonymous then sendRejected auth
  else takeIdentity auth data fun auth =>
    -- poke the client for an identity, once
    if auth.identity = [] ∧ auth.alreadyAskedForInitialResponse = false then
      (sendData auth []).andThen fun auth =>
        done ({ auth with alreadyAskedForInitialResponse := true }.gotoState .serverWaitingForData)
    else externalDesired env auth

/-- `sha1_compute_hash`: `none` without memory, the empty hash for an unknown cookie. -/
def sha1ComputeHash (cookieId : ℤ) (serverChallenge clientChallenge : List UInt8) :
    Alloc Stop (Option (List UInt8)) := do
  let keyring ← lift (valueOr .assertion auth.keyring)
  withMemory (pure none) (
    let cookie := keyring.getHexKey cookieId
    if cookie = [] then pure (some [])
    else withMemory (pure none) (pure (some (env.sha
      (serverChallenge ++ asciiBytes ":" ++ clientChallenge ++ asciiBytes ":" ++ cookie)))))

end

/-- The cached keyring, unless it is that of another user. -/
def cachedKeyring (auth : DBusAuth) : Option DBusKeyring :=
  auth.keyring.filter (·.isForCredentials auth.desiredIdentity)

/-- What `sha1_handle_first_client_response` sends: the context, the id of the cookie and
    the challenge. -/
def challengeData (auth : DBusAuth) (challenge : List UInt8) : List UInt8 :=
  auth.context ++ asciiBytes " " ++ asciiBytes (toString auth.cookieId) ++ asciiBytes " " ++ challenge

section
variable (env : AuthEnv)

/-- The end of `sha1_handle_first_client_response`, with a keyring. -/
def sha1SendChallenge (auth : DBusAuth) (keyring : DBusKeyring) : AuthStep := do
  let (id, keyring) ← env.keyringGetBestKey keyring
  let auth := { auth with keyring := some keyring, cookieId := id }
  if id < 0 then sendRejected auth
  else withMemory (noMemory auth) (
    let auth := { auth with challenge := hexEncode env.randomBytes }
    (sendData auth (challengeData auth auth.challenge)).andThen fun auth =>
      done (auth.gotoState .serverWaitingForData))

/-- `sha1_handle_first_client_response` behind the identity. -/
def sha1FirstRest (data : List UInt8) (auth : DBusAuth) : AuthStep := do
  let (ok, c) ← env.addFromUser auth.desiredIdentity data
  let auth := { auth with desiredIdentity := c }
  if ok = false then sendRejected auth
  else withMemory (noMemory auth) (
    let auth := { auth with keyring := cachedKeyring auth }
    match auth.keyring with
    | some keyring => sha1SendChallenge env auth keyring
    | none => do
      match ← env.keyringNewForCredentials (some auth.desiredIdentity) auth.context with
      | .ok keyring => sha1SendChallenge env { auth with keyring := some keyring } keyring
      | .error true => noMemory auth
      | .error false => sendRejected auth)

section
variable (auth : DBusAuth)

/-- `sha1_handle_first_client_response` -/
def sha1HandleFirstClientResponse (data : List UInt8) : AuthStep :=
  takeIdentity { auth with challenge := [] } data (sha1FirstRest env data)

/-- The end of `sha1_handle_second_client_response`: compare the hashes. -/
def sha1CheckHash (clientChallenge clientHash : List UInt8) : AuthStep := do
  match ← sha1ComputeHash env auth auth.cookieId auth.challenge clientChallenge with
  | none => noMemory auth
  | some correctHash =>
    if correctHash = [] then sendRejected auth
    else if clientHash ≠ correctHash then sendRejected auth
    else authorize auth (cookieGrant auth.desiredIdentity auth.credentials)

/-- `sha1_handle_second_client_response` -/
def sha1HandleSecondClientResponse (data : List UInt8) : AuthStep := do
  let (found, i) ← lift (findBlank data 0)
  if found = false then sendRejected auth
  else withMemory (noMemory auth) do
    let clientChallenge ← lift (copyLen data 0 i)
    let i ← lift (skipBlank data i)
    let clientHash ← lift (copyLen data i (data.length - i))
    if clientChallenge = [] ∨ clientHash = [] then sendRejected auth
    else sha1CheckHash env auth clientChallenge clientHash

/-- `handle_server_data_cookie_sha1_mech` -/
def handleServerDataCookieSha1Mech (data : List UInt8) : AuthStep :=
  if auth.cookieId < 0 then sha1HandleFirstClientResponse env auth data
  else sha1HandleSecondClientResponse env auth data

end

end

/-- `handle_server_data_anonymous_mech`; the string for the message about trace data that
    is not UTF-8 is used without a look at whether it could be initialised. -/
def handleServerDataAnonymousMech (auth : DBusAuth) (data : List UInt8) : AuthStep := do
  let valid ← lift (stringValidateUtf8 (.ofBytes data) 0 data.length)
  if valid = false then withMemory (lift (.error .outside)) (sendRejected auth)
  else
    let auth := { auth with desiredIdentity := .empty }
    authorize auth (anonymousGrant auth.credentials)

def Mechanism.serverDataFunc (env : AuthEnv) : Mechanism → DBusAuth → List UInt8 → AuthStep
  | .external => handleServerDataExternalMech env
  | .cookieSha1 => handleServerDataCookieSha1Mech env
  | .anonymous => handleServerDataAnonymousMech

/-! ## The client's mechanisms -/

section
variable (env : AuthEnv)

/-- The initial response of the client, in hexadecimal. -/
def Mechanism.initialResponse : Mechanism → List UInt8
  | .external => hexEncode env.currentUser
  | .cookieSha1 => hexEncode env.currentUser
  | .anonymous => hexEncode (asciiBytes "libdbus 1.2.12")

/-- The line of `send_auth`. -/
def authLine (mech : Mechanism) : List UInt8 :=
  asciiBytes "AUTH " ++ mech.name ++ asciiBytes " " ++ mech.initialResponse env ++ crlf

section
variable (auth : DBusAuth)

/-- `send_auth` -/
def sendAuth (mech : Mechanism) : AuthStep :=
  withMemory (noMemory auth)
    (done ({ (auth.send (authLine env mech)).shutdownMech with mech := some mech }.gotoState
      .clientWaitingForData))

/-- The end of `handle_client_data_cookie_sha1_mech`: answer the challenge. -/
def cookieAnswer (val : ℤ) (serverChallenge : List UInt8) : AuthStep :=
  withMemory (noMemory auth) (
    let clientChallenge := hexEncode env.randomBytes
    do
    match ← sha1ComputeHash env auth (val.bmod (2 ^ 32)) serverChallenge clientChallenge with
    | none => noMemory auth
    | some correctHash =>
      if correctHash = [] then sendError auth "Don't have the requested cookie ID"
      else
        withMemory (noMemory auth) (sendData auth (clientChallenge ++ asciiBytes " " ++ correctHash)))

/-- The checks of `handle_client_data_cookie_sha1_mech` on what the server sent. -/
def cookieCheck (context cookieIdStr serverChallenge : List UInt8) : AuthStep :=
  if keyringValidateContext context = false then sendError auth "Server sent invalid cookie context"
  else match env.strtol cookieIdStr with
  | none => sendError auth "Could not parse cookie ID as an integer"
  | some val =>
    if serverChallenge = [] then sendError auth "Empty server challenge string"
    else match auth.keyring with
    | some _ => cookieAnswer env auth val serverChallenge
    | none => do
      match ← env.keyringNewForCredentials none context with
      | .ok keyring => cookieAnswer env { auth with keyring := some keyring } val serverChallenge
      | .error true => noMemory auth
      | .error false => sendError auth "Could not load cookie file"

/-- `handle_client_data_cookie_sha1_mech` -/
def handleClientDataCookieSha1Mech (data : List UInt8) : AuthStep := do
  let (found, i) ← lift (findBlank data 0)
  if found = false then sendError auth "Server did not send context/ID/challenge properly"
  else withMemory (noMemory auth) do
    let context ← lift (copyLen data 0 i)
    let i ← lift (skipBlank data i)
    let (found, j) ← lift (findBlank data i)
    if found = false then sendError auth "Server did not send context/ID/challenge properly"
    else withMemory (noMemory auth) do
      let cookieIdStr ← lift (copyLen data i (j - i))
      let i ← lift (skipBlank data j)
      let serverChallenge ← lift (copyLen data i (data.length - i))
      cookieCheck env auth context cookieIdStr serverChallenge

end

def Mechanism.clientDataFunc : Mechanism → DBusAuth → List UInt8 → AuthStep
  | .external => fun auth _ => done auth
  | .cookieSha1 => handleClientDataCookieSha1Mech env
  | .anonymous => fun auth _ => done auth

end

/-! ## Commands -/

/-- `find_mech` -/
def findMech (name : List UInt8) (allowedMechs : Option (List (List UInt8))) : Option Mechanism :=
  if ∃ allowed ∈ allowedMechs, name ∉ allowed then none
  else allMechanisms.find? (·.name = name)

/-- `process_data` -/
def processData (auth : DBusAuth) (args : List UInt8)
    (dataFunc : DBusAuth → List UInt8 → AuthStep) : AuthStep :=
  withMemory (noMemory auth) (
    let decoded := hexDecode args
    if args.length ≠ decoded.2 then sendError auth "Invalid hex encoding"
    else dataFunc auth decoded.1)

def orForgetMech (x : AuthStep) : AuthStep := do
  let (ok, auth) ← x
  if ok then done auth else noMemory { auth with mech := none }

section
variable (env : AuthEnv) (auth : DBusAuth)

/-- `handle_auth` -/
def handleAuth (args : List UInt8) : AuthStep :=
  if args = [] then sendRejected auth
  else do
    let (_, i) ← lift (findBlank args 0)
    withMemory (noMemory auth) (withMemory (noMemory { auth with mech := none }) do
      let mech ← lift (copyLen args 0 i)
      let i ← lift (skipBlank args i)
      let hexResponse ← lift (copyLen args i (args.length - i))
      let auth := { auth with mech := findMech mech auth.allowedMechs }
      match auth.mech with
      | some m => orForgetMech (processData auth hexResponse (m.serverDataFunc env))
      | none => orForgetMech (sendRejected auth))

section
variable (command : AuthCommand) (args : List UInt8)

/-- `handle_server_state_waiting_for_auth` -/
def handleServerStateWaitingForAuth : AuthStep :=
  match command with
  | .auth => handleAuth env auth args
  | .cancel => sendError auth "Not currently in an auth conversation"
  | .data => sendError auth "Not currently in an auth conversation"
  | .begin => done (auth.gotoState .needDisconnect)
  | .error => sendRejected auth
  | .rejected => sendError auth "Unknown command"
  | .ok => sendError auth "Unknown command"
  | .unknown => sendError auth "Unknown command"

/-- `handle_server_state_waiting_for_data` -/
def handleServerStateWaitingForData : AuthStep :=
  match command with
  | .auth => sendError auth "Sent AUTH while another AUTH in progress"
  | .cancel => sendRejected auth
  | .error => sendRejected auth
  | .data => do
    let m ← lift (valueOr .outside auth.mech)
    processData auth args (m.serverDataFunc env)
  | .begin => done (auth.gotoState .needDisconnect)
  | .rejected => sendError auth "Unknown command"
  | .ok => sendError auth "Unknown command"
  | .unknown => sendError auth "Unknown command"

end

end

/-- `handle_server_state_waiting_for_begin` -/
def handleServerStateWaitingForBegin (auth : DBusAuth) (command : AuthCommand) : AuthStep :=
  match command with
  | .auth => sendError auth "Sent AUTH while expecting BEGIN"
  | .data => sendError auth "Sent DATA while expecting BEGIN"
  | .begin => done (auth.gotoState .authenticated)
  | .rejected => sendError auth "Unknown command"
  | .ok => sendError auth "Unknown command"
  | .unknown => sendError auth "Unknown command"
  | .cancel => sendRejected auth
  | .error => sendRejected auth

/-- `get_word`: where the word ends, and the word. -/
def getWord (s : List UInt8) (start : ℕ) : Res (ℕ × List UInt8) := do
  let start ← skipBlank s start
  let (_, i) ← findBlank s start
  let word ← copyLen s start (i - start)
  return (i, word)

/-- The loop of `record_mechanisms`: whether there was memory, and the mechanisms to try. -/
def recordLoop (allowedMechs : Option (List (List UInt8))) (args : List UInt8) :
    ℕ → ℕ → List Mechanism → Alloc Stop (Bool × List Mechanism)
  | 0, _, _ => lift (.error .fuel)
  | fuel + 1, next, mechs =>
    if args.length ≤ next then pure (true, mechs)
    else withMemory (pure (false, [])) do
      let (next, m) ← lift (getWord args next)
      match findMech m allowedMechs with
      | none => recordLoop allowedMechs args fuel next mechs
      | some mech =>
        -- the first mechanism has been tried already
        if mech = .external then recordLoop allowedMechs args fuel next mechs
        else
          withMemory (pure (false, [])) (recordLoop allowedMechs args fuel next (mechs ++ [mech]))

/-- `record_mechanisms` -/
def recordMechanisms (auth : DBusAuth) (args : List UInt8) : AuthStep :=
  if auth.alreadyGotMechanisms then done auth
  else do
    let (ok, mechs) ← recordLoop auth.allowedMechs args (args.length + 1) 0 auth.mechsToTry
    let auth := { auth with mechsToTry := mechs }
    if ok then done { auth with alreadyGotMechanisms := true } else noMemory auth

section
variable (env : AuthEnv) (auth : DBusAuth)

/-- `process_rejected` -/
def processRejected (args : List UInt8) : AuthStep :=
  (recordMechanisms auth args).andThen fun auth =>
    match auth.mechsToTry with
    | mech :: rest =>
      (sendAuth env auth mech).andThen fun auth => done { auth with mechsToTry := rest }
    | [] => done (auth.gotoState .needDisconnect)

section
variable (command : AuthCommand) (args : List UInt8)

/-- `handle_client_state_waiting_for_data` -/
def handleClientStateWaitingForData : AuthStep := do
  let m ← lift (valueOr .assertion auth.mech)
  match command with
  | .data => processData auth args (m.clientDataFunc env)
  | .rejected => processRejected env auth args
  | .ok => sendBegin auth args
  | .error => sendCancel auth
  | .auth => sendError auth "Unknown command"
  | .cancel => sendError auth "Unknown command"
  | .begin => sendError auth "Unknown command"
  | .unknown => sendError auth "Unknown command"

/-- `handle_client_state_waiting_for_ok` -/
def handleClientStateWaitingForOk : AuthStep :=
  match command with
  | .rejected => processRejected env auth args
  | .ok => sendBegin auth args
  | .data => sendCancel auth
  | .error => sendCancel auth
  | .auth => sendError auth "Unknown command"
  | .cancel => sendError auth "Unknown command"
  | .begin => sendError auth "Unknown command"
  | .unknown => sendError auth "Unknown command"

/-- `handle_client_state_waiting_for_reject` -/
def handleClientStateWaitingForReject : AuthStep :=
  match command with
  | .rejected => processRejected env auth args
  | _ => done (auth.gotoState .needDisconnect)

end

end

/-- The handler of the state; end states have none. -/
def AuthStateData.handler (env : AuthEnv) (state : AuthStateData) (auth : DBusAuth)
    (command : AuthCommand) (args : List UInt8) : AuthStep :=
  match state with
  | .serverWaitingForAuth => handleServerStateWaitingForAuth env auth command args
  | .serverWaitingForData => handleServerStateWaitingForData env auth command args
  | .serverWaitingForBegin => handleServerStateWaitingForBegin auth command
  | .clientWaitingForData => handleClientStateWaitingForData env auth command args
  | .clientWaitingForOk => handleClientStateWaitingForOk env auth command args
  | .clientWaitingForReject => handleClientStateWaitingForReject env auth command args
  | .clientNeedSendAuth | .authenticated | .needDisconnect => lift (.error .outside)

/-- `DBUS_AUTH_IN_END_STATE` -/
def AuthStateData.inEndState : AuthStateData → Bool
  | .clientNeedSendAuth | .authenticated | .needDisconnect => true
  | _ => false

/-! ## The loop -/

/-- The part of `process_command` on one line. -/
def processLine (env : AuthEnv) (auth : DBusAuth) (line : List UInt8) : AuthStep :=
  if validateAscii line = false then sendError auth "Command contained non-ASCII"
  else do
    let (_, i) ← lift (findBlank line 0)
    let j ← lift (skipBlank line i)
    withMemory (noMemory auth)
      (auth.state.handler env auth (lookupCommandFromName (line.take i)) (line.drop j))

/-- Drop the first line of `n` bytes. -/
def DBusAuth.dropLine (auth : DBusAuth) (n : ℕ) : DBusAuth :=
  { auth with incoming := auth.incoming.drop (n + 2), neededMemory := false }

/-- `process_command`: whether to call it again. -/
def processCommand (env : AuthEnv) (auth : DBusAuth) : AuthStep :=
  match findEol auth.incoming with
  | none => pure (false, auth)
  | some eol => withMemory (noMemory { auth with neededMemory := true }) do
    let (ok, auth) ← processLine env auth (auth.incoming.take eol)
    if ok then done (auth.dropLine eol) else noMemory { auth with neededMemory := true }

/-- `MAX_BUFFER` -/
def maxBuffer : ℕ := 16 * 1024

/-- The loop of `_dbus_auth_do_work`.  What the system answers to a command may depend on
    how many bytes are waiting when it is processed. -/
def workLoop (env : ℕ → AuthEnv) : ℕ → DBusAuth → Alloc Stop DBusAuth
  | 0, _ => lift (.error .fuel)
  | fuel + 1, auth =>
    if auth.state.inEndState then pure auth
    else if auth.incoming.length > maxBuffer ∨ auth.outgoing.length > maxBuffer then
      pure (auth.gotoState .needDisconnect)
    else do
      let (again, auth) ← processCommand (env auth.incoming.length) auth
      if again then workLoop env fuel auth else pure auth

/-- `_dbus_auth_do_work` -/
def doWork (env : ℕ → AuthEnv) (auth : DBusAuth) : Alloc Stop DBusAuth :=
  workLoop env (auth.incoming.length + 1) { auth with neededMemory := false }

/-- `DBusAuthState`: what `_dbus_auth_do_work` returns. -/
inductive AuthWork where
  | waitingForInput | waitingForMemory | haveBytesToSend | needDisconnect | authenticated
deriving DecidableEq, Repr

namespace DBusAuth

section
variable (auth : DBusAuth)

/-- `_dbus_auth_bytes_sent` -/
def bytesSent (n : ℕ) : DBusAuth := { auth with outgoing := auth.outgoing.drop n }

/-- Bytes read from the peer, between `_dbus_auth_get_buffer` and `_dbus_auth_return_buffer`. -/
def received (bytes : List UInt8) : DBusAuth :=
  { auth with incoming := auth.incoming ++ bytes }

/-- `_dbus_auth_get_unused_bytes` -/
def unusedBytes : Option (List UInt8) :=
  if auth.state.inEndState then some auth.incoming else none

end

/-- `_dbus_auth_new` -/
def new (side : AuthSide) (state : AuthStateData) : DBusAuth where
  side := side
  incoming := []
  outgoing := []
  state := state
  mech := none
  identity := []
  credentials := .empty
  authorizedIdentity := .empty
  desiredIdentity := .empty
  context := asciiBytes "org_freedesktop_general"
  keyring := none
  cookieId := -1
  challenge := []
  allowedMechs := none
  neededMemory := false
  alreadyGotMechanisms := false
  alreadyAskedForInitialResponse := false
  mechsToTry := []
  guidFromServer := []
  failures := 0
  maxFailures := 0
  guid := []

/-- `_dbus_auth_server_new`, with the credentials of the socket, the mechanisms and the
    context set. -/
def serverNew (guid : List UInt8) (credentials : DBusCredentials)
    (allowedMechs : Option (List (List UInt8))) (context : List UInt8) : DBusAuth :=
  { new .server .serverWaitingForAuth with
    guid := guid
    maxFailures := 6
    credentials := credentials
    allowedMechs := allowedMechs
    context := context }

/-- `_dbus_auth_client_new`, that starts with the first mechanism, with the mechanisms and
    the credentials set. -/
def clientNew (env : AuthEnv) (credentials : DBusCredentials)
    (allowedMechs : Option (List (List UInt8))) : DBusAuth :=
  { (new .client .clientNeedSendAuth).send (authLine env .external) with
    mech := some .external
    state := .clientWaitingForData
    credentials := credentials
    allowedMechs := allowedMechs }

end DBusAuth

end DBus
