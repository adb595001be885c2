/-
  The transport of a server (dbus-transport.c): no message reaches the connection before
  the peer is authenticated and the access decision has allowed it.

  `auth_via_windows_user_function` passes the data of the function for unix users.  The rounds
  of the loop of `_dbus_transport_queue_messages` are steps of their own.
-/
import DBus.Auth.Run
import DBus.Loader.Defs

namespace DBus

open Outcome Alloc Endian

/-! ## The transport -/

/-- What `_dbus_auth_do_work` returns. -/
def DBusAuth.work (auth : DBusAuth) : AuthWork :=
  if auth.neededMemory then .waitingForMemory
  else if auth.outgoing.length > 0 then .haveBytesToSend
  else match auth.state with
    | .needDisconnect => .needDisconnect
    | .authenticated => .authenticated
    | _ => .waitingForInput

/-- The members of `DBusTransport` that decide about a peer; `D` is the type of the data that
    the application registers with its functions. -/
structure AccessRules (D : Type) where
  allowAnonymous : Bool
  unixUserFunction : Option (ℕ → D → Bool)
  unixUserData : D
  windowsUserFunction : Option (List UInt8 → D → Bool)
  windowsUserData : D

/-- A decision about the peer: what it was made by, and its outcome. -/
structure AccessDecision (D : Type) where
  rules : AccessRules D
  auth : DBusAuth
  allow : Bool

/-- `DBusTransport` of a server, with the messages that it has queued on its connection and
    the decisions that were made. -/
structure DBusTransport (D : Type) extends AccessRules D where
  auth : DBusAuth
  loader : DBusMessageLoader
  authenticated : Bool
  disconnected : Bool
  receiveCredentialsPending : Bool
  unusedBytesRecovered : Bool
  liveMessagesSize : ℕ
  maxLiveMessagesSize : ℤ
  received : List DBusMessage
  decisions : List (AccessDecision D)

/-- `DBusDispatchStatus` -/
inductive DBusDispatchStatus where
  | dataRemains | complete | needMemory
deriving DecidableEq, Repr

namespace DBusTransport

variable {D : Type} (own : DBusCredentials) (native : ByteOrder)

/-- `_dbus_transport_init_base` of a server, with its conversation. -/
def initBase (null : D) (auth : DBusAuth) : DBusTransport D where
  allowAnonymous := false
  unixUserFunction := none
  unixUserData := null
  windowsUserFunction := none
  windowsUserData := null
  auth := auth
  loader := .new
  authenticated := false
  disconnected := false
  receiveCredentialsPending := true
  unusedBytesRecovered := false
  liveMessagesSize := 0
  maxLiveMessagesSize := 63 * 1024 * 1024
  received := []
  decisions := []

section
variable (t : DBusTransport D)

/-- `_dbus_transport_disconnect` -/
def disconnect : DBusTransport D := { t with disconnected := true }

/-- The decision is made; a peer that is not allowed is disconnected. -/
def decided (allow : Bool) : Bool × DBusTransport D :=
  let t := { t with decisions := t.decisions ++ [⟨t.toAccessRules, t.auth, allow⟩] }
  (allow, if allow then t else t.disconnect)

/-- `auth_via_unix_user_function` -/
def authViaUnixUserFunction (f : ℕ → D → Bool) (uid : ℕ) :
    Alloc Stop (Bool × DBusTransport D) := pure (t.decided (f uid t.unixUserData))

/-- `auth_via_windows_user_function` -/
def authViaWindowsUserFunction (f : List UInt8 → D → Bool) (windowsSid : List UInt8) :
    Alloc Stop (Bool × DBusTransport D) :=
  withMemory (pure (false, t)) (pure (t.decided (f windowsSid t.unixUserData)))

/-- `auth_via_default_rules` -/
def authViaDefaultRules : Alloc Stop (Bool × DBusTransport D) :=
  withMemory (pure (false, t)) (pure (t.decided (t.allowAnonymous ||
    t.auth.authorizedIdentity.unixUid = some 0 || own.sameUser t.auth.authorizedIdentity)))

/-- The part of `_dbus_transport_get_is_authenticated` for servers: whether to allow the
    identity to proceed. -/
def allowIdentity : Alloc Stop (Bool × DBusTransport D) :=
  match t.unixUserFunction, t.auth.authorizedIdentity.unixUid with
  | some f, some uid => t.authViaUnixUserFunction f uid
  | _, _ =>
    match t.windowsUserFunction, t.auth.authorizedIdentity.windowsSid with
    | some f, some sid => t.authViaWindowsUserFunction f sid
    | _, _ => t.authViaDefaultRules own

end

/-- `_dbus_transport_get_is_authenticated` -/
def getIsAuthenticated (env : ℕ → AuthEnv) (t : DBusTransport D) :
    Alloc Stop (Bool × DBusTransport D) :=
  if t.authenticated then pure (true, t)
  else if t.disconnected then pure (false, t)
  else if t.receiveCredentialsPending then pure (false, t)
  else do
    let auth ← doWork env t.auth
    let t := { t with auth := auth }
    if auth.work ≠ .authenticated then pure (false, t)
    else do
      let (allow, t) ← t.allowIdentity own
      return (allow, { t with authenticated := allow })

/-- `recover_unused_bytes`, unless they have been; none of the mechanisms encodes. -/
def recoverUnusedBytes (t : DBusTransport D) : Alloc Stop (Bool × DBusTransport D) :=
  if t.unusedBytesRecovered then pure (true, t)
  else do
    let bytes ← lift (valueOr .assertion t.auth.unusedBytes)
    withMemory (pure (false, t)) (pure (true, { t with
      unusedBytesRecovered := true
      loader := t.loader.fill bytes
      auth := { t.auth with incoming := [] } }))

/-- `_dbus_transport_get_dispatch_status`, once the peer is authenticated. -/
def loadStatus (behind : List UInt8 → Behind) (t : DBusTransport D) :
    Alloc Stop (DBusDispatchStatus × DBusTransport D) := do
  let (ok, t) ← t.recoverUnusedBytes
  if ok = false then return (.needMemory, t)
  else do
    let (ok, loader) ← queueMessages native behind t.loader
    return (if ok = false then .needMemory
      else if loader.messages ≠ [] then .dataRemains else .complete, { t with loader := loader })

/-- `_dbus_transport_get_dispatch_status` -/
def getDispatchStatus (env : ℕ → AuthEnv) (behind : List UInt8 → Behind) (t : DBusTransport D) :
    Alloc Stop (DBusDispatchStatus × DBusTransport D) :=
  if (t.liveMessagesSize : ℤ) ≥ t.maxLiveMessagesSize then return (.complete, t)
  else do
    let (ok, t) ← t.getIsAuthenticated own env
    if ok then t.loadStatus native behind
    else do
      let auth ← doWork env t.auth
      let t := { t with auth := auth }
      if auth.work = .waitingForMemory then return (.needMemory, t)
      else do
        let (ok, t) ← t.getIsAuthenticated own env
        if ok then t.loadStatus native behind else return (.complete, t)

/-- What follows the loop of `_dbus_transport_queue_messages`. -/
def queueMessagesEnd (t : DBusTransport D) : DBusTransport D :=
  if t.loader.corrupted then t.disconnect else t

/-- A round of the loop of `_dbus_transport_queue_messages`, or what follows the last one. -/
def queueMessagesRound (env : ℕ → AuthEnv) (behind : List UInt8 → Behind) (t : DBusTransport D) :
    Alloc Stop (DBusTransport D) := do
  let (status, t) ← t.getDispatchStatus own native env behind
  match status, t.loader.messages with
  | .dataRemains, [] => lift (.error .assertion)
  | .dataRemains, message :: rest => withMemory (pure t.queueMessagesEnd) (pure { t with
      loader := { t.loader with messages := rest }
      liveMessagesSize := t.liveMessagesSize + message.bytes.length
      received := t.received ++ [message] })
  | _, _ => return t.queueMessagesEnd

end DBusTransport

/-! ## Runs -/

/-- What happens to the transport: the credentials of the socket arrive, bytes of the peer are
    read, and those for it written; the application sets its rules and limits, or frees
    messages of a total size; there is work to do; or the connection is lost. -/
inductive TransportEvent (D : Type) where
  | credentials (c : DBusCredentials)
  | read (env : ℕ → AuthEnv) (bytes : List UInt8)
  | written (n : ℕ)
  | setUnixUserFunction (f : Option (ℕ → D → Bool)) (data : D)
  | setWindowsUserFunction (f : Option (List UInt8 → D → Bool)) (data : D)
  | setAllowAnonymous (value : Bool)
  | setAuthMechanisms (mechanisms : Option (List (List UInt8)))
  | setMaxMessageSize (size : ℕ)
  | setMaxReceivedSize (size : ℤ)
  | freed (size : ℕ)
  | doWork (env : ℕ → AuthEnv)
  | queueMessages (env : ℕ → AuthEnv) (behind : List UInt8 → Behind)
  | disconnect

section
variable {D : Type} (own : DBusCredentials) (native : ByteOrder)

/-- Bytes are read into the loader once the peer is authenticated, and before that into the
    conversation. -/
def TransportEvent.run (t : DBusTransport D) : TransportEvent D → Alloc Stop (DBusTransport D)
  | .credentials c =>
    return { t with receiveCredentialsPending := false, auth := { t.auth with credentials := c } }
  | .read env bytes => do
    let (ok, t) ← t.getIsAuthenticated own env
    if t.disconnected then return t
    else if ok then return { t with loader := t.loader.fill bytes }
    else return { t with auth := t.auth.received bytes }
  | .written n => return { t with auth := t.auth.bytesSent n }
  | .setUnixUserFunction f data => return { t with unixUserFunction := f, unixUserData := data }
  | .setWindowsUserFunction f data =>
    return { t with windowsUserFunction := f, windowsUserData := data }
  | .setAllowAnonymous value => return { t with allowAnonymous := value }
  | .setAuthMechanisms mechanisms =>
    return { t with auth := { t.auth with allowedMechs := mechanisms } }
  | .setMaxMessageSize size => return { t with loader := t.loader.setMaxMessageSize size }
  | .setMaxReceivedSize size => return { t with maxLiveMessagesSize := size }
  | .freed size => return { t with liveMessagesSize := t.liveMessagesSize - size }
  | .doWork env => do
    let auth ← DBus.doWork env t.auth
    return { t with auth := auth }
  | .queueMessages env behind => t.queueMessagesRound own native env behind
  | .disconnect => return t.disconnect

def transportRun (es : List (TransportEvent D)) (t : DBusTransport D) :
    Alloc Stop (DBusTransport D) :=
  match es with
  | [] => pure t
  | e :: es => do
    let t ← e.run own native t
    transportRun es t

end

/-! ## The decision -/

/-- What the rules say of a peer, where `data` is passed to the function for Windows users. -/
def AccessRules.answer {D : Type} (own : DBusCredentials) (rules : AccessRules D) (data : D)
    (peer : DBusCredentials) : Bool :=
  match rules.unixUserFunction, peer.unixUid with
  | some f, some uid => f uid rules.unixUserData
  | _, _ =>
    match rules.windowsUserFunction, peer.windowsSid with
    | some f, some sid => f sid data
    | _, _ => rules.allowAnonymous || peer.unixUid = some 0 || own.sameUser peer

namespace AccessDecision
variable {D : Type} (own : DBusCredentials) (d : AccessDecision D)

/-- What the decision should be: each function is called with its own data. -/
def Allowed : Prop :=
  d.rules.answer own d.rules.windowsUserData d.auth.authorizedIdentity = true

/-- The function for Windows users, where it is called, gives one answer for its own data and
    for that of the function for unix users. -/
def SameAnswer : Prop := ∀ f sid, d.rules.windowsUserFunction = some f →
  d.auth.authorizedIdentity.windowsSid = some sid →
  (d.rules.unixUserFunction = none ∨ d.auth.authorizedIdentity.unixUid = none) →
  f sid d.rules.unixUserData = f sid d.rules.windowsUserData

/-- The decision that is made. -/
structure Made : Prop where
  authenticated : d.auth.state = .authenticated
  allow : d.allow = d.rules.answer own d.rules.unixUserData d.auth.authorizedIdentity

variable {own d}

theorem Made.allowed_iff (h : d.Made own) : (d.allow = true ↔ d.Allowed own) ↔ d.SameAnswer := by
  rw [h.allow, Allowed, Bool.coe_iff_coe, AccessRules.answer, AccessRules.answer]
  constructor
  · intro h f sid hf hsd hun
    rw [hf, hsd] at h
    rcases hun with hun | hun
    · rwa [hun] at h
    · rw [hun] at h
      cases hu : d.rules.unixUserFunction <;> rwa [hu] at h
  · intro h
    split
    · rfl
    · next hun =>
      split
      · next f sid hf hsd =>
        refine h f sid hf hsd ?_
        by_contra hno
        simp only [not_or, Option.ne_none_iff_exists'] at hno
        obtain ⟨⟨f', hf'⟩, uid, hud⟩ := hno
        exact hun f' uid hf' hud
      · rfl

end AccessDecision

/-! ## Runs keep the gate -/

section
variable {D : Type} {own : DBusCredentials} {native : ByteOrder} {t : DBusTransport D}

/-- How far the transport has come with its peer. -/
inductive DBusTransport.Gate (own : DBusCredentials) (t : DBusTransport D) : Prop
  | undecided (ha : t.authenticated = false) (hd : t.decisions = []) (hr : t.received = [])
  | refused (ha : t.authenticated = false) (d : AccessDecision D) (hd : t.decisions = [d])
      (hmade : d.Made own) (hallow : d.allow = false) (hdis : t.disconnected = true)
      (hr : t.received = [])
  | allowed (ha : t.authenticated = true) (d : AccessDecision D) (hd : t.decisions = [d])
      (hmade : d.Made own) (hallow : d.allow = true)

/-- The steps that neither decide nor deliver. -/
theorem DBusTransport.Gate.keep {t' : DBusTransport D} (h : t.Gate own)
    (ha : t'.authenticated = t.authenticated) (hd : t'.decisions = t.decisions)
    (hr : t'.received = t.received) (hdis : t.disconnected = true → t'.disconnected = true) :
    t'.Gate own := by
  cases h with
  | undecided ha' hd' hr' => exact .undecided (ha.trans ha') (hd.trans hd') (hr.trans hr')
  | refused ha' d hd' hm hal hds' hr' =>
    exact .refused (ha.trans ha') d (hd.trans hd') hm hal (hdis hds') (hr.trans hr')
  | allowed ha' d hd' hm hal => exact .allowed (ha.trans ha') d (hd.trans hd') hm hal

theorem DBusAuth.work_authenticated {auth : DBusAuth} (h : auth.work = .authenticated) :
    auth.state = .authenticated := by
  unfold DBusAuth.work at h
  split at h
  · cases h
  · split at h
    · cases h
    · split at h <;> first | assumption | cases h

namespace DBusTransport

theorem allowIdentity_ensures (t : DBusTransport D) : Ensures (t.allowIdentity own) fun r =>
    r = (false, t) ∨ r = t.decided (t.answer own t.unixUserData t.auth.authorizedIdentity) := by
  unfold allowIdentity AccessRules.answer
  split
  · exact ensures_pure (.inr rfl)
  · split
    · exact (ensures_pure (.inl rfl)).withMemory (ensures_pure (.inr rfl))
    · exact (ensures_pure (.inl rfl)).withMemory (ensures_pure (.inr rfl))

/-- The gate holds, and is open if the transport answers `yes`. -/
def Passed {α : Type} (own : DBusCredentials) (yes : α) (r : α × DBusTransport D) : Prop :=
  r.2.Gate own ∧ (r.1 = yes → r.2.authenticated = true)

theorem getIsAuthenticated_ensures (env : ℕ → AuthEnv) (h : t.Gate own) :
    Ensures (t.getIsAuthenticated own env) (Passed own true) := by
  unfold getIsAuthenticated
  split
  · next ha => exact ensures_pure ⟨h, fun _ => ha⟩
  next ha =>
  split
  · exact ensures_pure ⟨h, (by simp)⟩
  next hdis =>
  split
  · exact ensures_pure ⟨h, (by simp)⟩
  refine ensures_any.bind fun auth _ => ?_
  dsimp only
  split
  · exact ensures_pure ⟨h.keep rfl rfl rfl id, (by simp)⟩
  next hw =>
  refine (allowIdentity_ensures _).bind ?_
  rintro _ (rfl | rfl)
  · exact ensures_pure ⟨h.keep (by simpa using ha) rfl rfl id, (by simp)⟩
  -- the decision is the first, because the transport is connected and not authenticated
  cases h with
  | refused _ _ _ _ _ hds' => exact absurd hds' hdis
  | allowed ha' => exact absurd ha' ha
  | undecided _ hd hr =>
    have hm : AccessDecision.Made own ⟨t.toAccessRules, auth,
        t.answer own t.unixUserData auth.authorizedIdentity⟩ :=
      ⟨DBusAuth.work_authenticated (not_not.1 hw), rfl⟩
    refine ensures_pure ?_
    cases hal : t.answer own t.unixUserData auth.authorizedIdentity with
    | true =>
      rw [hal] at hm
      exact ⟨.allowed rfl _ (by rw [decided, hd]; rfl) hm rfl, fun _ => rfl⟩
    | false =>
      rw [hal] at hm
      exact ⟨.refused rfl _ (by rw [decided, hd]; rfl) hm rfl rfl hr, (by simp)⟩

theorem loadStatus_ensures (behind : List UInt8 → Behind) (h : t.Gate own)
    (ha : t.authenticated = true) :
    Ensures (t.loadStatus native behind) (Passed own .dataRemains) := by
  have hb : Ensures t.recoverUnusedBytes fun r => r.2.Gate own ∧ r.2.authenticated = true := by
    unfold recoverUnusedBytes
    split
    · exact ensures_pure ⟨h, ha⟩
    · exact ensures_any.bind fun bytes _ =>
        (ensures_pure ⟨h, ha⟩).withMemory (ensures_pure ⟨h.keep rfl rfl rfl id, ha⟩)
  refine hb.bind ?_
  rintro ⟨ok, t⟩ ⟨h, ha⟩
  dsimp only
  split
  · exact ensures_pure ⟨h, fun _ => ha⟩
  · exact ensures_any.bind fun r _ => ensures_pure ⟨h.keep rfl rfl rfl id, fun _ => ha⟩

theorem getDispatchStatus_ensures (env : ℕ → AuthEnv) (behind : List UInt8 → Behind)
    (h : t.Gate own) :
    Ensures (t.getDispatchStatus own native env behind) (Passed own .dataRemains) := by
  unfold getDispatchStatus
  split
  · exact ensures_pure ⟨h, (by simp)⟩
  refine (getIsAuthenticated_ensures env h).bind ?_
  rintro ⟨ok, t⟩ ⟨h, hok⟩
  cases ok with
  | true => exact loadStatus_ensures behind h (hok rfl)
  | false =>
    refine ensures_any.bind fun auth _ => ?_
    have h : DBusTransport.Gate own { t with auth := auth } := h.keep rfl rfl rfl id
    dsimp only
    split
    · exact ensures_pure ⟨h, (by simp)⟩
    refine (getIsAuthenticated_ensures env h).bind ?_
    rintro ⟨ok, t⟩ ⟨h, hok⟩
    cases ok with
    | true => exact loadStatus_ensures behind h (hok rfl)
    | false => exact ensures_pure ⟨h, (by simp)⟩

theorem Gate.queueMessagesEnd (h : t.Gate own) : t.queueMessagesEnd.Gate own := by
  unfold DBusTransport.queueMessagesEnd
  split
  · exact h.keep rfl rfl rfl fun _ => rfl
  · exact h

theorem queueMessagesRound_ensures (env : ℕ → AuthEnv) (behind : List UInt8 → Behind)
    (h : t.Gate own) : Ensures (t.queueMessagesRound own native env behind) (Gate own) := by
  refine (getDispatchStatus_ensures env behind h).bind ?_
  rintro ⟨status, t⟩ ⟨h, hdt⟩
  dsimp only
  split
  · exact fun _ _ _ hb => by cases hb
  · refine (ensures_pure h.queueMessagesEnd).withMemory (ensures_pure ?_)
    cases h with
    | allowed ha d hd hm hal => exact .allowed ha d hd hm hal
    | undecided ha | refused ha => exact absurd (ha.symm.trans (hdt rfl)) (by decide)
  · exact ensures_pure h.queueMessagesEnd

end DBusTransport

theorem TransportEvent.run_ensures (e : TransportEvent D) (h : t.Gate own) :
    Ensures (e.run own native t) (DBusTransport.Gate own) := by
  cases e with
  | read env bytes =>
    refine (DBusTransport.getIsAuthenticated_ensures env h).bind ?_
    rintro ⟨ok, t⟩ ⟨h, -⟩
    dsimp only
    split
    · exact ensures_pure h
    · split <;> exact ensures_pure (h.keep rfl rfl rfl id)
  | doWork env =>
    refine ensures_any.bind fun auth _ => ?_
    exact ensures_pure (h.keep rfl rfl rfl id)
  | queueMessages env behind => exact DBusTransport.queueMessagesRound_ensures env behind h
  | disconnect => exact ensures_pure (h.keep rfl rfl rfl fun _ => rfl)
  | _ => exact ensures_pure (h.keep rfl rfl rfl id)

theorem transportRun_ensures (es : List (TransportEvent D)) : ∀ {t : DBusTransport D}, t.Gate own →
    Ensures (transportRun own native es t) (DBusTransport.Gate own) := by
  induction es with
  | nil => exact ensures_pure
  | cons e es ih => exact fun h => (e.run_ensures h).bind fun t h => ih h

/-- Every decision is the one that the rules ask for; messages are queued only behind one that
    allows the peer of an authenticated conversation; a peer that is refused is disconnected
    with no message queued. -/
def DBusTransport.Gated (own : DBusCredentials) (t : DBusTransport D) : Prop :=
  (∀ d ∈ t.decisions, d.allow = true ↔ d.Allowed own) ∧
  (t.received ≠ [] → ∃ d ∈ t.decisions, d.auth.state = .authenticated ∧ d.Allowed own) ∧
  ∀ d ∈ t.decisions, ¬ d.Allowed own → t.disconnected = true ∧ t.received = []

/-- **Access**: whatever the peer sends, the application sets and is short of memory, the
    transport is gated exactly if the function for Windows users never answers otherwise for
    the data of the other function than for its own. -/
theorem transport_gates_iff {null : D} {auth : DBusAuth} {es : List (TransportEvent D)}
    {a a' : Allocator} (hrun : transportRun own native es (.initBase null auth) a = (.ok t, a')) :
    t.Gated own ↔ ∀ d ∈ t.decisions, d.SameAnswer := by
  have hg : t.Gate own := transportRun_ensures es (.undecided rfl rfl rfl) a t a' hrun
  cases hg with
  | undecided _ hd hr => simp [DBusTransport.Gated, hd, hr]
  | refused _ d hd hm hal hdis hr =>
    simp [DBusTransport.Gated, hd, hr, hdis, ← hm.allowed_iff]
  | allowed _ d hd hm hal =>
    have hi := hm.allowed_iff
    rw [hal] at hi
    simp only [DBusTransport.Gated, hd, List.mem_singleton, forall_eq, exists_eq_left, hm.authenticated, hal,
      true_and, ← hi, and_iff_left_iff_imp, true_iff]
    exact fun h => ⟨fun _ => h, fun hno => absurd h hno⟩

/-- The peer has a Windows user, and the functions have the data `unixData` and `windowsData`. -/
def windowsEvents (unixData windowsData : Bool) : List (TransportEvent Bool) :=
  [.setUnixUserFunction (some fun _ data => data) unixData,
    .setWindowsUserFunction (some fun _ data => data) windowsData,
    .credentials { DBusCredentials.empty with windowsSid := some (asciiBytes "S") },
    .read (fun _ => .bare) (asciiBytes "AUTH EXTERNAL" ++ crlf ++ asciiBytes "DATA" ++ crlf ++
      asciiBytes "BEGIN" ++ crlf), .doWork (fun _ => .bare), .written 100, .read (fun _ => .bare) []]

/-- A server of root runs them. -/
def windowsRun (unixData windowsData : Bool) : Except Stop (DBusTransport Bool) × Allocator :=
  transportRun rootCredentials .little (windowsEvents unixData windowsData)
    (.initBase false (.serverNew [] .empty none [])) .plenty

theorem transport_gates_windows : ∃ t a', windowsRun true true = (.ok t, a') ∧
    (t.Gated rootCredentials ↔ ∀ d ∈ t.decisions, d.SameAnswer) := by
  rcases hrn : windowsRun true true with ⟨out, a'⟩
  cases out with
  | ok t => exact ⟨t, a', rfl, transport_gates_iff hrn⟩
  | error e =>
    have hok : (windowsRun true true).1.isOk = true := by decide +kernel
    rw [hrn] at hok
    cases hok

/-- The peer is allowed by the data of the other function. -/
theorem windowsData_ignored : (windowsRun true false).1.map (fun t => (t.authenticated,
    t.decisions.map fun d => (d.allow, d.rules.answer rootCredentials d.rules.windowsUserData
      d.auth.authorizedIdentity))) = .ok (true, [(true, false)]) := by
  decide +kernel

end

end DBus
