/-
  Credentials (dbus-credentials.c), and what the authentication code reads of its
  environment: the user database, the cookie keyrings, random bytes and digests.
-/
import DBus.Auth.Text
import DBus.Lib.Alloc

namespace DBus

open Alloc

/-! ## Credentials -/

/-- `DBusCredentials`; what is not set is `none`. -/
structure DBusCredentials where
  unixPid : Option ℕ
  unixUid : Option ℕ
  windowsSid : Option (List UInt8)
  adtAuditData : Option (List UInt8)
deriving DecidableEq, Repr

/-- `DBusCredentialType` -/
inductive DBusCredentialType where
  | unixProcessId | unixUserId | adtAuditDataId | windowsSid
deriving DecidableEq, Repr

namespace DBusCredentials

/-- `_dbus_credentials_new`, and what `_dbus_credentials_clear` leaves. -/
def empty : DBusCredentials := ⟨none, none, none, none⟩

/-- `_dbus_credentials_are_anonymous` -/
def areAnonymous (c : DBusCredentials) : Bool := c.unixUid = none && c.windowsSid = none

/-- `_dbus_credentials_are_superset`; the audit data is compared for the length of that of `c`. -/
def areSuperset (c possibleSubset : DBusCredentials) : Bool :=
  (possibleSubset.unixPid = none || possibleSubset.unixPid = c.unixPid) &&
  (possibleSubset.unixUid = none || possibleSubset.unixUid = c.unixUid) &&
  (possibleSubset.windowsSid = none || possibleSubset.windowsSid = c.windowsSid) &&
  (match possibleSubset.adtAuditData, c.adtAuditData with
    | none, _ => true
    | some _, none => false
    | some d, some d' => d.take d'.length = d')

/-- `_dbus_credentials_same_user` -/
def sameUser (c other : DBusCredentials) : Bool :=
  c.unixUid = other.unixUid && c.windowsSid = other.windowsSid

/-- `_dbus_credentials_add_credential`: whether there was memory for it, and the credentials. -/
def addCredential (c : DBusCredentials) (which : DBusCredentialType) (other : DBusCredentials) :
    Alloc Stop (Bool × DBusCredentials) :=
  match which with
  | .unixProcessId => pure (true, { c with unixPid := other.unixPid <|> c.unixPid })
  | .unixUserId => pure (true, { c with unixUid := other.unixUid <|> c.unixUid })
  | .adtAuditDataId =>
    match other.adtAuditData with
    | none => pure (true, c)
    | some d => withMemory (pure (false, c)) (pure (true, { c with adtAuditData := some d }))
  | .windowsSid =>
    match other.windowsSid with
    | none => pure (true, c)
    | some d => withMemory (pure (false, c)) (pure (true, { c with windowsSid := some d }))

/-- Credentials of others in turn, as long as there is memory. -/
def addAll : List (DBusCredentialType × DBusCredentials) → DBusCredentials →
    Alloc Stop (Bool × DBusCredentials)
  | [], c => pure (true, c)
  | (which, other) :: rest, c => do
    let (ok, c) ← c.addCredential which other
    if ok then addAll rest c else pure (false, c)

/-- All credentials, in the order of `_dbus_credentials_add_credentials`. -/
def all (c : DBusCredentials) : List (DBusCredentialType × DBusCredentials) :=
  [(.unixProcessId, c), (.unixUserId, c), (.adtAuditDataId, c), (.windowsSid, c)]

/-- `_dbus_credentials_add_credentials` -/
def addCredentials (c other : DBusCredentials) : Alloc Stop (Bool × DBusCredentials) :=
  addAll other.all c

/-- The credentials with that of `other`, if it has it. -/
def adding (c other : DBusCredentials) : DBusCredentialType → DBusCredentials
  | .unixProcessId => { c with unixPid := other.unixPid <|> c.unixPid }
  | .unixUserId => { c with unixUid := other.unixUid <|> c.unixUid }
  | .adtAuditDataId => { c with adtAuditData := other.adtAuditData <|> c.adtAuditData }
  | .windowsSid => { c with windowsSid := other.windowsSid <|> c.windowsSid }

def addingAll (c : DBusCredentials) (l : List (DBusCredentialType × DBusCredentials)) :
    DBusCredentials :=
  l.foldl (fun c op => c.adding op.2 op.1) c

theorem addCredential_plenty (c other : DBusCredentials) (which : DBusCredentialType) :
    c.addCredential which other .plenty = (.ok (true, c.adding other which), .plenty) := by
  cases which with
  | unixProcessId => rfl
  | unixUserId => rfl
  | adtAuditDataId => rw [addCredential, adding]; cases other.adtAuditData <;> rfl
  | windowsSid => rw [addCredential, adding]; cases other.windowsSid <;> rfl

theorem addAll_plenty : ∀ (l : List (DBusCredentialType × DBusCredentials)) (c : DBusCredentials),
    addAll l c .plenty = (.ok (true, c.addingAll l), .plenty)
  | [], _ => rfl
  | (which, other) :: rest, c =>
    (bind_of_ok (addCredential_plenty c other which) _).trans (addAll_plenty rest _)

end DBusCredentials

/-- A user of the system. -/
inductive UserId where
  | unix (uid : ℕ)
  | windows (sid : List UInt8)
deriving DecidableEq, Repr

/-- Make `u` the user of the credentials. -/
def DBusCredentials.addUser (c : DBusCredentials) : UserId → DBusCredentials
  | .unix uid => { c with unixUid := some uid }
  | .windows sid => { c with windowsSid := some sid }

/-! ## Keyrings and the environment -/

/-- `DBusKeyring`: whose it is, and its keys, the ids with the secrets. -/
structure DBusKeyring where
  credentials : DBusCredentials
  keys : List (ℤ × List UInt8)
deriving DecidableEq, Repr

/-- `_dbus_keyring_get_hex_key`: empty if there is no key of that id. -/
def DBusKeyring.getHexKey (k : DBusKeyring) (keyId : ℤ) : List UInt8 :=
  match k.keys.find? (·.1 = keyId) with
  | none => []
  | some (_, secret) => hexEncode secret

/-- `_dbus_keyring_is_for_credentials` -/
def DBusKeyring.isForCredentials (k : DBusKeyring) (c : DBusCredentials) : Bool :=
  k.credentials.sameUser c

/-- What the system answers while one command is processed. -/
structure AuthEnv where
  /-- The user of a name or a number in the user database. -/
  userOf : List UInt8 → Option UserId
  /-- The user of this process. -/
  currentUser : List UInt8
  /-- The keyring of the credentials (or of this process) for a context, as its files
      have it; `none` for an error other than the want of memory. -/
  keyringFor : Option DBusCredentials → List UInt8 → Option DBusKeyring
  /-- The id of a recent key, negative if there is none, and the keyring, that may have
      been reloaded. -/
  recentKey : DBusKeyring → ℤ × DBusKeyring
  randomBytes : List UInt8
  /-- The SHA-1 digest in hexadecimal. -/
  sha : List UInt8 → List UInt8
  /-- `strtol`. -/
  strtol : List UInt8 → Option ℤ

namespace AuthEnv

/-- A system that knows no users and has no keyrings. -/
def bare : AuthEnv where
  userOf _ := none
  currentUser := []
  keyringFor _ _ := none
  recentKey k := (-1, k)
  randomBytes := []
  sha _ := []
  strtol _ := none

section
variable (env : AuthEnv)

/-- `_dbus_credentials_add_from_user`; there is no telling want of memory from a user
    that is not known. -/
def addFromUser (c : DBusCredentials) (username : List UInt8) :
    Alloc Stop (Bool × DBusCredentials) :=
  withMemory (pure (false, c))
    (match env.userOf username with
      | none => pure (false, c)
      | some u => pure (true, c.addUser u))

/-- `_dbus_keyring_new_for_credentials`: want of memory, another error, or the keyring.
    One that cannot be loaded for want of memory has no keys. -/
def keyringNewForCredentials (c : Option DBusCredentials) (context : List UInt8) :
    Alloc Stop (Except Bool DBusKeyring) :=
  withMemory (pure (.error true))
    (match env.keyringFor c context with
      | none => pure (.error false)
      | some k => withMemory (pure (.ok { k with keys := [] })) (pure (.ok k)))

/-- `_dbus_keyring_get_best_key` -/
def keyringGetBestKey (k : DBusKeyring) : Alloc Stop (ℤ × DBusKeyring) :=
  withMemory (pure (-1, k)) (pure (env.recentKey k))

end

end AuthEnv

end DBus
