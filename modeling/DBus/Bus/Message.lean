/-
  Messages and errors as the message bus sees them.

  The bus reads the fields of a message and hands it on; it never looks at bytes.  A
  `BusMessage` has the header fields, the two flags and the arguments of a message.
  Messages that the driver makes have no serial of their own before the connection that
  sends them gives them one, so theirs is 0 here.
-/
import DBus.Header.Defs

namespace DBus

/-- `DBUS_SERVICE_DBUS` -/
def serviceDBus : List UInt8 := asciiBytes "org.freedesktop.DBus"

/-- `DBUS_PATH_DBUS` -/
def pathDBus : List UInt8 := asciiBytes "/org/freedesktop/DBus"

/-- `DBUS_INTERFACE_DBUS` -/
def interfaceDBus : List UInt8 := asciiBytes "org.freedesktop.DBus"

/-- `DBUS_INTERFACE_INTROSPECTABLE` -/
def interfaceIntrospectable : List UInt8 := asciiBytes "org.freedesktop.DBus.Introspectable"

/-- The errors the bus reports, `DBUS_ERROR_…`; those of the operating system and of the
    configuration files are among `other`. -/
inductive ErrorName where
  | failed
  | noMemory
  | nameHasNoOwner
  | noReply
  | limitsExceeded
  | accessDenied
  | invalidArgs
  | unknownMethod
  | timedOut
  | matchRuleNotFound
  | spawnFileInvalid
  | unixProcessIdUnknown
  | adtAuditDataUnknown
  | selinuxSecurityContextUnknown
  | other (text : String)
deriving DecidableEq, Repr

def ErrorName.text : ErrorName → String
  | .failed => "org.freedesktop.DBus.Error.Failed"
  | .noMemory => "org.freedesktop.DBus.Error.NoMemory"
  | .nameHasNoOwner => "org.freedesktop.DBus.Error.NameHasNoOwner"
  | .noReply => "org.freedesktop.DBus.Error.NoReply"
  | .limitsExceeded => "org.freedesktop.DBus.Error.LimitsExceeded"
  | .accessDenied => "org.freedesktop.DBus.Error.AccessDenied"
  | .invalidArgs => "org.freedesktop.DBus.Error.InvalidArgs"
  | .unknownMethod => "org.freedesktop.DBus.Error.UnknownMethod"
  | .timedOut => "org.freedesktop.DBus.Error.TimedOut"
  | .matchRuleNotFound => "org.freedesktop.DBus.Error.MatchRuleNotFound"
  | .spawnFileInvalid => "org.freedesktop.DBus.Error.Spawn.FileInvalid"
  | .unixProcessIdUnknown => "org.freedesktop.DBus.Error.UnixProcessIdUnknown"
  | .adtAuditDataUnknown => "org.freedesktop.DBus.Error.AdtAuditDataUnknown"
  | .selinuxSecurityContextUnknown => "org.freedesktop.DBus.Error.SELinuxSecurityContextUnknown"
  | .other text => text

/-- `DBusError`, set -/
structure DBusError where
  name : ErrorName
  message : List UInt8
deriving DecidableEq, Repr

/-- `BUS_SET_OOM` -/
def DBusError.oom : DBusError := ⟨.noMemory, asciiBytes "Memory allocation failure in message bus"⟩

abbrev PlainError := { e : DBusError // e.name ≠ .noMemory }

/-- A message on the bus. -/
structure BusMessage where
  type : MessageType
  serial : ℕ := 0
  replySerial : ℕ := 0
  noReply : Bool := false
  autoStart : Bool := true
  sender : Option (List UInt8) := none
  destination : Option (List UInt8) := none
  path : Option (List UInt8) := none
  interface : Option (List UInt8) := none
  member : Option (List UInt8) := none
  errorName : Option (List UInt8) := none
  body : List Value := []

namespace BusMessage

/-- `dbus_message_new_signal`, for a signal of the driver -/
def newSignal (member : String) : BusMessage :=
  { type := .signal, noReply := true, path := some pathDBus, interface := some interfaceDBus,
    member := some (asciiBytes member) }

/-- `dbus_message_new_method_return` -/
def newMethodReturn (call : BusMessage) : BusMessage :=
  { type := .methodReturn, noReply := true, destination := call.sender, replySerial := call.serial }

/-- `dbus_message_new_error` -/
def newError (replyTo : BusMessage) (error : DBusError) : BusMessage :=
  { type := .error, noReply := true, destination := replyTo.sender, replySerial := replyTo.serial,
    errorName := some (asciiBytes error.name.text), body := [.str .string error.message] }

section
variable (m : BusMessage) (interface : List UInt8) (member : String)

/-- `dbus_message_is_method_call` -/
def isMethodCall : Bool :=
  m.type = .methodCall ∧ m.interface = some interface ∧ m.member = some (asciiBytes member)

/-- `dbus_message_is_signal` -/
def isSignal : Bool :=
  m.type = .signal ∧ m.interface = some interface ∧ m.member = some (asciiBytes member)

end

/-- `dbus_message_get_signature` -/
def signature (m : BusMessage) : List UInt8 := Ty.sigList (Value.tyList m.body)

end BusMessage

def Value.text (bs : List UInt8) : Value := .str .string bs

/-- An argument of type `DBUS_TYPE_UINT32`. -/
def Value.uint32 (n : ℕ) : Value := .fixed .uint32 n

/-- An argument of type `as`. -/
def Value.texts (l : List (List UInt8)) : Value := .array (.basic (.str .string)) (l.map .text)

/-- An argument of type `ay`. -/
def Value.bytes (l : List UInt8) : Value :=
  .array (.basic (.fixed .byte)) (l.map fun b => .fixed .byte b.toNat)

/-! ## The bits of a request -/

/-- The flags of `RequestName`, `DBUS_NAME_FLAG_…`. -/
structure NameFlags where
  allowReplacement : Bool
  replaceExisting : Bool
  doNotQueue : Bool
deriving DecidableEq, Repr

/-- The flags in an argument of type `DBUS_TYPE_UINT32`. -/
def NameFlags.ofNat (n : ℕ) : NameFlags := ⟨n.testBit 0, n.testBit 1, n.testBit 2⟩

/-- What `RequestName` answers, `DBUS_REQUEST_NAME_REPLY_…`. -/
inductive RequestReply where
  | primaryOwner
  | inQueue
  | exists
  | alreadyOwner
deriving DecidableEq, Repr

def RequestReply.code : RequestReply → ℕ
  | .primaryOwner => 1
  | .inQueue => 2
  | .exists => 3
  | .alreadyOwner => 4

/-- What `ReleaseName` answers, `DBUS_RELEASE_NAME_REPLY_…`. -/
inductive ReleaseReply where
  | released
  | nonExistent
  | notOwner
deriving DecidableEq, Repr

def ReleaseReply.code : ReleaseReply → ℕ
  | .released => 1
  | .nonExistent => 2
  | .notOwner => 3

end DBus
