/-
  The state of the message bus and the computations on it.

  Each object of the daemon has a number, and the tables of the state say what is at a
  number.  A number is given once, so that a reference to something that has been freed finds
  nothing: the run then stops with `Stop.outside`.

  What the daemon asks its surroundings is in a `BusEnv`.
-/
import DBus.Bus.Message
import DBus.Lib.Eff
import Mathlib.Data.List.AList
import Mathlib.Logic.Function.Basic

namespace DBus

open Outcome

/-! ## Name ownership -/

/-- `BusOwner` -/
structure BusOwner where
  refcount : ℕ
  service : ℕ
  conn : ℕ
  allowReplacement : Bool
  doNotQueue : Bool
deriving DecidableEq, Repr

/-- `BusService`; the registry is the only one there is -/
structure BusService where
  refcount : ℕ
  name : List UInt8
  owners : List ℕ
deriving DecidableEq, Repr

/-- `BusRegistry`, with the objects of its memory pools -/
structure BusRegistry where
  serviceHash : AList fun _ : List UInt8 => ℕ
  services : ℕ → Option BusService
  owners : ℕ → Option BusOwner
  nextService : ℕ
  nextOwner : ℕ
  uniquePidHash : AList fun _ : List UInt8 => ℤ

/-- `bus_registry_new` -/
def BusRegistry.new : BusRegistry := ⟨∅, fun _ => none, fun _ => none, 0, 0, ∅⟩

/-- `bus_registry_lookup` -/
def BusRegistry.lookup (r : BusRegistry) (name : List UInt8) : Option ℕ := r.serviceHash.lookup name

/-- `OwnershipRestoreData`; the two list links are always allocated -/
structure OwnershipRestoreData where
  owner : ℕ
  service : ℕ
  beforeOwner : Option ℕ
  /-- whether `hash_entry` is not `NULL` -/
  hashEntry : Bool
deriving DecidableEq, Repr

/-! ## Match rules -/

/-- `BusMatchRule`; a key that is absent is one whose flag is not set -/
structure BusMatchRule where
  matchesGoTo : ℕ
  messageType : Option MessageType := none
  interface : Option (List UInt8) := none
  member : Option (List UInt8) := none
  sender : Option (List UInt8) := none
  destination : Option (List UInt8) := none
  path : Option (List UInt8) := none
  /-- the expected arguments, with `BUS_MATCH_ARG_IS_PATH` -/
  args : List (Option (List UInt8 × Bool)) := []
deriving DecidableEq, Repr

/-- `flags`, for the message type, interface, member, sender, destination, path and arguments -/
def BusMatchRule.flags (rule : BusMatchRule) : List Bool :=
  [rule.messageType.isSome, rule.interface.isSome, rule.member.isSome, rule.sender.isSome,
    rule.destination.isSome, rule.path.isSome, rule.args ≠ []]

/-! ## Replies and activation -/

/-- `BusPendingReply` -/
structure BusPendingReply where
  id : ℕ
  willGetReply : ℕ
  willSendReply : Option ℕ
  replySerial : ℕ
deriving DecidableEq, Repr

/-- `BusActivationEntry`, what a service file says -/
structure BusActivationEntry where
  exec : List UInt8
  user : Option (List UInt8)
deriving DecidableEq, Repr

/-- `BusPendingActivationEntry` -/
structure BusPendingActivationEntry where
  activationMessage : BusMessage
  connection : ℕ
  autoActivation : Bool

/-- `BusPendingActivation`; its timeout is there as long as it is -/
structure BusPendingActivation where
  refcount : ℕ
  serviceName : List UInt8
  exec : List UInt8
  entries : List BusPendingActivationEntry
  nEntries : ℕ
  /-- whether there is a babysitter -/
  babysitter : Bool

/-- `BusActivation`; the service files are looked up in the environment -/
structure BusActivation where
  pendingActivations : AList fun _ : List UInt8 => ℕ
  pendings : ℕ → Option BusPendingActivation
  nextPending : ℕ
  nPendingActivations : ℕ
  environment : AList fun _ : List UInt8 => List UInt8

/-! ## Transactions and connections -/

/-- `CancelHook`: a cancel function with its data -/
inductive CancelHook where
  | cancelOwnership (service owner : ℕ)
  | restoreOwnership (d : OwnershipRestoreData)
  | cancelPending (pending : ℕ)
  | restorePending (pending : ℕ)
  | cancelPendingReply (reply : ℕ)
  | cancelCheckPendingReply (reply : BusPendingReply)
deriving DecidableEq, Repr

/-- `BusTransaction`; `broadcasts` has the signals of the driver that have been put to the
    match rules, in order -/
structure BusTransaction where
  connections : List ℕ
  cancelHooks : List CancelHook
  broadcasts : List BusMessage

/-- `MessageToSend` -/
structure MessageToSend where
  transaction : ℕ
  message : BusMessage

/-- `BusConnectionData` -/
structure BusConnectionData where
  servicesOwned : List ℕ
  nServicesOwned : ℕ
  matchRules : List ℕ
  nMatchRules : ℕ
  name : Option (List UInt8)
  transactionMessages : List MessageToSend
  oomMessage : Option BusMessage

/-- The data of a connection that has just been accepted. -/
def BusConnectionData.new : BusConnectionData := ⟨[], 0, [], 0, none, [], none⟩

/-- A `DBusConnection` of the bus: whether its peer is still there, what the bus knows of
    it, and the messages that have been queued on it. -/
structure BusConnection where
  connected : Bool
  data : Option BusConnectionData
  outgoing : List BusMessage

/-- The state of the daemon. -/
structure Bus where
  connections : ℕ → BusConnection
  nextConnection : ℕ
  /-- `BusConnections`: the active connections and the others -/
  completed : List ℕ
  incomplete : List ℕ
  nCompleted : ℕ
  nIncomplete : ℕ
  completedByUser : ℕ → Option ℕ
  /-- the two counters of `create_unique_client_name`, with 0 for a minor number that is
      not positive -/
  nextMajorNumber : ℕ
  nextMinorNumber : ℕ
  registry : BusRegistry
  /-- the rules of the matchmaker, with their numbers -/
  allRules : List (ℕ × BusMatchRule)
  nextRule : ℕ
  pendingReplies : List BusPendingReply
  nextReply : ℕ
  activation : BusActivation
  transactions : ℕ → Option BusTransaction
  nextTransaction : ℕ
  /-- the signals of the driver put to the match rules in executed transactions -/
  broadcasts : List BusMessage

def Bus.empty : Bus where
  connections _ := ⟨false, none, []⟩
  nextConnection := 0
  completed := []
  incomplete := []
  nCompleted := 0
  nIncomplete := 0
  completedByUser _ := none
  nextMajorNumber := 0
  nextMinorNumber := 0
  registry := .new
  allRules := []
  nextRule := 0
  pendingReplies := []
  nextReply := 0
  activation := ⟨∅, fun _ => none, 0, 0, ∅⟩
  transactions _ := none
  nextTransaction := 0
  broadcasts := []

/-- What the daemon asks its surroundings. -/
structure BusEnv where
  maxServicesPerConnection : ℕ
  maxCompletedConnections : ℕ
  maxConnectionsPerUser : ℕ
  maxMatchRulesPerConnection : ℕ
  maxRepliesPerConnection : ℕ
  maxPendingActivations : ℕ
  /-- `bus_context_get_id`, in hexadecimal -/
  id : List UInt8
  /-- `bus_context_get_servicehelper` -/
  servicehelper : Option (List UInt8)
  /-- `bus_driver_generate_introspect_string` -/
  introspection : List UInt8
  /-- `_dbus_process_exists` -/
  processExists : ℤ → Bool
  /-- `bus_selinux_allows_acquire_service` -/
  selinuxAllowsAcquire : Bus → ℕ → List UInt8 → Bool
  /-- `bus_selinux_allows_send` -/
  selinuxAllowsSend : Bus → ℕ → Option ℕ → BusMessage → Bool
  /-- `bus_client_policy_check_can_own` -/
  canOwn : Bus → ℕ → List UInt8 → Bool
  /-- `bus_client_policy_check_can_send`, for the policy of a connection: whether the message
      is a requested reply, and the recipient -/
  canSend : Bus → ℕ → Bool → Option ℕ → BusMessage → Bool
  /-- `bus_client_policy_check_can_receive`, for the policy of a connection: whether the
      message is a requested reply, the sender and the addressed recipient -/
  canReceive : Bus → ℕ → Bool → Option ℕ → Option ℕ → BusMessage → Bool
  /-- what is written into the error if the security policy refuses a message -/
  refusal : Bus → BusMessage → List UInt8
  /-- whether the bytes waiting to be sent to a connection exceed the limit -/
  outgoingFull : Bus → ℕ → Bool
  /-- `bus_context_create_client_policy` -/
  createClientPolicy : ℕ → Except PlainError Unit
  /-- `dbus_connection_get_unix_user` -/
  unixUser : ℕ → Option ℕ
  /-- `dbus_connection_get_unix_process_id` -/
  unixProcessId : ℕ → Option ℕ
  /-- `dbus_connection_get_adt_audit_session_data` -/
  adtAuditSessionData : ℕ → Option (List UInt8)
  /-- `bus_connection_get_selinux_id` and `bus_selinux_append_context` -/
  selinuxContext : ℕ → Option (List UInt8)
  /-- `bus_match_rule_parse` -/
  matchRuleParse : ℕ → List UInt8 → Except PlainError BusMatchRule
  /-- `activation_find_entry` -/
  findEntry : List UInt8 → Except PlainError BusActivationEntry
  /-- the names of the service files -/
  activatable : List (List UInt8)
  /-- `_dbus_shell_parse_argv` -/
  shellParseArgv : List UInt8 → Except PlainError Unit
  /-- `_dbus_spawn_async_with_babysitter` -/
  spawn : List UInt8 → Except PlainError Unit
  /-- `bus_context_reload_config` -/
  reloadConfig : Except PlainError Unit

/-! ## Computations of the daemon -/

abbrev BusM := Eff Stop Bus DBusError

namespace BusM

/-- Allocate, or fail with `BUS_SET_OOM`. -/
def allocate : BusM Unit := Eff.allocate .oom

/-- `dbus_set_error` and a return: the error is out of memory if it cannot be set. -/
def fail {α : Type} (name : ErrorName) (message : List UInt8) : BusM α := do
  allocate
  Eff.throw ⟨name, message⟩

def ofExcept {α : Type} : Except PlainError α → BusM α
  | .ok a => pure a
  | .error e => do
    allocate
    Eff.throw e.1

/-- `_dbus_assert` -/
def assert (c : Prop) [Decidable c] : BusM Unit := Eff.check (DBus.assert c)

def read {α : Type} (f : Bus → Res α) : BusM α := Eff.lift fun bus => (f bus).map fun a => (.ok a, bus)

/-- `_dbus_wait_for_memory` and try again: a failed attempt is cancelled, so what counts
    is the one that has the memory it needs. -/
def waiting {α : Type} (x : BusM α) : BusM α := Eff.lift x.outcome

end BusM

namespace Bus

section
variable (bus : Bus)

section
variable (connection : ℕ)

/-- `BUS_CONNECTION_DATA`, of a connection that has it -/
def connectionData : Res BusConnectionData :=
  valueOr .assertion (bus.connections connection).data

/-- `bus_connection_is_active` -/
def isActive : Bool :=
  (bus.connections connection).data.any fun d => d.name.isSome

/-- `dbus_connection_get_is_connected` -/
def isConnected : Bool := (bus.connections connection).connected

/-- `bus_connection_get_name`, of a connection without data too -/
def connectionName : Option (List UInt8) :=
  (bus.connections connection).data.bind (·.name)

def setConnection (f : BusConnection → BusConnection) : Bus :=
  { bus with connections :=
      Function.update bus.connections connection (f (bus.connections connection)) }

def setData (f : BusConnectionData → BusConnectionData) : Bus :=
  bus.setConnection connection fun c => { c with data := c.data.map f }

end

def service (service : ℕ) : Res BusService :=
  valueOr .outside (bus.registry.services service)

def owner (owner : ℕ) : Res BusOwner := valueOr .outside (bus.registry.owners owner)

def transaction (transaction : ℕ) : Res BusTransaction :=
  valueOr .outside (bus.transactions transaction)

def pending (pending : ℕ) : Res BusPendingActivation :=
  valueOr .outside (bus.activation.pendings pending)

def setRegistry (f : BusRegistry → BusRegistry) : Bus :=
  { bus with registry := f bus.registry }

def setService (service : ℕ) (value : Option BusService) : Bus :=
  bus.setRegistry fun r => { r with services := Function.update r.services service value }

def setOwner (owner : ℕ) (value : Option BusOwner) : Bus :=
  bus.setRegistry fun r => { r with owners := Function.update r.owners owner value }

def setHash (f : AList (fun _ : List UInt8 => ℕ) → AList fun _ : List UInt8 => ℕ) : Bus :=
  bus.setRegistry fun r => { r with serviceHash := f r.serviceHash }

def setTransaction (transaction : ℕ) (value : Option BusTransaction) : Bus :=
  { bus with transactions := Function.update bus.transactions transaction value }

def setActivation (f : BusActivation → BusActivation) : Bus :=
  { bus with activation := f bus.activation }

def setPending (pending : ℕ) (value : Option BusPendingActivation) : Bus :=
  bus.setActivation fun a => { a with pendings := Function.update a.pendings pending value }

end

end Bus

end DBus
