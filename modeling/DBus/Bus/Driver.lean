/-
  The bus driver: what `org.freedesktop.DBus` does with a message.

  `message_handlers` is the list of the methods; the handler of each sends one reply or
  fails with an error, which `bus_dispatch` turns into the reply.
-/
import DBus.Bus.Services

namespace DBus

open BusM Eff

/-! ## Hello -/

/-- `_dbus_string_append_int`, of a number that is not negative -/
def decimal (n : ℕ) : List UInt8 := (Nat.toDigits 10 n).map Char.toUInt8

def uniqueName (major minor : ℕ) : List UInt8 :=
  ':'.toUInt8 :: (decimal major ++ '.'.toUInt8 :: decimal minor)

/-- `create_unique_client_name`: the loop, which ends with a name that nobody owns -/
def createUniqueClientName : ℕ → BusM (List UInt8)
  | 0 => Eff.check (.error .fuel)
  | fuel + 1 => do
    let bus ← get
    let major := if bus.nextMinorNumber = 0 then bus.nextMajorNumber + 1 else bus.nextMajorNumber
    let minor := bus.nextMinorNumber
    BusM.assert (major ≤ int32Max)
    modify fun bus => { bus with nextMajorNumber := major }
    allocate
    modify fun bus => { bus with nextMinorNumber := if minor = int32Max then 0 else minor + 1 }
    if bus.registry.lookup (uniqueName major minor) = none then return uniqueName major minor
    else createUniqueClientName fuel

section
variable (env : BusEnv) (connection : ℕ)

/-- `get_connections_for_uid` -/
def Bus.connectionsForUid (bus : Bus) (uid : ℕ) : ℕ := (bus.completedByUser uid).getD 0

def Bus.setUser (bus : Bus) (uid : ℕ) (entry : Option ℕ) : Bus :=
  { bus with completedByUser := Function.update bus.completedByUser uid entry }

/-- `adjust_connections_for_uid`: a count of zero has no entry, and a new entry is allocated -/
def adjustConnectionsForUid (uid : ℕ) (adjustment : ℤ) : BusM Unit := do
  let bus ← get
  let count := bus.connectionsForUid uid + adjustment
  BusM.assert (0 ≤ count)
  if count = 0 then modify (·.setUser uid none)
  else do
    if bus.completedByUser uid = none then allocate.onError (BusM.assert (0 < adjustment))
    else pure ()
    modify (·.setUser uid (some count.toNat))

/-- `bus_connections_check_limits` -/
def busConnectionsCheckLimits : BusM Unit := do
  let bus ← get
  if env.maxCompletedConnections ≤ bus.nCompleted then
    fail .limitsExceeded (asciiBytes "The maximum number of active connections has been reached")
  else
    match env.unixUser connection with
    | none => pure ()
    | some uid =>
      if env.maxConnectionsPerUser ≤ bus.connectionsForUid uid then
        fail .limitsExceeded (asciiBytes "The maximum number of active connections for UID " ++
          decimal uid ++ asciiBytes " has been reached")
      else pure ()

/-- `bus_connection_complete`; the name and the policy are taken back if it fails -/
def busConnectionComplete (name : List UInt8) : BusM Unit := do
  let d ← read (·.connectionData connection)
  BusM.assert (d.name = none)
  allocate
  ofExcept (env.createClientPolicy connection)
  match env.unixUser connection with
  | none => pure ()
  | some uid => adjustConnectionsForUid uid 1
  allocate
  let bus ← get
  BusM.assert (0 < bus.nIncomplete)
  modify fun bus => { (bus.setData connection fun d => { d with name := some name }) with
    incomplete := bus.incomplete.erase connection
    nIncomplete := bus.nIncomplete - 1
    completed := bus.completed ++ [connection]
    nCompleted := bus.nCompleted + 1 }

end

/-- `bus_driver_handle_hello`, which sets the sender of the message -/
def busDriverHandleHello (env : BusEnv) (connection transaction : ℕ) (message : BusMessage) :
    BusM BusMessage := do
  let bus ← get
  if bus.isActive connection then
    fail .failed (asciiBytes "Already handled an Hello message")
  else do
    busConnectionsCheckLimits env connection
    let name ← createUniqueClientName (bus.registry.serviceHash.keys.length + 1)
    busConnectionComplete env connection name
    allocate
    let message := { message with sender := some name }
    sendReply env transaction connection message [.text name]
    let _ ← busRegistryEnsure env name connection ⟨false, false, false⟩ transaction
    return message

/-! ## Names -/

section
variable (env : BusEnv) (connection transaction : ℕ) (message : BusMessage)

/-- `bus_driver_handle_acquire_service` -/
def busDriverHandleAcquireService : BusM Unit := do
  match message.body with
  | [.str _ name, .fixed _ flags] => do
    let reply ← busRegistryAcquireService env connection name (.ofNat flags) transaction
    sendReply env transaction connection message [.uint32 reply.code]
  | _ => fail .invalidArgs []

/-- `bus_driver_handle_release_service` -/
def busDriverHandleReleaseService : BusM Unit := do
  match message.body with
  | [.str _ name] => do
    let reply ← busRegistryReleaseService env connection name transaction
    sendReply env transaction connection message [.uint32 reply.code]
  | _ => fail .invalidArgs []

/-- `bus_driver_handle_activate_service` -/
def busDriverHandleActivateService : BusM Unit := do
  match message.body with
  | [.str _ name, .fixed _ _] =>
    busActivationActivateService env connection transaction false message name
  | _ => fail .invalidArgs []

end

/-! ## Activation environment -/

/-- The keys and values of an argument of type `a{ss}`. -/
def environmentEntries : List Value → List (List UInt8 × List UInt8)
  | .struct _ [.str _ key, .str _ value] :: rest => (key, value) :: environmentEntries rest
  | _ => []

/-- `bus_activation_set_environment_variable` -/
def busActivationSetEnvironmentVariable (entry : List UInt8 × List UInt8) : BusM Unit := do
  allocate
  modify (·.setActivation fun a => { a with environment := a.environment.insert entry.1 entry.2 })

/-- `bus_driver_handle_update_activation_environment` -/
def busDriverHandleUpdateActivationEnvironment (env : BusEnv) (connection transaction : ℕ)
    (message : BusMessage) : BusM Unit := do
  match message.body with
  | [.array _ entries] => do
    let entries := environmentEntries entries
    forEach (fun _ => allocate) entries
    forEach busActivationSetEnvironmentVariable entries
    sendReply env transaction connection message []
  | _ => fail .invalidArgs []

/-! ## Match rules -/

/-- `bus_matchmaker_add_rule` -/
def busMatchmakerAddRule (rule : BusMatchRule) : BusM ℕ := do
  let bus ← get
  BusM.assert (bus.isActive rule.matchesGoTo = true)
  allocate
  modify fun bus => { (bus.setData rule.matchesGoTo fun d => { d with
      matchRules := d.matchRules ++ [bus.nextRule], nMatchRules := d.nMatchRules + 1 }) with
    allRules := bus.allRules ++ [(bus.nextRule, rule)]
    nextRule := bus.nextRule + 1 }
  return bus.nextRule

/-- `bus_matchmaker_remove_rule_link` -/
def busMatchmakerRemoveRuleLink (rule : ℕ × BusMatchRule) : BusM Unit := do
  let d ← read (·.connectionData rule.2.matchesGoTo)
  BusM.assert (0 < d.nMatchRules)
  modify fun bus => { (bus.setData rule.2.matchesGoTo fun d => { d with
      matchRules := removeLast rule.1 d.matchRules, nMatchRules := d.nMatchRules - 1 }) with
    allRules := bus.allRules.filter (·.1 ≠ rule.1) }

/-- An element of `arg_lens`: a length, and whether it has the bit `BUS_MATCH_ARG_IS_PATH`, which
    no length of a text in a rule reaches. -/
def argLen (arg : Option (List UInt8 × Bool)) : ℕ × Bool :=
  arg.elim (0, false) fun (text, isPath) => (text.length, isPath)

/-- The loop of `match_rule_equal` over the arguments of rules that have equally many. -/
def argsEqual : List (Option (List UInt8 × Bool)) → List (Option (List UInt8 × Bool)) → Bool
  | a :: as, b :: bs =>
    if a.isSome ≠ b.isSome then false
    else if argLen a ≠ argLen b then false
    else if (a.map (·.1.take (argLen a).1)) ≠ b.map (·.1.take (argLen a).1) then false
    else argsEqual as bs
  | _, _ => true

/-- `match_rule_equal` -/
def matchRuleEqual (a b : BusMatchRule) : Bool :=
  a.flags = b.flags && a.matchesGoTo = b.matchesGoTo &&
    (a.messageType.isSome → a.messageType = b.messageType) &&
    (a.member.isSome → a.member = b.member) && (a.path.isSome → a.path = b.path) &&
    (a.interface.isSome → a.interface = b.interface) && (a.sender.isSome → a.sender = b.sender) &&
    (a.destination.isSome → a.destination = b.destination) &&
    (a.args ≠ [] → a.args.length = b.args.length ∧ argsEqual a.args b.args = true)

/-- The rule of the matchmaker that equals a rule, the newest if there are several. -/
def Bus.findRule (bus : Bus) (rule : BusMatchRule) : Option (ℕ × BusMatchRule) :=
  bus.allRules.reverse.find? fun r => matchRuleEqual r.2 rule

/-- `bus_matchmaker_remove_rule_by_value` -/
def busMatchmakerRemoveRuleByValue (rule : BusMatchRule) : BusM Unit := do
  let bus ← get
  match bus.findRule rule with
  | some r => busMatchmakerRemoveRuleLink r
  | none => fail .matchRuleNotFound (asciiBytes
      "The given match rule wasn't found and can't be removed")

section
variable (env : BusEnv) (connection transaction : ℕ) (message : BusMessage)

/-- `bus_driver_handle_add_match` -/
def busDriverHandleAddMatch : BusM Unit := do
  let bus ← get
  let d ← read (·.connectionData connection)
  if env.maxMatchRulesPerConnection ≤ d.nMatchRules then
    fail .limitsExceeded (asciiBytes "Connection \"" ++ bus.shownName connection ++
      asciiBytes "\" is not allowed to add more match rules " ++
      asciiBytes "(increase limits in configuration file if required)")
  else
    match message.body with
    | [.str _ text] => do
      allocate
      let rule ← ofExcept (env.matchRuleParse connection text)
      let added ← busMatchmakerAddRule { rule with matchesGoTo := connection }
      (sendReply env transaction connection message []).onError
        (busMatchmakerRemoveRuleLink (added, { rule with matchesGoTo := connection }))
    | _ => fail .invalidArgs []

/-- `bus_driver_handle_remove_match`: the reply is sent before the rule is looked for -/
def busDriverHandleRemoveMatch : BusM Unit := do
  match message.body with
  | [.str _ text] => do
    allocate
    let rule ← ofExcept (env.matchRuleParse connection text)
    sendReply env transaction connection message []
    busMatchmakerRemoveRuleByValue { rule with matchesGoTo := connection }
  | _ => fail .invalidArgs []

end

/-! ## Questions -/

/-- The arguments of the reply to a question, or the error. -/
abbrev Answer := BusEnv → Bus → List UInt8 → Res (Except PlainError (List Value))

def noAnswer (name : ErrorName) (message : List UInt8) (h : name ≠ .noMemory := by decide) :
    Res (Except PlainError (List Value)) :=
  .ok (.error ⟨⟨name, message⟩, h⟩)

def answer (f : BusEnv → Bus → Res (Except PlainError (List Value))) (env : BusEnv)
    (connection transaction : ℕ) (message : BusMessage) : BusM Unit := do
  let bus ← get
  let body ← Eff.check (f env bus)
  let body ← ofExcept body
  sendReply env transaction connection message body

/-- A handler that reads the state for a name and replies. -/
def answerName (f : Answer) (env : BusEnv) (connection transaction : ℕ) (message : BusMessage) :
    BusM Unit := do
  match message.body with
  | [.str _ name] => answer (fun env bus => f env bus name) env connection transaction message
  | _ => fail .invalidArgs []

def Bus.primaryConnection (bus : Bus) (service : ℕ) : Res ℕ := do
  let s ← bus.service service
  let owner ← Outcome.valueOr .assertion s.owners.head?
  let o ← bus.owner owner
  return o.conn

/-- `bus_driver_handle_service_exists` -/
def serviceExists : Answer := fun env bus name => do
  let pid := (bus.registry.uniquePidHash.lookup name).getD 0
  let registered : Bool := bus.registry.lookup name ≠ none ∧ (pid = 0 ∨ env.processExists pid)
  let exist : Bool := name = serviceDBus ∨ registered
  return .ok [.fixed .boolean (if exist then 1 else 0)]

/-- `bus_driver_handle_list_services` -/
def listServices (_ : BusEnv) (bus : Bus) : Res (Except PlainError (List Value)) :=
  .ok (.ok [.texts (serviceDBus :: bus.registry.serviceHash.keys)])

/-- `bus_driver_handle_list_activatable_services` -/
def listActivatableServices (env : BusEnv) (_ : Bus) : Res (Except PlainError (List Value)) :=
  .ok (.ok [.texts (serviceDBus :: env.activatable)])

/-- `bus_driver_handle_get_service_owner` -/
def getServiceOwner : Answer := fun _ bus name => do
  match bus.registry.lookup name with
  | none =>
    if name = serviceDBus then return .ok [.text serviceDBus]
    else noAnswer .nameHasNoOwner (asciiBytes "Could not get owner of name '" ++ name ++
      asciiBytes "': no such name")
  | some service => do
    let connection ← bus.primaryConnection service
    match bus.connectionName connection with
    | none => noAnswer .failed (asciiBytes "Could not determine unique name for '" ++ name ++
        asciiBytes "'")
    | some baseName => do
      DBus.assert (baseName.head? = some ':'.toUInt8)
      return .ok [.text baseName]

/-- `bus_service_list_queued_owners` -/
def Bus.queuedOwners (bus : Bus) : List ℕ → Res (List (List UInt8))
  | [] => .ok []
  | owner :: rest => do
    let o ← bus.owner owner
    let name ← Outcome.valueOr .assertion (bus.connectionName o.conn)
    let names ← bus.queuedOwners rest
    return name :: names

/-- `bus_driver_handle_list_queued_owners` -/
def listQueuedOwners : Answer := fun _ bus name => do
  match bus.registry.lookup name with
  | none =>
    if name = serviceDBus then return .ok [.texts [serviceDBus]]
    else noAnswer .nameHasNoOwner (asciiBytes "Could not get owners of name '" ++ name ++
      asciiBytes "': no such name")
  | some service => do
    let s ← bus.service service
    DBus.assert (s.owners ≠ [])
    let names ← bus.queuedOwners s.owners
    return .ok [.texts names]

/-- A question about the primary owner of a name: what is asked for, the answer, and the
    error if there is none. -/
def ownerInformation (what : String) (information : BusEnv → ℕ → Option (List Value))
    (error : { e : ErrorName // e ≠ .noMemory }) (determine : String) : Answer :=
  fun env bus name => do
    match bus.registry.lookup name with
    | none => noAnswer .nameHasNoOwner (asciiBytes ("Could not get " ++ what ++ " name '") ++
        name ++ asciiBytes "': no such name")
    | some service => do
      let connection ← bus.primaryConnection service
      match information env connection with
      | none => noAnswer error.1 (asciiBytes ("Could not determine " ++ determine ++ " for '") ++
          name ++ asciiBytes "'") error.2
      | some body => return .ok body

/-- `bus_driver_handle_get_connection_unix_user` -/
def getConnectionUnixUser : Answer :=
  ownerInformation "UID of" (fun env c => (env.unixUser c).map fun uid => [.uint32 uid])
    ⟨.failed, nofun⟩ "UID"

/-- `bus_driver_handle_get_connection_unix_process_id` -/
def getConnectionUnixProcessId : Answer :=
  ownerInformation "PID of" (fun env c => (env.unixProcessId c).map fun pid => [.uint32 pid])
    ⟨.unixProcessIdUnknown, nofun⟩ "PID"

/-- `bus_driver_handle_get_adt_audit_session_data` -/
def getAdtAuditSessionData : Answer :=
  ownerInformation "audit session data for"
    (fun env c => (env.adtAuditSessionData c).map fun data => [.bytes data])
    ⟨.adtAuditDataUnknown, nofun⟩ "audit session data"

/-- `bus_driver_handle_get_connection_selinux_security_context` -/
def getConnectionSelinuxSecurityContext : Answer :=
  ownerInformation "security context of"
    (fun env c => (env.selinuxContext c).map fun context => [.bytes context])
    ⟨.selinuxSecurityContextUnknown, nofun⟩ "security context"

/-- `bus_driver_handle_reload_config` -/
def reloadConfig (env : BusEnv) (_ : Bus) : Res (Except PlainError (List Value)) :=
  .ok (env.reloadConfig.map fun _ => [])

/-- `bus_driver_handle_get_id` -/
def getId (env : BusEnv) (_ : Bus) : Res (Except PlainError (List Value)) :=
  .ok (.ok [.text env.id])

/-- `bus_driver_handle_introspect` -/
def introspect (env : BusEnv) (_ : Bus) : Res (Except PlainError (List Value)) :=
  .ok (.ok [.text env.introspection])

/-! ## The table of the methods -/

/-- The methods of `message_handlers`. -/
inductive DriverMethod where
  | hello
  | requestName
  | releaseName
  | startServiceByName
  | updateActivationEnvironment
  | nameHasOwner
  | listNames
  | listActivatableNames
  | addMatch
  | removeMatch
  | getNameOwner
  | listQueuedOwners
  | getConnectionUnixUser
  | getConnectionUnixProcessId
  | getAdtAuditSessionData
  | getConnectionSelinuxSecurityContext
  | reloadConfig
  | getId
deriving DecidableEq, Repr

namespace DriverMethod

def all : List DriverMethod :=
  [hello, requestName, releaseName, startServiceByName, updateActivationEnvironment, nameHasOwner,
    listNames, listActivatableNames, addMatch, removeMatch, getNameOwner, listQueuedOwners,
    getConnectionUnixUser, getConnectionUnixProcessId, getAdtAuditSessionData,
    getConnectionSelinuxSecurityContext, reloadConfig, getId]

def name : DriverMethod → String
  | hello => "Hello"
  | requestName => "RequestName"
  | releaseName => "ReleaseName"
  | startServiceByName => "StartServiceByName"
  | updateActivationEnvironment => "UpdateActivationEnvironment"
  | nameHasOwner => "NameHasOwner"
  | listNames => "ListNames"
  | listActivatableNames => "ListActivatableNames"
  | addMatch => "AddMatch"
  | removeMatch => "RemoveMatch"
  | getNameOwner => "GetNameOwner"
  | listQueuedOwners => "ListQueuedOwners"
  | getConnectionUnixUser => "GetConnectionUnixUser"
  | getConnectionUnixProcessId => "GetConnectionUnixProcessID"
  | getAdtAuditSessionData => "GetAdtAuditSessionData"
  | getConnectionSelinuxSecurityContext => "GetConnectionSELinuxSecurityContext"
  | reloadConfig => "ReloadConfig"
  | getId => "GetId"

def inArgs : DriverMethod → String
  | hello | listNames | listActivatableNames | reloadConfig | getId => ""
  | requestName | startServiceByName => "su"
  | updateActivationEnvironment => "a\x7bss\x7d"
  | _ => "s"

/-- The handler of a method; it returns the message, of which it may set the sender. -/
def handler (method : DriverMethod) (env : BusEnv) (connection transaction : ℕ)
    (message : BusMessage) : BusM BusMessage :=
  let unchanged (f : BusEnv → ℕ → ℕ → BusMessage → BusM Unit) : BusM BusMessage := do
    f env connection transaction message
    return message
  match method with
  | hello => busDriverHandleHello env connection transaction message
  | requestName => unchanged busDriverHandleAcquireService
  | releaseName => unchanged busDriverHandleReleaseService
  | startServiceByName => unchanged busDriverHandleActivateService
  | updateActivationEnvironment => unchanged busDriverHandleUpdateActivationEnvironment
  | nameHasOwner => unchanged (answerName serviceExists)
  | listNames => unchanged (answer listServices)
  | listActivatableNames => unchanged (answer listActivatableServices)
  | addMatch => unchanged busDriverHandleAddMatch
  | removeMatch => unchanged busDriverHandleRemoveMatch
  | getNameOwner => unchanged (answerName getServiceOwner)
  | listQueuedOwners => unchanged (answerName DBus.listQueuedOwners)
  | getConnectionUnixUser => unchanged (answerName DBus.getConnectionUnixUser)
  | getConnectionUnixProcessId => unchanged (answerName DBus.getConnectionUnixProcessId)
  | getAdtAuditSessionData => unchanged (answerName DBus.getAdtAuditSessionData)
  | getConnectionSelinuxSecurityContext =>
    unchanged (answerName DBus.getConnectionSelinuxSecurityContext)
  | reloadConfig => unchanged (answer DBus.reloadConfig)
  | getId => unchanged (answer DBus.getId)

end DriverMethod

/-- The error for a message that is none of the methods. -/
def unknownMethod {α : Type} (member : List UInt8) : BusM α :=
  fail .unknownMethod (serviceDBus ++ asciiBytes " does not understand message " ++ member)

/-- `bus_driver_handle_message` -/
def busDriverHandleMessage (env : BusEnv) (connection transaction : ℕ) (message : BusMessage) :
    BusM BusMessage := do
  if message.type ≠ .methodCall then return message
  else if message.isMethodCall interfaceIntrospectable "Introspect" then do
    answer introspect env connection transaction message
    return message
  else do
    let member ← Eff.check (Outcome.valueOr .assertion message.member)
    if message.interface.getD interfaceDBus ≠ interfaceDBus then unknownMethod member
    else do
      BusM.assert (message.sender ≠ none ∨ member = asciiBytes "Hello")
      match DriverMethod.all.find? fun method => asciiBytes method.name = member with
      | none => unknownMethod member
      | some method =>
        if message.signature = asciiBytes method.inArgs then
          method.handler env connection transaction message
        else fail .invalidArgs (asciiBytes "Call to " ++ member ++ asciiBytes " has wrong args (" ++
          message.signature ++ asciiBytes ", expected " ++ asciiBytes method.inArgs ++
          asciiBytes ")\n")

end DBus
