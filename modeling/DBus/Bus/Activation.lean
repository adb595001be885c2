/-
  Activation.

  A message to a name that nobody owns, or a call of `StartServiceByName`, is kept in the
  pending activation of the name until somebody takes the name or the activation fails.
-/
import DBus.Bus.Send

namespace DBus

open BusM Eff

/-- `DBUS_START_REPLY_SUCCESS` -/
def startReplySuccess : ℕ := 1

/-- `DBUS_START_REPLY_ALREADY_RUNNING` -/
def startReplyAlreadyRunning : ℕ := 2

def Bus.pendingActivation (bus : Bus) (name : List UInt8) : Option ℕ :=
  bus.activation.pendingActivations.lookup name

def sendReply (env : BusEnv) (transaction connection : ℕ) (call : BusMessage) (body : List Value) :
    BusM Unit := do
  allocate
  busTransactionSendFromDriver env transaction connection
    { BusMessage.newMethodReturn call with body := body }

/-! ## A name gets an owner -/

/-- The answer to an entry of a pending activation that asked for the start. -/
def answerStarted (env : BusEnv) (transaction : ℕ) (entry : BusPendingActivationEntry) :
    BusM Unit := do
  let bus ← get
  if bus.isConnected entry.connection ∧ entry.autoActivation = false then
    sendReply env transaction entry.connection entry.activationMessage [.uint32 startReplySuccess]
  else pure ()

/-- `bus_activation_service_created` -/
def busActivationServiceCreated (env : BusEnv) (serviceName : List UInt8) (transaction : ℕ) :
    BusM Unit := do
  let bus ← get
  match bus.pendingActivation serviceName with
  | none => pure ()
  | some pending => do
    let p ← read (·.pending pending)
    forEach (answerStarted env transaction) p.entries

/-- `bus_service_get_primary_owner` -/
def busServiceGetPrimaryOwner (service : ℕ) : BusM (Option ℕ) := do
  let s ← read (·.service service)
  return s.owners.head?

/-- `bus_service_get_primary_owners_connection` -/
def busServiceGetPrimaryOwnersConnection (service : ℕ) : BusM (Option ℕ) := do
  match ← busServiceGetPrimaryOwner service with
  | none => return none
  | some owner => do
    let o ← read (·.owner owner)
    return some o.conn

/-- A kept message goes to the owner of the name, if it may. -/
def handOver (env : BusEnv) (transaction service : ℕ) (entry : BusPendingActivationEntry) :
    BusM Unit := do
  let bus ← get
  if entry.autoActivation = true ∧ bus.isConnected entry.connection then do
    let recipient ← busServiceGetPrimaryOwnersConnection service
    busContextCheckSecurityPolicy env transaction (some entry.connection) recipient recipient
      entry.activationMessage
    match recipient with
    | some connection => busTransactionSend transaction connection entry.activationMessage
    | none => BusM.assert False
  else pure ()

/-- `bus_activation_send_pending_auto_activation_messages` -/
def busActivationSendPendingAutoActivationMessages (env : BusEnv) (service transaction : ℕ) :
    BusM Unit := do
  let s ← read (·.service service)
  let bus ← get
  match bus.pendingActivation s.name with
  | none => pure ()
  | some pending => do
    let p ← read (·.pending pending)
    forEach (handOver env transaction service) p.entries
    -- `add_restore_pending_to_transaction`
    allocate
    busPendingActivationRef pending
    addCancelHook transaction (.restorePending pending)
    removePendingActivation s.name

/-! ## An activation fails -/

section
variable (env : BusEnv)

/-- The answer to an entry of a pending activation that has failed. -/
def answerFailed (transaction : ℕ) (how : DBusError) (entry : BusPendingActivationEntry) :
    BusM Unit := do
  let bus ← get
  if bus.isConnected entry.connection then
    busTransactionSendErrorReply env transaction entry.connection how entry.activationMessage
  else pure ()

section
variable (pending : ℕ) (how : DBusError)

/-- `try_send_activation_failure` -/
def trySendActivationFailure : BusM Unit := do
  let transaction ← busTransactionNew
  let p ← read (·.pending pending)
  (forEach (answerFailed env transaction how) p.entries).onError
    (busTransactionCancelAndFree transaction)
  busTransactionExecuteAndFree transaction

/-- `pending_activation_failed` -/
def pendingActivationFailed : BusM Unit := do
  waiting (trySendActivationFailure env pending how)
  let p ← read (·.pending pending)
  removePendingActivation p.serviceName

end

/-- `pending_activation_timed_out` -/
def pendingActivationTimedOut (pending : ℕ) : BusM Unit := do
  let p ← read (·.pending pending)
  pendingActivationFailed env pending ⟨.timedOut,
    asciiBytes "Activation of " ++ p.serviceName ++ asciiBytes " timed out"⟩

end

/-- The pending activations of the table other than `pending` that start the same program. -/
def Bus.sameExec (bus : Bus) (pending : ℕ) (exec : List UInt8) : List ℕ :=
  (bus.activation.pendingActivations.entries.map (·.2)).filter fun q =>
    q ≠ pending ∧ (bus.activation.pendings q).any (·.exec = exec)

/-- `babysitter_watch_callback`, where the child has exited with an error -/
def babysitterChildExited (env : BusEnv) (pending : ℕ) (error : DBusError) : BusM Unit := do
  let p ← read (·.pending pending)
  let bus ← get
  forEach (pendingActivationFailed env · error) (bus.sameExec pending p.exec)
  pendingActivationFailed env pending error

/-! ## An activation begins -/

/-- The entry of a service that is asked for again is put behind the others. -/
def appendEntry (pending : ℕ) (entry : BusPendingActivationEntry) : BusM Unit := do
  let p ← read (·.pending pending)
  modify fun bus => (bus.setPending pending (some { p with
    entries := p.entries ++ [entry], nEntries := p.nEntries + 1 })).setActivation fun a =>
      { a with nPendingActivations := a.nPendingActivations + 1 }

/-- The pending activation of a service that is asked for the first time. -/
def newPendingActivation (serviceName exec : List UInt8) (entry : BusPendingActivationEntry) :
    BusM ℕ := do
  let bus ← get
  let pending := bus.activation.nextPending
  modify fun bus => (bus.setPending pending (some ⟨1, serviceName, exec, [entry], 1, false⟩)
    ).setActivation fun a => { a with
      pendingActivations := a.pendingActivations.insert serviceName pending
      nextPending := pending + 1
      nPendingActivations := a.nPendingActivations + 1 }
  return pending

/-- The command line of a service: its own, or that of the helper. -/
def activationCommand (env : BusEnv) (serviceName : List UInt8) (entry : BusActivationEntry) :
    BusM (List UInt8) := do
  match env.servicehelper with
  | none => return entry.exec
  | some helper =>
    if entry.user = none then
      fail .spawnFileInvalid (asciiBytes "Cannot do system-bus activation with no user\n")
    else return helper ++ asciiBytes " " ++ serviceName

/-- The rest, which starts the program.  The environment it is given is left out. -/
def startProgram (env : BusEnv) (pending : ℕ) (serviceName : List UInt8)
    (entry : BusActivationEntry) : BusM Unit := do
  allocate
  let command ← activationCommand env serviceName entry
  (ofExcept (env.shellParseArgv command)).onError (removePendingActivation serviceName)
  allocate
  ofExcept (env.spawn command)
  let p ← read (·.pending pending)
  modify (·.setPending pending (some { p with babysitter := true }))

/-- `bus_activation_activate_service` -/
def busActivationActivateService (env : BusEnv) (connection transaction : ℕ)
    (autoActivation : Bool) (activationMessage : BusMessage) (serviceName : List UInt8) :
    BusM Unit := do
  let bus ← get
  if env.maxPendingActivations ≤ bus.activation.nPendingActivations then
    fail .limitsExceeded (asciiBytes
      "The maximum number of pending activations has been reached, activation of " ++
      serviceName ++ asciiBytes " failed")
  else do
    allocate
    let entry ← ofExcept (env.findEntry serviceName)
    if autoActivation = false ∧ bus.registry.lookup serviceName ≠ none then
      sendReply env transaction connection activationMessage [.uint32 startReplyAlreadyRunning]
    else do
      let pendingEntry : BusPendingActivationEntry := ⟨activationMessage, connection, autoActivation⟩
      allocate
      match bus.pendingActivation serviceName with
      | some pending => do
        appendEntry pending pendingEntry
        allocate.onError (removePendingActivation serviceName)
        busPendingActivationRef pending
        addCancelHook transaction (.cancelPending pending)
      | none => do
        -- a program that is being started for another name is not started again
        let activated := !(bus.sameExec bus.activation.nextPending entry.exec).isEmpty
        let pending ← newPendingActivation serviceName entry.exec pendingEntry
        allocate.onError (removePendingActivation serviceName)
        busPendingActivationRef pending
        addCancelHook transaction (.cancelPending pending)
        if activated then pure ()
        else startProgram env pending serviceName entry

end DBus
