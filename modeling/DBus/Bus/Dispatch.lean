/-
  Dispatching: what the bus does with a message from a connection, and the events that
  make up a run of the daemon.

  An error is answered in the transaction of the message, which is then executed; only if
  memory has run out the transaction is cancelled.
-/
import DBus.Bus.Driver

namespace DBus

open BusM Eff

/-! ## Disconnection -/

/-- The rules that go with a connection: its own, and those that name it.  That what they name
    starts with a colon, which the source tests first, is so for names of connections. -/
def Bus.rulesOf (bus : Bus) (connection : ℕ) : List (ℕ × BusMatchRule) :=
  bus.allRules.filter fun r =>
    r.2.matchesGoTo = connection ∨ (r.2.sender ≠ none ∧ r.2.sender = bus.connectionName connection) ∨
      (r.2.destination ≠ none ∧ r.2.destination = bus.connectionName connection)

/-- `bus_matchmaker_disconnected` -/
def busMatchmakerDisconnected (connection : ℕ) : BusM Unit := do
  let bus ← get
  BusM.assert (bus.isActive connection = true)
  forEach busMatchmakerRemoveRuleLink (bus.rulesOf connection)

/-- One round of the loop of `bus_connection_disconnected`. -/
def dropService (env : BusEnv) (connection service : ℕ) : BusM Unit := do
  let transaction ← busTransactionNew
  busServiceRemoveOwner env service connection transaction
  busTransactionExecuteAndFree transaction

/-- The loop of `bus_connection_disconnected` that drops all ownership, the last service first. -/
def dropServices (env : BusEnv) (connection : ℕ) : ℕ → BusM Unit
  | 0 => do
    let d ← read (·.connectionData connection)
    if d.servicesOwned = [] then pure () else Eff.check (.error .fuel)
  | fuel + 1 => do
    let d ← read (·.connectionData connection)
    match d.servicesOwned.getLast? with
    | none => pure ()
    | some service => do
      dropService env connection service
      dropServices env connection fuel

def forgetConnection (connection : ℕ) (message : MessageToSend) : BusM Unit :=
  modify fun bus => bus.setTransaction message.transaction
    ((bus.transactions message.transaction).map fun t =>
      { t with connections := t.connections.erase connection })

/-- `bus_connection_remove_transactions` -/
def busConnectionRemoveTransactions (connection : ℕ) : BusM Unit := do
  let d ← read (·.connectionData connection)
  forEach (forgetConnection connection) d.transactionMessages
  modify (·.setData connection fun d => { d with transactionMessages := [] })

def leaveConnections (env : BusEnv) (connection : ℕ) : BusM Unit := do
  let d ← read (·.connectionData connection)
  let bus ← get
  if d.name = none then do
    BusM.assert (0 < bus.nIncomplete)
    modify fun bus => { bus with
      incomplete := bus.incomplete.erase connection
      nIncomplete := bus.nIncomplete - 1 }
  else do
    BusM.assert (0 < bus.nCompleted)
    modify fun bus => { bus with
      completed := bus.completed.erase connection
      nCompleted := bus.nCompleted - 1 }
    match env.unixUser connection with
    | none => pure ()
    | some uid => adjustConnectionsForUid uid (-1)

/-- `bus_connection_drop_pending_replies`; a reply that nobody will send expires with the
    next check of the list -/
def busConnectionDropPendingReplies (connection : ℕ) : BusM Unit :=
  modify fun bus => { bus with
    pendingReplies := (bus.pendingReplies.filter (·.willGetReply ≠ connection)).map fun r =>
      if r.willSendReply = some connection then { r with willSendReply := none } else r }

/-- `bus_connection_disconnected` -/
def busConnectionDisconnected (env : BusEnv) (connection : ℕ) : BusM Unit := do
  let d ← read (·.connectionData connection)
  if 0 < d.nMatchRules then busMatchmakerDisconnected connection else pure ()
  let d ← read (·.connectionData connection)
  waiting (dropServices env connection d.servicesOwned.length)
  busConnectionRemoveTransactions connection
  leaveConnections env connection
  busConnectionDropPendingReplies connection
  modify (·.setConnection connection fun c => { c with data := none })

/-! ## Messages -/

/-- `bus_connection_preallocate_oom_error` -/
def busConnectionPreallocateOomError (connection : ℕ) : BusM Unit := do
  let d ← read (·.connectionData connection)
  match d.oomMessage with
  | some _ => pure ()
  | none => modify (·.setData connection fun d => { d with oomMessage := some {
      type := .error, errorName := some (asciiBytes ErrorName.noMemory.text), destination := d.name,
      sender := some serviceDBus, replySerial := 14 } })

/-- `bus_connection_send_oom_error` -/
def busConnectionSendOomError (connection : ℕ) (inReplyTo : BusMessage) : BusM Unit := do
  let d ← read (·.connectionData connection)
  match d.oomMessage with
  | none => BusM.assert False
  | some m => modify fun bus => (bus.setData connection fun d => { d with oomMessage := none }
    ).setConnection connection fun c =>
      { c with outgoing := c.outgoing ++ [{ m with replySerial := inReplyTo.serial }] }

section
variable (env : BusEnv) (connection transaction : ℕ) (message : BusMessage)

/-- A message to a name: to its owner, or to whoever will be. -/
def routeToName (serviceName : List UInt8) : BusM Unit := do
  let bus ← get
  match bus.registry.lookup serviceName with
  | none =>
    if message.autoStart then
      busActivationActivateService env connection transaction true message serviceName
    else fail .nameHasNoOwner (asciiBytes "Name \"" ++ serviceName ++ asciiBytes "\" does not exist")
  | some service => do
    match ← busServiceGetPrimaryOwnersConnection service with
    | none => BusM.assert False
    | some recipient => do
      busContextCheckSecurityPolicy env transaction (some connection) (some recipient)
        (some recipient) message
      busTransactionSend transaction recipient message
      busDispatchMatches env transaction (some connection) (some recipient) message

/-- The part of `bus_dispatch` that may fail with an error. -/
def busDispatchMessage : BusM Unit := do
  let bus ← get
  let message ← (match bus.connectionName connection with
    | none => pure message
    | some name => do
      allocate
      return { message with sender := some name })
  if message.destination = some serviceDBus then do
    busContextCheckSecurityPolicy env transaction (some connection) none none message
    let message ← busDriverHandleMessage env connection transaction message
    busDispatchMatches env transaction (some connection) none message
  else if bus.isActive connection = false then
    -- clients must talk to the driver first
    modify (·.setConnection connection fun c => { c with connected := false })
  else
    match message.destination with
    | some serviceName => routeToName env connection transaction message serviceName
    | none => busDispatchMatches env transaction (some connection) none message

/-- How `bus_dispatch` answers an error. -/
def busDispatchError (error : DBusError) : BusM Unit := do
  let bus ← get
  if bus.isConnected connection = false then busTransactionExecuteAndFree transaction
  else if error.name = .noMemory then do
    busConnectionSendOomError connection message
    busTransactionCancelAndFree transaction
  else
    match ← attempt (busTransactionSendErrorReply env transaction connection error message) with
    | .ok _ => busTransactionExecuteAndFree transaction
    | .error _ => do
      busConnectionSendOomError connection message
      busTransactionCancelAndFree transaction

end

section
variable (env : BusEnv) (connection : ℕ) (message : BusMessage)

/-- A message is handled in a transaction of its own. -/
def busDispatchTransaction : BusM Unit := do
  match ← attempt busTransactionNew with
  | .error _ => do
    let bus ← get
    if bus.isConnected connection then busConnectionSendOomError connection message else pure ()
  | .ok transaction =>
    match ← attempt (busDispatchMessage env connection transaction message) with
    | .ok _ => busTransactionExecuteAndFree transaction
    | .error error => busDispatchError env connection transaction message error

/-- `bus_dispatch`; a message without destination that is not a signal is left to the connection -/
def busDispatch : BusM Unit := do
  busConnectionPreallocateOomError connection
  if message.destination = none then
    if message.isSignal localInterface "Disconnected" then busConnectionDisconnected env connection
    else if message.type ≠ .signal then pure ()
    else busDispatchTransaction env connection message
  else busDispatchTransaction env connection message

end

/-! ## Replies that do not come -/

/-- `bus_pending_reply_send_no_reply` -/
def busPendingReplySendNoReply (env : BusEnv) (transaction : ℕ) (pending : BusPendingReply) :
    BusM Unit := do
  allocate
  busTransactionSendFromDriver env transaction pending.willGetReply
    { type := .error, noReply := true, replySerial := pending.replySerial
      errorName := some (asciiBytes ErrorName.noReply.text)
      body := [.text (asciiBytes "Message did not receive a reply (timeout by message bus)")] }

/-- `bus_pending_reply_expired` -/
def busPendingReplyExpired (env : BusEnv) (pending : BusPendingReply) : BusM Unit := do
  match ← attempt busTransactionNew with
  | .error _ => pure ()
  | .ok transaction =>
    match ← attempt (busPendingReplySendNoReply env transaction pending) with
    | .error _ => busTransactionCancelAndFree transaction
    | .ok _ => do
      modify fun bus => { bus with pendingReplies := bus.pendingReplies.erase pending }
      busTransactionExecuteAndFree transaction

/-! ## Runs of the daemon -/

/-- The message that a connection puts behind the others when its peer is gone. -/
def disconnectedMessage : BusMessage :=
  { type := .signal, path := some localPath, interface := some localInterface,
    member := some (asciiBytes "Disconnected") }

/-- `bus_connections_setup_connection` -/
def busConnectionsSetupConnection : BusM Unit :=
  modify fun bus => { (bus.setConnection bus.nextConnection fun c =>
      { c with connected := true, data := some .new }) with
    nextConnection := bus.nextConnection + 1
    incomplete := bus.incomplete ++ [bus.nextConnection]
    nIncomplete := bus.nIncomplete + 1 }

/-- What happens to the daemon. -/
inductive BusEvent where
  /-- a peer connects -/
  | connect
  /-- the peer of a connection is gone -/
  | lost (connection : ℕ)
  /-- a message from a connection is dispatched -/
  | message (env : BusEnv) (connection : ℕ) (message : BusMessage)
  /-- the disconnection of a connection is dispatched -/
  | disconnected (env : BusEnv) (connection : ℕ)
  /-- the timeout of a pending activation -/
  | timedOut (env : BusEnv) (pending : ℕ)
  /-- the program of a pending activation has exited -/
  | childExited (env : BusEnv) (pending : ℕ) (error : DBusError)
  /-- a pending reply expires -/
  | expired (env : BusEnv) (reply : ℕ)

/-- What the daemon does when something happens; what cannot happen to it changes nothing.
    Messages about the connection itself come from no peer. -/
def busStep : BusEvent → BusM Unit
  | .connect => busConnectionsSetupConnection
  | .lost connection => modify (·.setConnection connection fun c => { c with connected := false })
  | .message env connection message => do
    let bus ← get
    if (bus.connections connection).data.isSome ∧ message.interface ≠ some localInterface then
      busDispatch env connection message
    else pure ()
  | .disconnected env connection => do
    let bus ← get
    if (bus.connections connection).data.isSome then do
      modify (·.setConnection connection fun c => { c with connected := false })
      busDispatch env connection disconnectedMessage
    else pure ()
  | .timedOut env pending => do
    let bus ← get
    if (bus.activation.pendings pending).isSome then pendingActivationTimedOut env pending
    else pure ()
  | .childExited env pending error => do
    let bus ← get
    if (bus.activation.pendings pending).any (·.babysitter) then
      babysitterChildExited env pending error
    else pure ()
  | .expired env reply => do
    let bus ← get
    match bus.pendingReplies.find? (·.id = reply) with
    | some pending => busPendingReplyExpired env pending
    | none => pure ()

/-- A run of the daemon in which no allocation fails. -/
def busRun : List BusEvent → Bus → Res Bus
  | [], bus => .ok bus
  | event :: events, bus =>
    match (busStep event).outcome bus with
    | .ok (_, bus') => busRun events bus'
    | .error stop => .error stop

end DBus
