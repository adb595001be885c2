/-
  References, cancel hooks and transactions.

  A service is held by the table of names and by the hooks of open transactions, an owner
  by the list of its service and by hooks; each goes with the last reference.

  A transaction collects messages and, newest first, the hooks that undo what has been
  done on its behalf.
-/
import DBus.Bus.State

namespace DBus

open BusM Eff

/-! ## Owned services -/

/-- `_dbus_list_remove_last` -/
def removeLast {α : Type} [DecidableEq α] (a : α) (l : List α) : List α := (l.reverse.erase a).reverse

/-- `bus_connection_add_owned_service_link` -/
def busConnectionAddOwnedServiceLink (connection service : ℕ) : BusM Unit := do
  let _ ← read (·.connectionData connection)
  modify (·.setData connection fun d =>
    { d with servicesOwned := d.servicesOwned ++ [service], nServicesOwned := d.nServicesOwned + 1 })

/-- `bus_connection_remove_owned_service` -/
def busConnectionRemoveOwnedService (connection service : ℕ) : BusM Unit := do
  let d ← read (·.connectionData connection)
  BusM.assert (0 < d.nServicesOwned)
  modify (·.setData connection fun d =>
    { d with
      servicesOwned := removeLast service d.servicesOwned
      nServicesOwned := d.nServicesOwned - 1 })

/-! ## References -/

/-- `bus_owner_set_flags` -/
def busOwnerSetFlags (owner : ℕ) (flags : NameFlags) : BusM Unit := do
  let o ← read (·.owner owner)
  modify (·.setOwner owner (some { o with
    allowReplacement := flags.allowReplacement, doNotQueue := flags.doNotQueue }))

/-- `bus_owner_new`, where nothing is linked before the last allocation -/
def busOwnerNew (service connection : ℕ) (flags : NameFlags) : BusM ℕ := do
  allocate
  let bus ← get
  let owner := bus.registry.nextOwner
  busConnectionAddOwnedServiceLink connection service
  modify fun bus => (bus.setOwner owner (some
    ⟨1, service, connection, flags.allowReplacement, flags.doNotQueue⟩)).setRegistry fun r =>
      { r with nextOwner := owner + 1 }
  return owner

/-- `bus_owner_ref` -/
def busOwnerRef (owner : ℕ) : BusM Unit := do
  let o ← read (·.owner owner)
  BusM.assert (0 < o.refcount)
  modify (·.setOwner owner (some { o with refcount := o.refcount + 1 }))

/-- `bus_owner_unref` -/
def busOwnerUnref (owner : ℕ) : BusM Unit := do
  let o ← read (·.owner owner)
  BusM.assert (0 < o.refcount)
  if o.refcount = 1 then do
    busConnectionRemoveOwnedService o.conn o.service
    modify (·.setOwner owner none)
  else modify (·.setOwner owner (some { o with refcount := o.refcount - 1 }))

section
variable (service : ℕ)

/-- `bus_service_ref` -/
def busServiceRef : BusM Unit := do
  let s ← read (·.service service)
  BusM.assert (0 < s.refcount)
  modify (·.setService service (some { s with refcount := s.refcount + 1 }))

/-- `bus_service_unref` -/
def busServiceUnref : BusM Unit := do
  let s ← read (·.service service)
  BusM.assert (0 < s.refcount)
  if s.refcount = 1 then do
    BusM.assert (s.owners = [])
    modify (·.setService service none)
  else modify (·.setService service (some { s with refcount := s.refcount - 1 }))

def setOwners (f : List ℕ → List ℕ) : BusM Unit := do
  let s ← read (·.service service)
  modify (·.setService service (some { s with owners := f s.owners }))

end

/-- `bus_service_unlink_owner` -/
def busServiceUnlinkOwner (service owner : ℕ) : BusM Unit := do
  setOwners service (removeLast owner)
  busOwnerUnref owner

/-- `bus_service_unlink` -/
def busServiceUnlink (service : ℕ) : BusM Unit := do
  let s ← read (·.service service)
  BusM.assert (s.owners = [])
  modify (·.setHash (·.erase s.name))
  busServiceUnref service

/-- `bus_service_relink` -/
def busServiceRelink (service : ℕ) : BusM Unit := do
  let s ← read (·.service service)
  BusM.assert (s.owners = [])
  modify (·.setHash (·.insert s.name service))
  busServiceRef service

/-! ## The hooks for ownership -/

/-- `cancel_ownership` -/
def cancelOwnership (service owner : ℕ) : BusM Unit := do
  busServiceUnlinkOwner service owner
  let s ← read (·.service service)
  if s.owners = [] then busServiceUnlink service else pure ()

/-- The references that the data of the hooks for ownership hold are given up:
    `free_ownership_cancel_data` and `free_ownership_restore_data`. -/
def freeOwnershipData (service owner : ℕ) : BusM Unit := do
  busOwnerUnref owner
  busServiceUnref service

/-- `restore_ownership`: a service without owners is put back into the table, and the
    owner is put back before the one it stood before -/
def restoreOwnership (d : OwnershipRestoreData) : BusM Unit := do
  let s ← read (·.service d.service)
  if s.owners = [] then do
    BusM.assert (d.hashEntry = true)
    busServiceRelink d.service
  else BusM.assert (d.hashEntry = false)
  setOwners d.service fun owners =>
    match d.beforeOwner with
    | none => owners ++ [d.owner]
    | some before => owners.takeWhile (· ≠ before) ++ d.owner :: owners.dropWhile (· ≠ before)
  let o ← read (·.owner d.owner)
  busConnectionAddOwnedServiceLink o.conn d.service

/-! ## The hooks for activation -/

/-- `bus_pending_activation_ref` -/
def busPendingActivationRef (pending : ℕ) : BusM Unit := do
  let p ← read (·.pending pending)
  BusM.assert (0 < p.refcount)
  modify (·.setPending pending (some { p with refcount := p.refcount + 1 }))

/-- `bus_pending_activation_unref` -/
def busPendingActivationUnref (pending : ℕ) : BusM Unit := do
  let p ← read (·.pending pending)
  BusM.assert (0 < p.refcount)
  if p.refcount = 1 then do
    let bus ← get
    BusM.assert (p.nEntries ≤ bus.activation.nPendingActivations)
    modify fun bus => (bus.setPending pending none).setActivation fun a =>
      { a with nPendingActivations := a.nPendingActivations - p.nEntries }
  else modify (·.setPending pending (some { p with refcount := p.refcount - 1 }))

/-- A pending activation is taken out of the table, which gives up its reference:
    `_dbus_hash_table_remove_string`. -/
def removePendingActivation (name : List UInt8) : BusM Unit := do
  let bus ← get
  match bus.activation.pendingActivations.lookup name with
  | none => pure ()
  | some pending => do
    modify (·.setActivation fun a =>
      { a with pendingActivations := a.pendingActivations.erase name })
    busPendingActivationUnref pending

/-- `cancel_pending`; the child it kills is outside -/
def cancelPending (pending : ℕ) : BusM Unit := do
  let p ← read (·.pending pending)
  removePendingActivation p.serviceName

/-- `restore_pending` -/
def restorePending (pending : ℕ) : BusM Unit := do
  let p ← read (·.pending pending)
  removePendingActivation p.serviceName
  modify (·.setActivation fun a =>
    { a with pendingActivations := a.pendingActivations.insert p.serviceName pending })
  busPendingActivationRef pending

/-! ## The hooks for replies -/

/-- `cancel_pending_reply` -/
def cancelPendingReply (reply : ℕ) : BusM Unit := do
  let bus ← get
  BusM.assert (∃ r ∈ bus.pendingReplies, r.id = reply)
  modify fun bus => { bus with pendingReplies := bus.pendingReplies.filter (·.id ≠ reply) }

/-- `cancel_check_pending_reply` -/
def cancelCheckPendingReply (reply : BusPendingReply) : BusM Unit :=
  modify fun bus => { bus with pendingReplies := reply :: bus.pendingReplies }

/-! ## Transactions -/

/-- `cancel_hook_cancel` -/
def cancelHookCancel : CancelHook → BusM Unit
  | .cancelOwnership service owner => cancelOwnership service owner
  | .restoreOwnership d => restoreOwnership d
  | .cancelPending pending => cancelPending pending
  | .restorePending pending => restorePending pending
  | .cancelPendingReply reply => cancelPendingReply reply
  | .cancelCheckPendingReply reply => cancelCheckPendingReply reply

/-- `cancel_hook_free`; the link of a checked reply is there unless the hook has been run -/
def cancelHookFree (cancelled : Bool) : CancelHook → BusM Unit
  | .cancelOwnership service owner => freeOwnershipData service owner
  | .restoreOwnership d => freeOwnershipData d.service d.owner
  | .cancelPending pending => busPendingActivationUnref pending
  | .restorePending pending => busPendingActivationUnref pending
  | .cancelPendingReply _ => pure ()
  | .cancelCheckPendingReply reply => do
    let bus ← get
    BusM.assert (cancelled = true ∨ reply ∉ bus.pendingReplies)

/-- `bus_transaction_new` -/
def busTransactionNew : BusM ℕ := do
  allocate
  let bus ← get
  let transaction := bus.nextTransaction
  modify fun bus => { bus.setTransaction transaction (some ⟨[], [], []⟩) with
    nextTransaction := transaction + 1 }
  return transaction

/-- `bus_transaction_add_cancel_hook`, with its memory -/
def addCancelHook (transaction : ℕ) (hook : CancelHook) : BusM Unit := do
  let t ← read (·.transaction transaction)
  modify (·.setTransaction transaction (some { t with cancelHooks := hook :: t.cancelHooks }))

/-- `_dbus_list_prepend` on the messages that wait on a connection -/
def Bus.putMessage (bus : Bus) (connection : ℕ) (message : MessageToSend) : Bus :=
  bus.setData connection fun d => { d with transactionMessages := message :: d.transactionMessages }

/-- `_dbus_list_remove` on the messages that wait on a connection, for the one prepended last -/
def Bus.dropMessage (bus : Bus) (connection : ℕ) : Bus :=
  bus.setData connection fun d => { d with transactionMessages := d.transactionMessages.tail }

theorem Bus.dropMessage_putMessage (bus : Bus) (connection : ℕ) (message : MessageToSend) :
    (bus.putMessage connection message).dropMessage connection = bus := by
  simp [putMessage, dropMessage, setData, setConnection, Function.comp_def]

section
variable (transaction connection : ℕ)

/-- `bus_transaction_send`: a message whose connection cannot be listed is taken back -/
def busTransactionSend (message : BusMessage) : BusM Unit := do
  BusM.assert (message.sender ≠ none)
  let bus ← get
  if bus.isConnected connection = false then pure ()
  else do
    let d ← read (·.connectionData connection)
    allocate
    let t ← read (·.transaction transaction)
    modify (·.putMessage connection ⟨transaction, message⟩)
    -- the connection is listed with its first message of the transaction
    if d.transactionMessages.any (·.transaction = transaction) then pure ()
    else do
      allocate.onError (modify (·.dropMessage connection))
      modify (·.setTransaction transaction (some
        { t with connections := connection :: t.connections }))

/-- `connection_cancel_transaction` -/
def connectionCancelTransaction : BusM Unit := do
  let _ ← read (·.connectionData connection)
  modify (·.setData connection fun d =>
    { d with transactionMessages := d.transactionMessages.filter (·.transaction ≠ transaction) })

/-- `connection_execute_transaction`: the oldest message is the last of the list -/
def connectionExecuteTransaction : BusM Unit := do
  let d ← read (·.connectionData connection)
  let messages := (d.transactionMessages.filter (·.transaction = transaction)).reverse
  BusM.assert (∀ w ∈ messages, w.message.sender ≠ none)
  modify fun bus => (bus.setData connection fun d =>
    { d with transactionMessages := d.transactionMessages.filter (·.transaction ≠ transaction) }
    ).setConnection connection fun c => { c with outgoing := c.outgoing ++ messages.map (·.message) }

end

/-- `bus_transaction_cancel_and_free` -/
def busTransactionCancelAndFree (transaction : ℕ) : BusM Unit := do
  let t ← read (·.transaction transaction)
  forEach (connectionCancelTransaction transaction) t.connections
  forEach cancelHookCancel t.cancelHooks
  forEach (cancelHookFree true) t.cancelHooks
  modify (·.setTransaction transaction none)

/-- `bus_transaction_execute_and_free` -/
def busTransactionExecuteAndFree (transaction : ℕ) : BusM Unit := do
  let t ← read (·.transaction transaction)
  forEach (connectionExecuteTransaction transaction) t.connections
  forEach (cancelHookFree false) t.cancelHooks
  modify fun bus => { bus.setTransaction transaction none with
    broadcasts := bus.broadcasts ++ t.broadcasts }

end DBus
