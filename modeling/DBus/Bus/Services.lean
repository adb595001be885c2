/-
  Who owns a name: `bus/services.c`.

  A service keeps its owners in a list whose first element is the primary owner.

  A name that ends in `.unique-` and a number stands for its part before that: the number is
  the process that wants it, and if the process that asked for the name before is gone, its
  claim is released first.
-/
import DBus.Bus.Activation

namespace DBus

open BusM Eff

/-! ## The list of owners -/

/-- `_bus_service_find_owner_link` -/
def Bus.findOwnerLink (bus : Bus) (owners : List ℕ) (connection : ℕ) : Res (Option ℕ) :=
  match owners with
  | [] => .ok none
  | owner :: rest => do
    let o ← bus.owner owner
    if o.conn = connection then return some owner else bus.findOwnerLink rest connection

def findOwner (service connection : ℕ) : BusM (Option ℕ) := do
  let s ← read (·.service service)
  read (·.findOwnerLink s.owners connection)

/-- `bus_service_has_owner` -/
def busServiceHasOwner (service connection : ℕ) : BusM Bool := do
  let owner ← findOwner service connection
  return owner.isSome

/-- `bus_service_get_allow_replacement` -/
def busServiceGetAllowReplacement (service : ℕ) : BusM Bool := do
  let s ← read (·.service service)
  match s.owners with
  | [] => do
    BusM.assert False
    return false
  | owner :: _ => do
    let o ← read (·.owner owner)
    return o.allowReplacement

def insertSecond {α : Type} (a : α) : List α → List α
  | [] => [a]
  | first :: rest => first :: a :: rest

/-- `add_cancel_ownership_to_transaction` -/
def addCancelOwnershipToTransaction (transaction service owner : ℕ) : BusM Unit := do
  allocate
  addCancelHook transaction (.cancelOwnership service owner)
  busServiceRef service
  busOwnerRef owner

/-- A connection that is not in the list of a service becomes one of its owners. -/
def addNewOwner (service connection : ℕ) (flags : NameFlags) (transaction : ℕ) : BusM Unit := do
  let owner ← busOwnerNew service connection flags
  busOwnerSetFlags owner flags
  allocate.onError (busOwnerUnref owner)
  let s ← read (·.service service)
  if flags.replaceExisting = false ∨ s.owners = [] then setOwners service (· ++ [owner])
  else setOwners service (insertSecond owner)
  (addCancelOwnershipToTransaction transaction service owner).onError
    (busServiceUnlinkOwner service owner)

/-- An owner in the list of a service gets new flags, and another place if it wants to
    replace the primary owner. -/
def updateOwner (service owner : ℕ) (flags : NameFlags) : BusM Unit := do
  if flags.replaceExisting = true then do
    let s ← read (·.service service)
    BusM.assert (s.owners.erase owner ≠ [])
    setOwners service fun owners => insertSecond owner (owners.erase owner)
  else pure ()
  busOwnerSetFlags owner flags

/-- `bus_service_add_owner` -/
def busServiceAddOwner (env : BusEnv) (service connection : ℕ) (flags : NameFlags)
    (transaction : ℕ) : BusM Unit := do
  let s ← read (·.service service)
  if s.owners = [] then busDriverSendServiceAcquired env connection s.name transaction
  else pure ()
  match ← findOwner service connection with
  | none => addNewOwner service connection flags transaction
  | some owner => updateOwner service owner flags

/-- `add_restore_ownership_to_transaction` -/
def addRestoreOwnershipToTransaction (transaction service owner : ℕ) : BusM Unit := do
  allocate
  let s ← read (·.service service)
  let before := (s.owners.dropWhile (· ≠ owner)).tail.head?
  busServiceRef service
  busOwnerRef owner
  addCancelHook transaction (.restoreOwnership ⟨owner, service, before, true⟩)

/-- The signals that a name goes from its primary owner to the next connection in the list. -/
def sendOwnerReplaced (env : BusEnv) (name : List UInt8) (oldConnection newOwner transaction : ℕ) :
    BusM Unit := do
  let o ← read (·.owner newOwner)
  let old ← read (·.connectionData oldConnection)
  let new ← read (·.connectionData o.conn)
  busDriverSendServiceOwnerChanged env name old.name new.name transaction
  busDriverSendServiceAcquired env o.conn name transaction

/-- `bus_service_swap_owner` -/
def busServiceSwapOwner (env : BusEnv) (service connection transaction : ℕ) : BusM Unit := do
  let s ← read (·.service service)
  match s.owners with
  | [] => BusM.assert False
  | primary :: rest => do
    let p ← read (·.owner primary)
    BusM.assert (p.conn = connection)
    busDriverSendServiceLost env connection s.name transaction
    match rest with
    | [] => BusM.assert False
    | next :: others => do
      sendOwnerReplaced env s.name connection next transaction
      addRestoreOwnershipToTransaction transaction service primary
      setOwners service fun _ => next :: primary :: others

/-- `bus_service_remove_owner`, where the connection is the primary owner -/
def removePrimaryOwner (env : BusEnv) (service connection primary transaction : ℕ)
    (rest : List ℕ) : BusM Unit := do
  let s ← read (·.service service)
  busDriverSendServiceLost env connection s.name transaction
  match rest with
  | [] => do
    let old ← read (·.connectionData connection)
    busDriverSendServiceOwnerChanged env s.name old.name none transaction
  | next :: _ => sendOwnerReplaced env s.name connection next transaction
  addRestoreOwnershipToTransaction transaction service primary
  busServiceUnlinkOwner service primary
  let s ← read (·.service service)
  if s.owners = [] then busServiceUnlink service else pure ()

/-- An owner that is not the primary one leaves the queue; the link of a connection that is
    not in it would be `NULL`. -/
def removeQueuedOwner (service connection : ℕ) : BusM Unit := do
  match ← findOwner service connection with
  | none => Eff.check (.error .outside)
  | some owner => do
    setOwners service (·.erase owner)
    busOwnerUnref owner

/-- `bus_service_remove_owner` -/
def busServiceRemoveOwner (env : BusEnv) (service connection transaction : ℕ) : BusM Unit := do
  let s ← read (·.service service)
  match s.owners with
  | [] => removeQueuedOwner service connection
  | primary :: rest => do
    let p ← read (·.owner primary)
    if p.conn = connection then removePrimaryOwner env service connection primary transaction rest
    else removeQueuedOwner service connection

/-! ## The registry -/

/-- `bus_registry_ensure` -/
def busRegistryEnsure (env : BusEnv) (serviceName : List UInt8) (connection : ℕ)
    (flags : NameFlags) (transaction : ℕ) : BusM ℕ := do
  let bus ← get
  match bus.registry.lookup serviceName with
  | some service => return service
  | none => do
    allocate
    let service := bus.registry.nextService
    modify fun bus => (bus.setService service (some ⟨1, serviceName, []⟩)).setRegistry fun r =>
      { r with nextService := service + 1 }
    let d ← read (·.connectionData connection)
    (busDriverSendServiceOwnerChanged env serviceName none d.name transaction).onError
      (busServiceUnref service)
    (busActivationServiceCreated env serviceName transaction).onError (busServiceUnref service)
    (busServiceAddOwner env service connection flags transaction).onError (busServiceUnref service)
    allocate
    modify (·.setHash (·.insert serviceName service))
    return service

/-- `bus_registry_release_service`: the name must be one that can be owned -/
def checkRelease (serviceName : List UInt8) : BusM Unit := do
  if ← Eff.check (validateBusName (.ofBytes serviceName) 0 serviceName.length) then
    if serviceName.head? = some ':'.toUInt8 then
      fail .invalidArgs (asciiBytes "Cannot release a service starting with ':' such as \"" ++
        serviceName ++ asciiBytes "\"")
    else if serviceName = serviceDBus then
      fail .invalidArgs (asciiBytes "Cannot release the " ++ serviceDBus ++
        asciiBytes " service because it is owned by the bus")
    else pure ()
  else fail .invalidArgs (asciiBytes "Given bus name \"" ++ serviceName ++
    asciiBytes "\" is not valid")

/-- `bus_registry_release_service` -/
def busRegistryReleaseService (env : BusEnv) (connection : ℕ) (serviceName : List UInt8)
    (transaction : ℕ) : BusM ReleaseReply := do
  checkRelease serviceName
  let bus ← get
  let reply ← (match bus.registry.lookup serviceName with
    | none => pure .nonExistent
    | some service => do
      if ← busServiceHasOwner service connection then do
        busServiceRemoveOwner env service connection transaction
        let held ← busServiceHasOwner service connection
        BusM.assert (held = false)
        return .released
      else return .notOwner)
  modify (·.setRegistry fun r => { r with uniquePidHash := r.uniquePidHash.erase serviceName })
  return reply

/-! ## Names of processes -/

/-- `atoi`: the decimal number a text begins with, after blanks and a sign, of any size -/
def atoi (text : List UInt8) : ℤ :=
  let text := text.dropWhile fun c => c = ' '.toUInt8 ∨ (9 ≤ c ∧ c ≤ 13)
  let digits (l : List UInt8) : ℤ := (l.takeWhile fun c => '0'.toUInt8 ≤ c ∧ c ≤ '9'.toUInt8).foldl
    (fun n c => 10 * n + (c.toNat - '0'.toNat)) 0
  match text with
  | c :: rest =>
    if c = '-'.toUInt8 then -digits rest
    else if c = '+'.toUInt8 then digits rest
    else digits text
  | [] => 0

/-- The part of a text before `.unique-`, and the part behind it. -/
def splitUnique : List UInt8 → Option (List UInt8 × List UInt8)
  | [] => none
  | c :: rest =>
    if asciiBytes ".unique-" <+: c :: rest then some ([], (c :: rest).drop 8)
    else (splitUnique rest).map fun p => (c :: p.1, p.2)

/-- `_dbus_get_base_service_name_and_pid`: the name and the process, if there is one -/
def baseServiceNameAndPid (serviceName : List UInt8) : Option (List UInt8 × ℤ) :=
  match splitUnique serviceName with
  | some (base, text) => if atoi text = 0 then none else some (base, atoi text)
  | none => none

/-- Allocate, where the result is used without a look whether it is `NULL`. -/
def allocateUnchecked : BusM Unit := do
  match ← attempt allocate with
  | .ok _ => pure ()
  | .error _ => Eff.check (.error .outside)

/-- The end of the next function; that the process could not be remembered is not told. -/
def rememberPid (base : List UInt8) (pid : ℤ) : BusM Unit := do
  allocateUnchecked
  match ← attempt allocate with
  | .ok _ => modify (·.setRegistry fun r => { r with uniquePidHash := r.uniquePidHash.insert base pid })
  | .error _ => pure ()

/-- `_dbus_registry_release_old_service_win_if_unique`; setting an error twice is a failed check -/
def releaseOldServiceIfUnique (env : BusEnv) (connection : ℕ) (base : List UInt8) (pid : ℤ)
    (transaction : ℕ) : BusM Unit := do
  let bus ← get
  let oldPid := (bus.registry.uniquePidHash.lookup base).getD 0
  if pid = oldPid then pure ()
  else if oldPid ≠ 0 ∧ env.processExists oldPid then pure ()
  else do
    if oldPid ≠ 0 then do
      let toRelease ← (match bus.registry.lookup base with
        | none => pure connection
        | some service => do
          match ← busServiceGetPrimaryOwnersConnection service with
          | some owner => return owner
          | none => do
            Eff.check (.error .outside)
            return connection)
      match ← attempt (busRegistryReleaseService env toRelease base transaction) with
      | .ok _ => pure ()
      | .error _ => BusM.assert False
    else pure ()
    rememberPid base pid

/-! ## Requests -/

/-- The name a request is for, after the claim of a process that is gone is released. -/
def requestedName (env : BusEnv) (connection : ℕ) (serviceName : List UInt8) (transaction : ℕ) :
    BusM (List UInt8) := do
  match baseServiceNameAndPid serviceName with
  | none => return serviceName
  | some (base, pid) => do
    allocateUnchecked
    releaseOldServiceIfUnique env connection base pid transaction
    return base

/-- What stands for a connection in the texts of errors. -/
def Bus.shownName (bus : Bus) (connection : ℕ) : List UInt8 :=
  (bus.connectionName connection).getD (asciiBytes "(inactive)")

/-- `bus_registry_acquire_service`: the name must be one that the connection may own -/
def checkAcquire (env : BusEnv) (connection : ℕ) (serviceName : List UInt8) : BusM Unit := do
  if ← Eff.check (validateBusName (.ofBytes serviceName) 0 serviceName.length) then do
    let bus ← get
    let d ← read (·.connectionData connection)
    if serviceName.head? = some ':'.toUInt8 then
      fail .invalidArgs (asciiBytes "Cannot acquire a service starting with ':' such as \"" ++
        serviceName ++ asciiBytes "\"")
    else if serviceName = serviceDBus then
      fail .invalidArgs (asciiBytes "Connection \"" ++ bus.shownName connection ++
        asciiBytes "\" is not allowed to own the service \"" ++ serviceDBus ++
        asciiBytes "\"because it is reserved for D-Bus' use only")
    else if env.selinuxAllowsAcquire bus connection serviceName = false then
      fail .accessDenied (asciiBytes "Connection \"" ++ bus.shownName connection ++
        asciiBytes "\" is not allowed to own the service \"" ++ serviceName ++
        asciiBytes "\" due to SELinux policy")
    else if env.canOwn bus connection serviceName = false then
      fail .accessDenied (asciiBytes "Connection \"" ++ bus.shownName connection ++
        asciiBytes "\" is not allowed to own the service \"" ++ serviceName ++
        asciiBytes "\" due to security policies in the configuration file")
    else if env.maxServicesPerConnection ≤ d.nServicesOwned then
      fail .limitsExceeded (asciiBytes "Connection \"" ++ bus.shownName connection ++
        asciiBytes "\" is not allowed to own more services " ++
        asciiBytes "(increase limits in configuration file if required)")
    else pure ()
  else fail .invalidArgs (asciiBytes "Requested bus name \"" ++ serviceName ++
    asciiBytes "\" is not valid")

/-- The requester cannot be queued: it leaves the queue if it is in it. -/
def leaveQueue (service connection : ℕ) : BusM Unit := do
  if ← busServiceHasOwner service connection then removeQueuedOwner service connection
  else pure ()

/-- The request of a connection for a service that has the primary owner `primary`. -/
def requestOwned (env : BusEnv) (service connection primary : ℕ) (flags : NameFlags)
    (transaction : ℕ) : BusM RequestReply := do
  let p ← read (·.owner primary)
  if p.conn = connection then do
    busOwnerSetFlags primary flags
    return .alreadyOwner
  else do
    let allowReplacement ← busServiceGetAllowReplacement service
    if flags.doNotQueue ∧ ¬ allowReplacement ∨ flags.doNotQueue ∧ ¬ flags.replaceExisting then do
      leaveQueue service connection
      return .exists
    else if ¬ flags.doNotQueue ∧ (¬ flags.replaceExisting ∨ ¬ allowReplacement) then do
      busServiceAddOwner env service connection flags transaction
      return .inQueue
    else do
      busServiceAddOwner env service connection flags transaction
      if p.doNotQueue then busServiceRemoveOwner env service p.conn transaction
      else busServiceSwapOwner env service p.conn transaction
      let current ← busServiceGetPrimaryOwnersConnection service
      BusM.assert (current = some connection)
      return .primaryOwner

/-- The request of a connection for a name that it may own. -/
def requestName (env : BusEnv) (connection : ℕ) (serviceName : List UInt8) (flags : NameFlags)
    (transaction : ℕ) : BusM RequestReply := do
  let bus ← get
  match bus.registry.lookup serviceName with
  | none => do
    let service ← busRegistryEnsure env serviceName connection flags transaction
    let current ← busServiceGetPrimaryOwnersConnection service
    BusM.assert (current = some connection)
    busActivationSendPendingAutoActivationMessages env service transaction
    return .primaryOwner
  | some service => do
    match ← busServiceGetPrimaryOwner service with
    | none => do
      -- the function returns without an error, which its caller asserts
      BusM.assert False
      return .exists
    | some primary => do
      let reply ← requestOwned env service connection primary flags transaction
      busActivationSendPendingAutoActivationMessages env service transaction
      return reply

/-- `bus_registry_acquire_service` -/
def busRegistryAcquireService (env : BusEnv) (connection : ℕ) (aServiceName : List UInt8)
    (flags : NameFlags) (transaction : ℕ) : BusM RequestReply := do
  let serviceName ← requestedName env connection aServiceName transaction
  checkAcquire env connection serviceName
  requestName env connection serviceName flags transaction

end DBus
