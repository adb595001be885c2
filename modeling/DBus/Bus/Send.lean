/-
  Sending: replies that are expected, the security policy, match rules, and the messages
  of the driver.

  `busContextCheckSecurityPolicy` decides whether a message may go from a sender to a
  recipient; `none` is the bus itself.  On the way it takes a pending reply off the list or
  puts one on it.
-/
import DBus.Bus.Transaction

namespace DBus

open BusM Eff Outcome

/-! ## Pending replies -/

/-- `bus_connections_expect_reply`: a reply for which there is no hook is taken off the list again -/
def busConnectionsExpectReply (env : BusEnv) (transaction willGetReply willSendReply : ℕ)
    (replyToThis : BusMessage) : BusM Unit := do
  if replyToThis.noReply = true then pure ()
  else do
    let bus ← get
    let same (r : BusPendingReply) : Bool := r.replySerial = replyToThis.serial ∧
      r.willGetReply = willGetReply ∧ r.willSendReply = some willSendReply
    if bus.pendingReplies.any same then
      fail .accessDenied (asciiBytes
        "Message has the same reply serial as a currently-outstanding existing method call")
    else if env.maxRepliesPerConnection ≤
        bus.pendingReplies.countP (·.willGetReply = willGetReply) then
      fail .limitsExceeded (asciiBytes
        "The maximum number of pending replies per connection has been reached")
    else do
      allocate
      modify fun bus => { bus with
        pendingReplies := ⟨bus.nextReply, willGetReply, some willSendReply, replyToThis.serial⟩ ::
          bus.pendingReplies
        nextReply := bus.nextReply + 1 }
      allocate.onError (modify fun bus => { bus with pendingReplies := bus.pendingReplies.tail })
      addCancelHook transaction (.cancelPendingReply bus.nextReply)

/-- `bus_connections_check_reply`, where nothing is changed before the last allocation -/
def busConnectionsCheckReply (transaction sendingReply receivingReply : ℕ) (reply : BusMessage) :
    BusM Bool := do
  let bus ← get
  match bus.pendingReplies.find? fun r => r.replySerial = reply.replySerial ∧
      r.willGetReply = receivingReply ∧ r.willSendReply = some sendingReply with
  | none => return false
  | some pending => do
    allocate
    addCancelHook transaction (.cancelCheckPendingReply pending)
    modify fun bus => { bus with pendingReplies := bus.pendingReplies.erase pending }
    return true

/-! ## The security policy -/

/-- `DBUS_ERROR_ACCESS_DENIED`, with what the configuration says. -/
def refuse {α : Type} (env : BusEnv) (message : BusMessage) : BusM α := do
  let bus ← get
  fail .accessDenied (env.refusal bus message)

section
variable (env : BusEnv)

/-- The check of the sender: whether the message is a reply that was asked for, or nothing
    if it is the one message an inactive connection may send. -/
def checkSender (transaction : ℕ) (sender addressed proposed : Option ℕ) (message : BusMessage) :
    BusM (Option Bool) := do
  let bus ← get
  match sender with
  | none => return some (addressed = proposed ∧ message.replySerial ≠ 0)
  | some c =>
    if env.selinuxAllowsSend bus c proposed message = false then refuse env message
    else if bus.isActive c then
      match proposed with
      | some recipient =>
        if message.replySerial ≠ 0 ∧ addressed = proposed then do
          let requested ← busConnectionsCheckReply transaction c recipient message
          return some requested
        else return some false
      | none => return some false
    else if proposed = none ∧ message.isMethodCall interfaceDBus "Hello" = true then return none
    else fail .accessDenied (asciiBytes
      "Client tried to send a message other than Hello without being registered")

def checkRecipient (sender addressed proposed : Option ℕ) (requestedReply : Bool)
    (message : BusMessage) : BusM Unit := do
  let bus ← get
  match proposed with
  | none => pure ()
  | some recipient =>
    if bus.isActive recipient ∧
        env.canReceive bus recipient requestedReply sender addressed message = false then
      refuse env message
    else if env.outgoingFull bus recipient then
      fail .limitsExceeded (asciiBytes "The destination service \"" ++
        (message.destination.or (bus.connectionName recipient)).getD serviceDBus ++
        asciiBytes "\" has a full message queue")
    else pure ()

section
variable (transaction : ℕ) (sender addressed proposed : Option ℕ) (message : BusMessage)

/-- `bus_context_check_security_policy` -/
def busContextCheckSecurityPolicy : BusM Unit := do
  let bus ← get
  BusM.assert (message.destination ≠ none ∨ message.type = .signal ∨
    (sender = none ∧ ∀ c ∈ proposed, bus.isActive c = false))
  BusM.assert (message.type = .signal ∨ addressed ≠ none ∨ message.destination = some serviceDBus)
  match message.type with
  | .invalid | .other _ => fail .accessDenied (asciiBytes
      "Message bus will not accept messages of unknown type\n")
  | _ => do
    match ← checkSender env transaction sender addressed proposed message with
    | none => pure ()
    | some requestedReply => do
      let bus ← get
      -- only the bus can send to an inactive recipient, which has no policy
      BusM.assert (∀ recipient ∈ proposed, bus.isActive recipient = true ∨ sender = none)
      if ∃ c ∈ sender, env.canSend bus c requestedReply proposed message = false then
        refuse env message
      else do
        checkRecipient env sender addressed proposed requestedReply message
        match sender, addressed with
        | some c, some recipient =>
          if message.type = .methodCall ∧ addressed = proposed then
            busConnectionsExpectReply env transaction c recipient message
          else pure ()
        | _, _ => pure ()

/-- Whether the security policy lets a message pass; that memory runs out counts as a
    refusal where the caller does not want to know the error. -/
def allowed : BusM Bool := do
  match ← attempt (busContextCheckSecurityPolicy env transaction sender addressed proposed
      message) with
  | .ok _ => return true
  | .error _ => return false

end

end

/-! ## Messages of the driver -/

section
variable (env : BusEnv) (transaction connection : ℕ)

/-- `bus_transaction_send_from_driver` -/
def busTransactionSendFromDriver (message : BusMessage) : BusM Unit := do
  allocate
  let bus ← get
  let message := { message with
    sender := some serviceDBus
    destination := if bus.isActive connection then bus.connectionName connection
      else message.destination
    noReply := true }
  if ← allowed env transaction none (some connection) (some connection) message then
    busTransactionSend transaction connection message
  else pure ()

/-- `bus_transaction_send_error_reply` -/
def busTransactionSendErrorReply (error : DBusError) (inReplyTo : BusMessage) : BusM Unit := do
  allocate
  busTransactionSendFromDriver env transaction connection (.newError inReplyTo error)

end

/-! ## Match rules -/

/-- `connection_is_primary_owner` -/
def Bus.connectionIsPrimaryOwner (bus : Bus) (connection : ℕ) (name : List UInt8) : Bool :=
  ((bus.registry.lookup name).bind bus.registry.services).any fun s =>
    (s.owners.head?.bind bus.registry.owners).any (·.conn = connection)

/-- The byte of a string before the one at an index. -/
def byteBefore (text : List UInt8) (i : ℕ) : Res UInt8 :=
  valueOr .outside (if i = 0 then none else text[i - 1]?)

/-- How a string argument is compared with the one a rule expects: what is at the end of the
    shorter of two paths is looked at first. -/
def argAgrees (expected actual : List UInt8) (isPath : Bool) : Res Bool :=
  if isPath then do
    if actual.length < expected.length then do
      let c ← byteBefore actual actual.length
      if c ≠ '/'.toUInt8 then return false
      else return decide (actual = expected.take actual.length)
    else if expected.length < actual.length then do
      let c ← byteBefore expected expected.length
      if c ≠ '/'.toUInt8 then return false
      else return decide (actual.take expected.length = expected)
    else return decide (actual = expected)
  else return decide (expected = actual)

/-- The loop over the arguments that a rule expects. -/
def argsAgree : List (Option (List UInt8 × Bool)) → List Value → Res Bool
  | [], _ => .ok true
  | none :: es, vs => argsAgree es vs.tail
  | some (text, isPath) :: es, .str .string arg :: vs => do
    if ← argAgrees text arg isPath then argsAgree es vs else return false
  | some _ :: _, _ => .ok false

section
variable (bus : Bus) (rule : BusMatchRule) (sender addressed : Option ℕ) (message : BusMessage)

/-- What `match_rule_matches` compares before the arguments. -/
def Bus.headerAgrees : Bool :=
  let names (connection : Option ℕ) (name : List UInt8) : Bool :=
    match connection with
    | none => name = serviceDBus
    | some c => bus.connectionIsPrimaryOwner c name
  rule.messageType.all (· = message.type) && rule.interface.all (some · = message.interface) &&
    rule.member.all (some · = message.member) && rule.sender.all (names sender) &&
    rule.destination.all (fun name => message.destination.isSome && names addressed name) &&
    rule.path.all (some · = message.path)

/-- `match_rule_matches`, where a byte that is read outside a string (`matchRuleMatches`) is
    none that matches -/
def Bus.matchRuleMatches : Bool :=
  bus.headerAgrees rule sender addressed message && argsAgree rule.args message.body = .ok true

end

/-- `bus_matchmaker_get_recipients`: the owners of the rules that match, in the order of
    their first one, without those in `marked` -/
def Bus.recipients (bus : Bus) (sender addressed : Option ℕ) (message : BusMessage) :
    List (ℕ × BusMatchRule) → List ℕ → List ℕ
  | [], _ => []
  | (_, rule) :: rules, marked =>
    if bus.matchRuleMatches rule sender addressed message ∧ rule.matchesGoTo ∉ marked then
      rule.matchesGoTo :: bus.recipients sender addressed message rules (rule.matchesGoTo :: marked)
    else bus.recipients sender addressed message rules marked

section
variable (env : BusEnv) (transaction : ℕ) (sender addressed : Option ℕ) (message : BusMessage)

/-- `send_one_message` -/
def sendOneMessage (connection : ℕ) : BusM Unit := do
  if ← allowed env transaction sender addressed (some connection) message then
    busTransactionSend transaction connection message
  else pure ()

/-- `bus_dispatch_matches`; a signal of the driver is remembered in the transaction -/
def busDispatchMatches : BusM Unit := do
  let bus ← get
  BusM.assert (∀ c ∈ sender, bus.isActive c = true)
  BusM.assert (message.sender ≠ none)
  let t ← read (·.transaction transaction)
  if sender = none then
    modify (·.setTransaction transaction (some { t with broadcasts := t.broadcasts ++ [message] }))
  else pure ()
  let recipients := bus.recipients sender addressed message bus.allRules addressed.toList
  forEach (fun _ => allocate) recipients
  forEach (sendOneMessage env transaction sender addressed message) recipients

end

/-! ## Signals of the driver -/

/-- `bus_driver_send_service_owner_changed` -/
def busDriverSendServiceOwnerChanged (env : BusEnv) (serviceName : List UInt8)
    (oldOwner newOwner : Option (List UInt8)) (transaction : ℕ) : BusM Unit := do
  allocate
  busDispatchMatches env transaction none none
    { BusMessage.newSignal "NameOwnerChanged" with
      sender := some serviceDBus
      body := [.text serviceName, .text (oldOwner.getD []), .text (newOwner.getD [])] }

/-- A signal of the driver about a name to one connection. -/
def sendNameSignal (member : String) (env : BusEnv) (connection : ℕ) (serviceName : List UInt8)
    (transaction : ℕ) : BusM Unit := do
  let d ← read (·.connectionData connection)
  allocate
  busTransactionSendFromDriver env transaction connection
    { BusMessage.newSignal member with destination := d.name, body := [.text serviceName] }

/-- `bus_driver_send_service_lost` -/
def busDriverSendServiceLost : BusEnv → ℕ → List UInt8 → ℕ → BusM Unit := sendNameSignal "NameLost"

/-- `bus_driver_send_service_acquired` -/
def busDriverSendServiceAcquired : BusEnv → ℕ → List UInt8 → ℕ → BusM Unit :=
  sendNameSignal "NameAcquired"

end DBus
