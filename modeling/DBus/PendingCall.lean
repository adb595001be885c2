/-
  Pending calls of a connection (`dbus-pending-call.c` and `dbus-connection.c`).

  A history is a list of the sections that run under the lock of the connection, so that what
  callbacks and other threads do in between is a part of it.  The loop over the pending calls of a
  connection that was lost, which gives up the lock after each call, is one section here; and no
  section is a thread that blocks for a reply (`dbus_pending_call_block`).

  Two steps take calls out of the table of pending replies without completing them: the check
  that finds the connection disconnected, and a call whose message has the serial of one that
  is pending.  The first aborts the program if the reply to such a call has just been queued.  A
  history without them returns, and in it and in no other that returns, every call has been
  completed when `Disconnected` has been dispatched (`answered_iff`).
-/
import DBus.ObjectTree.Tree

namespace DBus

open Outcome List Option

/-- `DBusPendingCall`; the notify function is set when the call is made -/
structure PendingCall where
  replySerial : ℕ
  timeoutLink : Option BusMessage
  timeoutAdded : Bool
  reply : Option BusMessage := none
  completed : Bool := false

/-- `DBusConnection`, as far as calls are concerned.  `loader` are the messages that have
    been received and not been queued, `dispatching` is the message that the dispatcher has
    taken off the queue and whether it completed a pending call.  `notified` remembers the
    notify functions that were run, `disconnectedDispatched` that `Disconnected` was dispatched. -/
structure ClientConnection where
  connected : Bool := true
  loader : List BusMessage := []
  incoming : List BusMessage := []
  pendingReplies : List (ℕ × ℕ) := []
  calls : List PendingCall := []
  clientSerial : ℕ := 1
  disconnectLink : Bool := true
  dispatching : Option (BusMessage × Bool) := none
  notified : List ℕ := []
  disconnectedDispatched : Bool := false

/-- `disconnect_message_link`: the signal `Disconnected` -/
def disconnectMessage : BusMessage :=
  { type := .signal, noReply := true, path := some localPath, interface := some localInterface,
    member := some (asciiBytes "Disconnected") }

/-- The error for a call that is not answered in time. -/
def timeoutError (call : BusMessage) : BusMessage :=
  .newError call ⟨.noReply, asciiBytes ("Did not receive a reply. Possible causes include: " ++
    "the remote application did not send a reply, " ++
    "the message bus security policy blocked the reply, " ++
    "the reply timeout expired, or " ++ "the network connection was broken.")⟩

namespace BusMessage

/-- The signal with which a connection says that it is disconnected. -/
def isDisconnected (m : BusMessage) : Bool := m.isSignal localInterface "Disconnected"

end BusMessage

namespace ClientConnection

variable (c : ClientConnection)

def onCall (id : ℕ) (f : PendingCall → PendingCall) : ClientConnection :=
  { c with calls := c.calls.modify id f }

def lookupPending (serial : ℕ) : Option ℕ :=
  (c.pendingReplies.find? (·.1 = serial)).map (·.2)

/-- `_dbus_connection_get_next_client_serial`: the connection with the next serial -/
def nextClientSerial : ClientConnection :=
  { c with clientSerial := if (c.clientSerial + 1) % 2 ^ 32 = 0 then 1
      else (c.clientSerial + 1) % 2 ^ 32 }

/-- `_dbus_connection_queue_received_message_link` -/
def queueReceived (message : BusMessage) : ClientConnection :=
  let c := { c with incoming := c.incoming ++ [message] }
  -- `reply_serial != -1`, of a signed number
  if message.replySerial = 2 ^ 32 - 1 then c
  else match c.lookupPending message.replySerial with
    | some id => c.onCall id ({ · with timeoutAdded := false })
    | none => c

/-- `_dbus_pending_call_queue_timeout_error_unlocked` -/
def queueTimeoutError (id : ℕ) : ClientConnection :=
  match (c.calls[id]?).bind (·.timeoutLink) with
  | some error => { c with incoming := c.incoming ++ [error] }.onCall id ({ · with timeoutLink := none })
  | none => c

/-- The loop of `connection_timeout_and_complete_all_pending_calls_unlocked`; a timeout that is
    removed has been added -/
def timeoutAll : List (ℕ × ℕ) → ClientConnection → Res ClientConnection
  | [], c => return { c with pendingReplies := [] }
  | (_, id) :: entries, c => do
    let c := c.queueTimeoutError id
    assert (c.calls[id]?.any (·.timeoutAdded) = true)
    timeoutAll entries (c.onCall id ({ · with timeoutAdded := false }))

/-- `notify_disconnected_and_dispatch_complete_unlocked` -/
def notifyDisconnected : Res ClientConnection :=
  if c.disconnectLink then do
    let c ← timeoutAll c.pendingReplies c
    return { c with incoming := c.incoming ++ [disconnectMessage], disconnectLink := false }
  else return c

/-- `_dbus_transport_queue_messages`; the limit on live messages lets `batch` of the messages
    that were received through -/
def queueMessages (batch : ℕ) : ClientConnection :=
  (c.loader.take batch).foldl queueReceived { c with loader := c.loader.drop batch }

/-- `_dbus_connection_get_dispatch_status_unlocked`; the status says whether the queue is empty
    afterwards -/
def getDispatchStatus (batch : ℕ) : Res ClientConnection :=
  if c.incoming ≠ [] then return c
  else if (c.queueMessages batch).connected then return c.queueMessages batch
  else (c.queueMessages batch).notifyDisconnected

/-- `_dbus_connection_attach_pending_call_unlocked`: the table is a hash table, so that a call
    with the same serial is replaced -/
def attachPendingCall (call : PendingCall) : ClientConnection :=
  let c := match c.lookupPending call.replySerial with
    | some id => c.onCall id ({ · with timeoutAdded := false })
    | none => c
  { c with
    calls := c.calls ++ [{ call with timeoutAdded := true }]
    pendingReplies := c.pendingReplies.filter (·.1 ≠ call.replySerial) ++
      [(call.replySerial, c.calls.length)] }

/-- `dbus_connection_send_with_reply` up to its check of the status; the connection may be lost
    when the message is written -/
def sendWithReply (message : BusMessage) (lost : Bool) : Res ClientConnection :=
  if c.connected then do
    let (serial, c) := if message.serial = 0 then (c.clientSerial, c.nextClientSerial)
      else (message.serial, c)
    assert (serial ≠ 0)
    let c := c.attachPendingCall
      { replySerial := serial, timeoutAdded := false
        timeoutLink := some (timeoutError { message with serial := serial }) }
    return { c with connected := !lost }
  else return c

/-- `reply_handler_timeout` up to its check of the status, for a timeout that has been added -/
def replyHandlerTimeout (id : ℕ) : ClientConnection :=
  match c.calls[id]? with
  | some call =>
    if call.timeoutAdded then (c.queueTimeoutError id).onCall id ({ · with timeoutAdded := false })
    else c
  | none => c

/-- `complete_pending_call_and_unlock` -/
def completePendingCall (id : ℕ) (message : BusMessage) : Res ClientConnection := do
  let call ← valueOr .outside c.calls[id]?
  assert (call.reply = none)
  assert (call.replySerial = message.replySerial)
  assert (call.completed = false)
  return { c with
    calls := c.calls.set id
      { call with reply := some message, timeoutAdded := false, completed := true }
    pendingReplies := c.pendingReplies.filter (·.1 ≠ call.replySerial)
    notified := c.notified ++ [id] }

/-- `dbus_connection_dispatch` from the pop of a message to the callbacks -/
def popMessage : Res ClientConnection :=
  match c.dispatching, c.incoming with
  | none, message :: incoming => do
    let c := { c with incoming := incoming }
    match c.lookupPending message.replySerial with
    | some id => return { ← c.completePendingCall id message with dispatching := some (message, true) }
    | none => return { c with dispatching := some (message, false) }
  | _, _ => return c

/-- `dbus_connection_dispatch` from the result of the callbacks to the last check of the status -/
def finishMessage (result : HandlerResult) : ClientConnection :=
  match c.dispatching with
  | some (message, completes) =>
    if completes = false ∧ result = .needMemory then
      { c with dispatching := none, incoming := message :: c.incoming }
    else
      { c with dispatching := none
               disconnectedDispatched := c.disconnectedDispatched || message.isDisconnected }
  | none => c

/-- A message from the other side; the validator refuses messages on the local interface. -/
def receive (message : BusMessage) : ClientConnection :=
  if c.connected = false then c
  else if message.interface = some localInterface then { c with connected := false }
  else { c with loader := c.loader ++ [message] }

end ClientConnection

/-- The sections of a history. -/
inductive CallEvent where
  | send (message : BusMessage) (lost : Bool)
  | receive (message : BusMessage)
  | disconnect
  | timeout (id : ℕ)
  | status (batch : ℕ)
  | pop
  | finish (result : HandlerResult)

def callStep (c : ClientConnection) : CallEvent → Res ClientConnection
  | .send message lost => c.sendWithReply message lost
  | .receive message => .ok (c.receive message)
  | .disconnect => .ok { c with connected := false }
  | .timeout id => .ok (c.replyHandlerTimeout id)
  | .status batch => c.getDispatchStatus batch
  | .pop => c.popMessage
  | .finish result => .ok (c.finishMessage result)

def callRun (c : ClientConnection) : List CallEvent → Res ClientConnection
  | [] => .ok c
  | event :: events => do callRun (← callStep c event) events

/-! ## Invariants -/

/-- `Disconnected` is in the queue, with the dispatcher, or has been dispatched. -/
def ClientConnection.Heard (c : ClientConnection) : Prop :=
  (∃ m ∈ c.incoming, m.isDisconnected = true) ∨
    (∃ m ∈ c.dispatching, m.1.isDisconnected = true) ∨ c.disconnectedDispatched = true

/-- What holds after every history. -/
structure Coherent (c : ClientConnection) : Prop where
  /-- The table has calls that wait, under their serials. -/
  entry : ∀ e ∈ c.pendingReplies, ∃ call, c.calls[e.2]? = some call ∧ call.replySerial = e.1 ∧
    call.reply = none ∧ call.completed = false
  unique : ∀ e ∈ c.pendingReplies, ∀ e' ∈ c.pendingReplies, e.1 = e'.1 → e = e'
  serial : c.clientSerial ≠ 0
  /-- When `Disconnected` has been queued, no call waits and none can be made. -/
  closed : c.disconnectLink = false → c.connected = false ∧ c.pendingReplies = []
  /-- `Disconnected` comes from nowhere else. -/
  loaded : ∀ m ∈ c.loader, m.isDisconnected = false
  heard : c.Heard → c.disconnectLink = false
  error : ∀ call ∈ c.calls, ∀ m ∈ call.timeoutLink, m.isDisconnected = false
  notified : ∀ (id : ℕ) (call : PendingCall), c.calls[id]? = some call → call.completed = true →
    id ∈ c.notified

def ClientConnection.Waits (c : ClientConnection) (id : ℕ) : Prop := ∃ e ∈ c.pendingReplies, e.2 = id

def ClientConnection.Forgot (c : ClientConnection) (id : ℕ) : Prop :=
  ∃ call, c.calls[id]? = some call ∧ call.completed = false ∧ ¬ c.Waits id

/-- Every call has been completed, and its notify function been run. -/
def Answered (c : ClientConnection) : Prop :=
  ∀ (id : ℕ) (call : PendingCall), c.calls[id]? = some call → call.completed = true ∧ id ∈ c.notified

/-- What a step needs so that no call is forgotten. -/
def Keeps (c : ClientConnection) : CallEvent → Prop
  | .send message _ => c.connected = true →
      c.lookupPending (if message.serial = 0 then c.clientSerial else message.serial) = none
  | .status _ => c.incoming = [] → c.connected = false → c.disconnectLink = true →
      c.pendingReplies = []
  | _ => True

def AllKeep (c : ClientConnection) : List CallEvent → Prop
  | [] => True
  | event :: events => Keeps c event ∧ ∀ c', callStep c event = .ok c' → AllKeep c' events

/-- A change of a call that leaves reply and completion. -/
structure Harmless (f : PendingCall → PendingCall) : Prop where
  replySerial : ∀ call, (f call).replySerial = call.replySerial
  reply : ∀ call, (f call).reply = call.reply
  completed : ∀ call, (f call).completed = call.completed
  timeoutLink : ∀ call, (f call).timeoutLink = call.timeoutLink ∨ (f call).timeoutLink = none

section
variable {c c' : ClientConnection} {id : ℕ} {f : PendingCall → PendingCall} {c'' : ClientConnection}
  {m : BusMessage} {serial : ℕ}

/-- Two connections whose calls differ in nothing that matters. -/
structure SameCalls (c c' : ClientConnection) : Prop where
  length : c'.calls.length = c.calls.length
  call : ∀ (id : ℕ) (call : PendingCall), c.calls[id]? = some call → ∃ call', c'.calls[id]? = some call' ∧
    call'.replySerial = call.replySerial ∧ call'.reply = call.reply ∧
    call'.completed = call.completed ∧
    (call'.timeoutLink = call.timeoutLink ∨ call'.timeoutLink = none)

theorem SameCalls.rfl : SameCalls c c :=
  ⟨Eq.refl _, fun _ call h => ⟨call, h, Eq.refl _, Eq.refl _, Eq.refl _, .inl (Eq.refl _)⟩⟩

theorem SameCalls.trans (h : SameCalls c c') (h' : SameCalls c' c'') : SameCalls c c'' := by
  refine ⟨h'.length.trans h.length, fun id call hcl => ?_⟩
  obtain ⟨call', hcl', hs, hr, hc, ht⟩ := h.call id call hcl
  obtain ⟨call'', hcl'', hs', hr', hc', ht'⟩ := h'.call id call' hcl'
  refine ⟨call'', hcl'', hs'.trans hs, hr'.trans hr, hc'.trans hc, ?_⟩
  rcases ht' with ht' | ht'
  · rw [ht']
    exact ht
  · exact .inr ht'

theorem sameCalls_onCall (hf : Harmless f) : SameCalls c (c.onCall id f) := by
  refine ⟨length_modify _ _ _, fun j call hcl => ?_⟩
  by_cases hj : id = j
  · subst hj
    refine ⟨f call, ?_, hf.replySerial _, hf.reply _, hf.completed _, hf.timeoutLink _⟩
    simp [ClientConnection.onCall, getElem?_modify_eq, hcl]
  · refine ⟨call, ?_, Eq.refl _, Eq.refl _, Eq.refl _, .inl (Eq.refl _)⟩
    rw [ClientConnection.onCall, getElem?_modify_ne _ _ hj]
    exact hcl

theorem harmless_timeoutAdded : Harmless ({ · with timeoutAdded := false }) :=
  ⟨fun _ => rfl, fun _ => rfl, fun _ => rfl, fun _ => .inl rfl⟩

theorem harmless_timeoutLink : Harmless ({ · with timeoutLink := none }) :=
  ⟨fun _ => rfl, fun _ => rfl, fun _ => rfl, fun _ => .inr rfl⟩

theorem SameCalls.back (h : SameCalls c c') {call' : PendingCall} (hcl' : c'.calls[id]? = some call') :
    ∃ call, c.calls[id]? = some call ∧ call'.completed = call.completed ∧
      (call'.timeoutLink = call.timeoutLink ∨ call'.timeoutLink = none) := by
  obtain ⟨hlt, -⟩ := List.getElem?_eq_some_iff.1 hcl'
  rw [h.length] at hlt
  obtain ⟨call'', hcl'', -, -, hc, ht⟩ := h.call id _ (getElem?_eq_getElem hlt)
  obtain rfl := Option.some.inj (hcl'.symm.trans hcl'')
  exact ⟨_, getElem?_eq_getElem hlt, hc, ht⟩

theorem SameCalls.error (h : SameCalls c c')
    (her : ∀ call ∈ c.calls, ∀ m ∈ call.timeoutLink, m.isDisconnected = false) :
    ∀ call ∈ c'.calls, ∀ m ∈ call.timeoutLink, m.isDisconnected = false := by
  intro call' hmm m hm
  obtain ⟨id, hcl'⟩ := mem_iff_getElem?.1 hmm
  obtain ⟨call, hcl, -, ht | ht⟩ := h.back hcl'
  · exact her call (mem_of_getElem? hcl) m (by rwa [← ht])
  · simp [ht] at hm

/-! ## Steps that leave the table -/

/-- A step that completes no call, takes none from the table and adds none. -/
structure Quiet (c c' : ClientConnection) : Prop where
  calls : SameCalls c c'
  table : c'.pendingReplies = c.pendingReplies
  serial : c'.clientSerial = c.clientSerial
  link : c'.disconnectLink = c.disconnectLink
  connected : c.connected = false → c'.connected = false
  notified : c'.notified = c.notified
  loaded : ∀ m ∈ c'.loader, m ∈ c.loader ∨ m.isDisconnected = false
  heard : c'.Heard → c.Heard

theorem Quiet.rfl : Quiet c c :=
  ⟨.rfl, Eq.refl _, Eq.refl _, Eq.refl _, id, Eq.refl _, fun _ h => .inl h, id⟩

theorem Quiet.trans (h : Quiet c c') (h' : Quiet c' c'') : Quiet c c'' where
  calls := h.calls.trans h'.calls
  table := h'.table.trans h.table
  serial := h'.serial.trans h.serial
  link := h'.link.trans h.link
  connected hc := h'.connected (h.connected hc)
  notified := h'.notified.trans h.notified
  loaded m hm := (h'.loaded m hm).elim (h.loaded m) .inr
  heard hh := h.heard (h'.heard hh)

theorem Quiet.coherent (h : Quiet c c') (hc : Coherent c) : Coherent c' where
  entry e he := by
    rw [h.table] at he
    obtain ⟨call, hcl, hs, hr, hd⟩ := hc.entry e he
    obtain ⟨call', hcl', hs', hr', hd', -⟩ := h.calls.call _ call hcl
    exact ⟨call', hcl', hs'.trans hs, hr'.trans hr, hd'.trans hd⟩
  unique := by
    rw [h.table]
    exact hc.unique
  serial := by
    rw [h.serial]
    exact hc.serial
  closed hl := by
    rw [h.link] at hl
    rw [h.table]
    exact ⟨h.connected (hc.closed hl).1, (hc.closed hl).2⟩
  loaded m hm := (h.loaded m hm).elim (hc.loaded m) id
  heard hh := by
    rw [h.link]
    exact hc.heard (h.heard hh)
  error := h.calls.error hc.error
  notified id call' hcl' hd' := by
    obtain ⟨call, hcl, hd, -⟩ := h.calls.back hcl'
    rw [h.notified]
    exact hc.notified id call hcl (hd ▸ hd')

theorem forgot_iff (hca : SameCalls c c') (htb : c'.pendingReplies = c.pendingReplies) :
    c'.Forgot id ↔ c.Forgot id := by
  unfold ClientConnection.Forgot ClientConnection.Waits
  rw [htb]
  constructor
  · rintro ⟨call', hcl', hd, hw⟩
    obtain ⟨call, hcl, hsm, -⟩ := hca.back hcl'
    exact ⟨call, hcl, hsm.symm.trans hd, hw⟩
  · rintro ⟨call, hcl, hd, hw⟩
    obtain ⟨call', hcl', -, -, hsm, -⟩ := hca.call id call hcl
    exact ⟨call', hcl', hsm.trans hd, hw⟩

theorem quiet_onCall (hf : Harmless f) : Quiet c (c.onCall id f) :=
  ⟨sameCalls_onCall hf, rfl, rfl, rfl, fun h => h, rfl, fun _ h => .inl h, fun h => h⟩

section
variable (hm : m.isDisconnected = false)
include hm

theorem quiet_queue : Quiet c { c with incoming := c.incoming ++ [m] } := by
  refine ⟨⟨rfl, SameCalls.rfl.call⟩, rfl, rfl, rfl, id, rfl, fun _ h => .inl h, ?_⟩
  rintro (⟨m', hm', hd⟩ | h)
  · rcases mem_append.1 hm' with hm' | hm'
    · exact .inl ⟨m', hm', hd⟩
    · simp [mem_singleton.1 hm', hm] at hd
  · exact .inr h

theorem quiet_queueReceived : Quiet c (c.queueReceived m) := by
  unfold ClientConnection.queueReceived
  simp only
  split
  · exact quiet_queue hm
  split
  · exact (quiet_queue hm).trans (quiet_onCall harmless_timeoutAdded)
  · exact quiet_queue hm

end

theorem quiet_foldl {ms : List BusMessage} (hms : ∀ m ∈ ms, m.isDisconnected = false) :
    Quiet c (ms.foldl ClientConnection.queueReceived c) := by
  induction ms generalizing c with
  | nil => exact .rfl
  | cons m ms ih =>
    exact (quiet_queueReceived (hms m mem_cons_self)).trans
      (ih fun m' hm' => hms m' (mem_cons_of_mem _ hm'))

theorem quiet_queueMessages (hc : Coherent c) (batch : ℕ) : Quiet c (c.queueMessages batch) := by
  have hl : Quiet c { c with loader := c.loader.drop batch } :=
    ⟨⟨rfl, SameCalls.rfl.call⟩, rfl, rfl, rfl, fun h => h, rfl,
      fun m hm => .inl (mem_of_mem_drop hm), fun h => h⟩
  exact hl.trans (quiet_foldl fun m hm => hc.loaded m (mem_of_mem_take hm))

theorem connected_queueMessages (batch : ℕ) : (c.queueMessages batch).connected = c.connected := by
  have hfl : ∀ (ms : List BusMessage) (d : ClientConnection),
      (ms.foldl ClientConnection.queueReceived d).connected = d.connected := by
    intro ms
    induction ms with
    | nil => exact fun _ => rfl
    | cons m ms ih =>
      intro d
      rw [foldl_cons, ih, ClientConnection.queueReceived]
      split
      · rfl
      · split <;> rfl
  exact hfl _ _

theorem quiet_queueTimeoutError (hc : Coherent c) (id : ℕ) : Quiet c (c.queueTimeoutError id) := by
  unfold ClientConnection.queueTimeoutError
  split
  · rename_i error her
    obtain ⟨call, hcl, hl⟩ := bind_eq_some_iff.1 her
    have hno := hc.error call (mem_of_getElem? hcl) error hl
    exact (quiet_queue hno).trans (quiet_onCall harmless_timeoutLink)
  · exact .rfl

theorem quiet_replyHandlerTimeout (hc : Coherent c) (id : ℕ) : Quiet c (c.replyHandlerTimeout id) := by
  unfold ClientConnection.replyHandlerTimeout
  split
  · split
    · exact (quiet_queueTimeoutError hc id).trans (quiet_onCall harmless_timeoutAdded)
    · exact .rfl
  · exact .rfl

theorem isDisconnected_of_interface (h : m.interface ≠ some localInterface) :
    m.isDisconnected = false := by
  simp [BusMessage.isDisconnected, BusMessage.isSignal, h]

theorem quiet_receive (m : BusMessage) : Quiet c (c.receive m) := by
  unfold ClientConnection.receive
  split
  · exact .rfl
  split
  · exact ⟨⟨rfl, SameCalls.rfl.call⟩, rfl, rfl, rfl, fun _ => rfl, rfl, fun _ h => .inl h, id⟩
  · rename_i hi
    refine ⟨⟨rfl, SameCalls.rfl.call⟩, rfl, rfl, rfl, id, rfl, fun m' hm' => ?_, id⟩
    rcases mem_append.1 hm' with hm' | hm'
    · exact .inl hm'
    · rw [mem_singleton.1 hm']
      exact .inr (isDisconnected_of_interface hi)

theorem quiet_disconnect : Quiet c { c with connected := false } :=
  ⟨⟨rfl, SameCalls.rfl.call⟩, rfl, rfl, rfl, fun _ => rfl, rfl, fun _ h => .inl h, id⟩

theorem quiet_finishMessage (result : HandlerResult) : Quiet c (c.finishMessage result) := by
  unfold ClientConnection.finishMessage
  split
  · rename_i m completes hd
    split
    · refine ⟨⟨rfl, SameCalls.rfl.call⟩, rfl, rfl, rfl, id, rfl, fun _ h => .inl h, ?_⟩
      rintro (⟨m', hm', hds⟩ | ⟨_, hm', -⟩ | h)
      · rcases mem_cons.1 hm' with rfl | hm'
        · exact .inr (.inl ⟨_, hd, hds⟩)
        · exact .inl ⟨m', hm', hds⟩
      · cases hm'
      · exact .inr (.inr h)
    · refine ⟨⟨rfl, SameCalls.rfl.call⟩, rfl, rfl, rfl, id, rfl, fun _ h => .inl h, ?_⟩
      rintro (h | ⟨_, hm', -⟩ | h)
      · exact .inl h
      · cases hm'
      · rcases Bool.or_eq_true_iff.1 h with h | h
        · exact .inr (.inr h)
        · exact .inr (.inl ⟨_, hd, h⟩)
  · exact .rfl

/-! ## The check of the status -/

/-- The loop removes no call but by its table, unless it stops at a timeout that is gone. -/
theorem timeoutAll_quiet (entries : List (ℕ × ℕ)) (hc : Coherent c) :
    (ClientConnection.timeoutAll entries c = .error .assertion ∧ entries ≠ []) ∨ ∃ c1, Quiet c c1 ∧
      ClientConnection.timeoutAll entries c = .ok { c1 with pendingReplies := [] } := by
  induction entries generalizing c with
  | nil => exact .inr ⟨c, .rfl, rfl⟩
  | cons e entries ih =>
    have hq : Quiet c ((c.queueTimeoutError e.2).onCall e.2 ({ · with timeoutAdded := false })) :=
      (quiet_queueTimeoutError hc e.2).trans (quiet_onCall harmless_timeoutAdded)
    rw [ClientConnection.timeoutAll]
    by_cases ht : (c.queueTimeoutError e.2).calls[e.2]?.any (·.timeoutAdded) = true
    · simp only [assert_bind ht]
      rcases ih (hq.coherent hc) with ⟨heq, -⟩ | ⟨c1, hq1, heq⟩
      · exact .inl ⟨heq, cons_ne_nil _ _⟩
      · exact .inr ⟨c1, hq.trans hq1, heq⟩
    · exact .inl ⟨by simp only [assert, ensure_not ht]; rfl, cons_ne_nil _ _⟩

/-- The state after a check that found the connection disconnected. -/
structure Checked (c c' : ClientConnection) : Prop where
  coherent : Coherent c'
  calls : SameCalls c c'

theorem notifyDisconnected_spec (hc : Coherent c) (hcn : c.connected = false) :
    (c.notifyDisconnected = .error .assertion ∧ c.disconnectLink = true ∧ c.pendingReplies ≠ []) ∨
    ∃ c', c.notifyDisconnected = .ok c' ∧ Checked c c' ∧
      c'.pendingReplies = if c.disconnectLink then [] else c.pendingReplies := by
  unfold ClientConnection.notifyDisconnected
  split
  · rename_i hl
    rcases timeoutAll_quiet c.pendingReplies hc with ⟨heq, hne⟩ | ⟨c1, hq, heq⟩
    · exact .inl ⟨by rw [heq]; rfl, hl, hne⟩
    have hch := hq.coherent hc
    rw [heq]
    refine .inr ⟨_, rfl, ⟨?_, ⟨hq.calls.length, hq.calls.call⟩⟩, rfl⟩
    exact ⟨nofun, nofun, hch.serial, fun _ => ⟨hq.connected hcn, rfl⟩, hch.loaded,
      fun _ => rfl, hch.error, hch.notified⟩
  · exact .inr ⟨c, rfl, ⟨hc, .rfl⟩, rfl⟩

/-- The check empties the table if it finds the connection disconnected, the queue empty and
    `Disconnected` not queued, and leaves it otherwise; it stops only where there was something
    to take out. -/
theorem getDispatchStatus_spec (hc : Coherent c) (batch : ℕ) :
    (c.getDispatchStatus batch = .error .assertion ∧ c.incoming = [] ∧ c.connected = false ∧
      c.disconnectLink = true ∧ c.pendingReplies ≠ []) ∨
    ∃ c', c.getDispatchStatus batch = .ok c' ∧ Checked c c' ∧ c'.pendingReplies =
        if c.incoming = [] ∧ c.connected = false ∧ c.disconnectLink = true then []
        else c.pendingReplies := by
  unfold ClientConnection.getDispatchStatus
  by_cases hin : c.incoming = []
  · rw [if_neg (not_not.2 hin), connected_queueMessages]
    have hq := quiet_queueMessages hc batch
    cases hcn : c.connected with
    | true =>
      rw [if_pos rfl, if_neg (by simp)]
      exact .inr ⟨_, rfl, ⟨hq.coherent hc, hq.calls⟩, hq.table⟩
    | false =>
      rw [if_neg (by simp)]
      rcases notifyDisconnected_spec (hq.coherent hc) (hq.connected hcn) with
        ⟨heq, hl, hne⟩ | ⟨c', heq, hck, htb⟩
      · rw [hq.link] at hl
        rw [hq.table] at hne
        exact .inl ⟨heq, hin, rfl, hl, hne⟩
      refine .inr ⟨c', heq, ⟨hck.coherent, hq.calls.trans hck.calls⟩, ?_⟩
      rw [htb, hq.link, hq.table]
      cases c.disconnectLink <;> simp [hin]
  · rw [if_pos hin, if_neg fun h => hin h.1]
    exact .inr ⟨c, rfl, ⟨hc, .rfl⟩, rfl⟩

/-! ## Calls -/

theorem lookupPending_eq_none :
    c.lookupPending serial = none ↔ ∀ e ∈ c.pendingReplies, e.1 ≠ serial := by
  rw [ClientConnection.lookupPending, map_eq_none_iff, find?_eq_none]
  simp

theorem mem_of_lookupPending (h : c.lookupPending serial = some id) :
    (serial, id) ∈ c.pendingReplies := by
  obtain ⟨e, he, rfl⟩ := map_eq_some_iff.1 h
  have hsr : e.1 = serial := by simpa using find?_some he
  rw [← hsr]
  exact mem_of_find?_eq_some he

section
variable {table : List (ℕ × ℕ)} {k n : ℕ} {e : ℕ × ℕ}

theorem mem_entered : e ∈ table.filter (·.1 ≠ k) ++ [(k, n)] ↔ e ∈ table ∧ e.1 ≠ k ∨ e = (k, n) := by
  simp

theorem unique_entered (h : ∀ e ∈ table, ∀ e' ∈ table, e.1 = e'.1 → e = e') :
    ∀ e ∈ table.filter (·.1 ≠ k) ++ [(k, n)], ∀ e' ∈ table.filter (·.1 ≠ k) ++ [(k, n)],
      e.1 = e'.1 → e = e' := by
  grind

theorem getElem?_concat_iff {l : List PendingCall} {a b : PendingCall} :
    (l ++ [a])[n]? = some b ↔ l[n]? = some b ∨ n = l.length ∧ a = b := by
  grind

end

theorem attachPendingCall_spec (hc : Coherent c) (hcn : c.connected = true) (call : PendingCall)
    (hcl : call.reply = none ∧ call.completed = false)
    (her : ∀ m ∈ call.timeoutLink, m.isDisconnected = false) (lost : Bool) :
    Coherent { c.attachPendingCall call with connected := !lost } ∧
      (∀ id, c.Forgot id → (c.attachPendingCall call).Forgot id) ∧
      (c.lookupPending call.replySerial = none →
        ∀ id, (c.attachPendingCall call).Forgot id → c.Forgot id) ∧
      ∀ id, c.lookupPending call.replySerial = some id → (c.attachPendingCall call).Forgot id := by
  -- the call that is replaced loses its timeout
  obtain ⟨c1, hq, heq⟩ : ∃ c1, Quiet c c1 ∧ c.attachPendingCall call = { c1 with
      calls := c1.calls ++ [{ call with timeoutAdded := true }]
      pendingReplies := c1.pendingReplies.filter (·.1 ≠ call.replySerial) ++
        [(call.replySerial, c1.calls.length)] } := by
    unfold ClientConnection.attachPendingCall
    cases c.lookupPending call.replySerial with
    | none => exact ⟨c, .rfl, rfl⟩
    | some id => exact ⟨_, quiet_onCall harmless_timeoutAdded, rfl⟩
  have hch := hq.coherent hc
  have hl : c1.disconnectLink = true := by
    rw [hq.link]
    by_contra hl
    simp [(hc.closed (by simpa using hl)).1] at hcn
  have hwt : ∀ {id}, id < c1.calls.length → ((c.attachPendingCall call).Waits id ↔
      ∃ e ∈ c1.pendingReplies, e.1 ≠ call.replySerial ∧ e.2 = id) := by
    intro id hid
    simp only [ClientConnection.Waits, heq, mem_entered]
    constructor
    · rintro ⟨e, he | rfl, rfl⟩
      · exact ⟨e, he.1, he.2, rfl⟩
      · exact absurd hid (Nat.lt_irrefl _)
    · rintro ⟨e, he, hne, rfl⟩
      exact ⟨e, .inl ⟨he, hne⟩, rfl⟩
  have hf1 : ∀ id, c1.Forgot id ↔ c.Forgot id := fun id => forgot_iff hq.calls hq.table
  refine ⟨?_, fun id h => ?_, fun hnn id h => ?_, fun id hid => ?_⟩
  · rw [heq]
    refine ⟨fun e he => ?_, unique_entered hch.unique, hch.serial, fun h => ?_,
      hch.loaded, hch.heard, ?_, ?_⟩
    · rcases mem_entered.1 he with ⟨he, -⟩ | rfl
      · obtain ⟨call', hcl', hrs⟩ := hch.entry e he
        exact ⟨call', getElem?_concat_iff.2 (.inl hcl'), hrs⟩
      · exact ⟨_, getElem?_concat_length, rfl, hcl.1, hcl.2⟩
    · simp [show c1.disconnectLink = false from h] at hl
    · intro call' hmm m hm
      rcases mem_append.1 hmm with hmm | hmm
      · exact hch.error call' hmm m hm
      · rw [mem_singleton.1 hmm] at hm
        exact her m hm
    · intro id call' hcl' hdn
      rcases getElem?_concat_iff.1 hcl' with hcl' | ⟨-, rfl⟩
      · exact hch.notified id call' hcl' hdn
      · simp [hcl.2] at hdn
  · obtain ⟨call', hcl', hdn, hnt⟩ := (hf1 id).2 h
    have hlt := (List.getElem?_eq_some_iff.1 hcl').1
    refine ⟨call', by rw [heq]; exact getElem?_concat_iff.2 (.inl hcl'), hdn, fun hw => hnt ?_⟩
    obtain ⟨e, he, -, hid⟩ := (hwt hlt).1 hw
    exact ⟨e, he, hid⟩
  · obtain ⟨call', hcl', hdn, hnt⟩ := h
    rw [heq] at hcl'
    rcases getElem?_concat_iff.1 hcl' with hcl' | ⟨rfl, -⟩
    · have hlt := (List.getElem?_eq_some_iff.1 hcl').1
      refine (hf1 id).1 ⟨call', hcl', hdn, fun ⟨e, he, hid⟩ => hnt ((hwt hlt).2 ⟨e, he, ?_, hid⟩)⟩
      rw [hq.table] at he
      exact lookupPending_eq_none.1 hnn e he
    · refine absurd ⟨(call.replySerial, c1.calls.length), ?_, rfl⟩ hnt
      rw [heq]
      exact mem_entered.2 (.inr rfl)
  · have hmm := mem_of_lookupPending hid
    rw [← hq.table] at hmm
    obtain ⟨call', hcl', hsr, -, hdn⟩ := hch.entry _ hmm
    have hlt := (List.getElem?_eq_some_iff.1 hcl').1
    refine ⟨call', by rw [heq]; exact getElem?_concat_iff.2 (.inl hcl'), hdn, fun hw => ?_⟩
    obtain ⟨e, he, hne, rfl⟩ := (hwt hlt).1 hw
    obtain ⟨call'', hcl'', hsr', -⟩ := hch.entry e he
    obtain rfl := Option.some.inj (hcl'.symm.trans hcl'')
    exact hne (hsr'.symm.trans hsr)

theorem completePendingCall_spec (hc : Coherent c) (hid : c.lookupPending m.replySerial = some id) :
    ∃ c', c.completePendingCall id m = .ok c' ∧ Coherent c' ∧ c'.incoming = c.incoming ∧
      c'.disconnectedDispatched = c.disconnectedDispatched ∧
      c'.disconnectLink = c.disconnectLink ∧ ∀ j, c'.Forgot j ↔ c.Forgot j := by
  have hmm := mem_of_lookupPending hid
  obtain ⟨call, hcl, hsr, hrp, hdn⟩ := hc.entry _ hmm
  unfold ClientConnection.completePendingCall
  rw [hcl, valueOr_some, ok_bind, assert_bind hrp, assert_bind hsr, assert_bind hdn]
  refine ⟨_, rfl, ⟨fun e he => ?_, fun e he e' he' => ?_, hc.serial, fun h => ?_, hc.loaded, hc.heard,
    ?_, ?_⟩, rfl, rfl, rfl, fun j => ?_⟩
  · -- what is left in the table has other serials
    obtain ⟨he, hne⟩ := mem_filter.1 he
    obtain ⟨call', hcl', hsr', hrs⟩ := hc.entry e he
    refine ⟨call', ?_, hsr', hrs⟩
    have ho : id ≠ e.2 := by
      rintro rfl
      obtain rfl := Option.some.inj (hcl.symm.trans hcl')
      rw [← hsr'] at hne
      simp at hne
    rw [getElem?_set_ne ho]
    exact hcl'
  · exact hc.unique e (mem_filter.1 he).1 e' (mem_filter.1 he').1
  · have hem := (hc.closed h).2
    simp [hem] at hmm
  · intro call' hmm' m' hm'
    rcases mem_or_eq_of_mem_set hmm' with hmm' | rfl
    · exact hc.error call' hmm' m' hm'
    · exact hc.error call (mem_of_getElem? hcl) m' hm'
  · intro j call' hcl' hdn'
    by_cases hj : id = j
    · exact mem_append_right _ (mem_singleton.2 hj.symm)
    · rw [getElem?_set_ne hj] at hcl'
      exact mem_append_left _ (hc.notified j call' hcl' hdn')
  · by_cases hj : id = j
    · subst hj
      constructor
      · rintro ⟨call', hcl', hdn', -⟩
        have hlt := (List.getElem?_eq_some_iff.1 hcl).1
        rw [getElem?_set_self hlt] at hcl'
        obtain rfl := Option.some.inj hcl'
        cases hdn'
      · rintro ⟨-, -, -, hnt⟩
        exact absurd ⟨_, hmm, rfl⟩ hnt
    · unfold ClientConnection.Forgot ClientConnection.Waits
      simp only [getElem?_set_ne hj]
      refine exists_congr fun call' => and_congr_right fun hcl' => and_congr_right fun _ =>
        not_congr ?_
      constructor
      · rintro ⟨e, he, hej⟩
        exact ⟨e, (mem_filter.1 he).1, hej⟩
      · rintro ⟨e, he, rfl⟩
        refine ⟨e, mem_filter.2 ⟨he, ?_⟩, rfl⟩
        have hne : e.1 ≠ call.replySerial := by
          intro hky
          exact hj (congrArg Prod.snd (hc.unique e he _ hmm (hky.trans hsr))).symm
        simpa using hne

/-! ## Histories -/

/-- What one step does to the calls that are forgotten. -/
structure StepSpec (c : ClientConnection) (event : CallEvent) (c' : ClientConnection) : Prop where
  coherent : Coherent c'
  forgets : ∀ id, c.Forgot id → c'.Forgot id
  keeps : Keeps c event → ∀ id, c'.Forgot id → c.Forgot id
  loses : ¬ Keeps c event → ∃ id, c'.Forgot id

theorem Quiet.stepSpec {event : CallEvent} (h : Quiet c c') (hc : Coherent c)
    (hkp : Keeps c event) : StepSpec c event c' where
  coherent := h.coherent hc
  forgets _ hid := (forgot_iff h.calls h.table).2 hid
  keeps _ _ hid := (forgot_iff h.calls h.table).1 hid
  loses hno := absurd hkp hno

section
variable (hc : Coherent c)
include hc

theorem sendWithReply_spec (message : BusMessage) (lost : Bool) :
    ∃ c', c.sendWithReply message lost = .ok c' ∧ StepSpec c (.send message lost) c' := by
  unfold ClientConnection.sendWithReply
  cases hcn : c.connected with
  | false =>
    rw [if_neg (by simp)]
    refine ⟨c, rfl, Quiet.rfl.stepSpec hc fun h => ?_⟩
    simp [hcn] at h
  | true =>
    rw [if_pos rfl]
    -- the connection after the serial was taken
    obtain ⟨serial, c1, hsr, hpr, hne, hch, hsm, htb, hl⟩ :
        ∃ serial c1, serial = (if message.serial = 0 then c.clientSerial else message.serial) ∧
          (if message.serial = 0 then (c.clientSerial, c.nextClientSerial)
            else (message.serial, c)) = (serial, c1) ∧ serial ≠ 0 ∧ Coherent c1 ∧ SameCalls c c1 ∧
          c1.pendingReplies = c.pendingReplies ∧ c1.connected = true := by
      by_cases hz : message.serial = 0
      · refine ⟨c.clientSerial, c.nextClientSerial, by rw [if_pos hz], by rw [if_pos hz],
          hc.serial, ?_, ⟨rfl, SameCalls.rfl.call⟩, rfl, hcn⟩
        refine ⟨hc.entry, hc.unique, ?_, hc.closed, hc.loaded, hc.heard, hc.error, hc.notified⟩
        unfold ClientConnection.nextClientSerial
        simp only
        split <;> omega
      · exact ⟨message.serial, c, by rw [if_neg hz], by rw [if_neg hz], hz, hc, .rfl, rfl, hcn⟩
    rw [hpr]
    simp only
    rw [assert_bind hne]
    obtain ⟨hch', hfo, hkp, hls⟩ := attachPendingCall_spec hch hl
      { replySerial := serial, timeoutAdded := false
        timeoutLink := some (timeoutError { message with serial := serial }) }
      ⟨rfl, rfl⟩ (fun m hm => by cases hm; rfl) lost
    have hfr : ∀ id, c1.Forgot id ↔ c.Forgot id := fun id => forgot_iff hsm htb
    have hp : c1.lookupPending serial = c.lookupPending serial := by
      rw [ClientConnection.lookupPending, ClientConnection.lookupPending, htb]
    refine ⟨_, rfl, hch', fun id h => hfo id ((hfr id).2 h), fun h id hid => ?_, fun h => ?_⟩
    · refine (hfr id).1 (hkp ?_ id hid)
      rw [hp, hsr]
      exact h hcn
    · simp only [Keeps, hcn, forall_const, ← hsr, ← hp] at h
      obtain ⟨id, hid⟩ := ne_none_iff_exists'.1 h
      exact ⟨id, hls id hid⟩

theorem status_spec (batch : ℕ) :
    (c.getDispatchStatus batch = .error .assertion ∧ ¬ Keeps c (.status batch)) ∨
      ∃ c', c.getDispatchStatus batch = .ok c' ∧ StepSpec c (.status batch) c' := by
  rcases getDispatchStatus_spec hc batch with ⟨heq, hin, hcn, hl, hne⟩ | ⟨c', heq, ⟨hch, hca⟩, htb⟩
  · exact .inl ⟨heq, fun hkp => hne (hkp hin hcn hl)⟩
  refine .inr ⟨c', heq, ?_⟩
  by_cases hdr : c.incoming = [] ∧ c.connected = false ∧ c.disconnectLink = true
  · rw [if_pos hdr] at htb
    -- without a table, every call that is not completed is forgotten
    have hnn : ∀ id, ¬ c'.Waits id := by
      rintro id ⟨e, he, -⟩
      simp [htb] at he
    have hfr : ∀ {id call}, c.calls[id]? = some call → call.completed = false → c'.Forgot id := by
      intro id call hcl hdn
      obtain ⟨call', hcl', -, -, hsm, -⟩ := hca.call id call hcl
      exact ⟨call', hcl', hsm.trans hdn, hnn id⟩
    refine ⟨hch, fun id ⟨call, hcl, hdn, _⟩ => hfr hcl hdn, fun hkp id => ?_, fun hno => ?_⟩
    · have hem := hkp hdr.1 hdr.2.1 hdr.2.2
      exact (forgot_iff hca (htb.trans hem.symm)).1
    · have hne : c.pendingReplies ≠ [] := fun he => hno fun _ _ _ => he
      obtain ⟨e, he⟩ := exists_mem_of_ne_nil _ hne
      obtain ⟨call, hcl, -, -, hdn⟩ := hc.entry e he
      exact ⟨e.2, hfr hcl hdn⟩
  · rw [if_neg hdr] at htb
    refine ⟨hch, fun id => (forgot_iff hca htb).2, fun _ id => (forgot_iff hca htb).1,
      fun hno => absurd (fun h1 h2 h3 => absurd ⟨h1, h2, h3⟩ hdr) hno⟩

theorem popMessage_spec : ∃ c', c.popMessage = .ok c' ∧ StepSpec c .pop c' := by
  unfold ClientConnection.popMessage
  split
  · rename_i m rest hdi hi
    -- the message goes from the queue to the dispatcher
    have hh : ∀ {c'' : ClientConnection} {b : Bool}, c''.incoming = rest →
        c''.disconnectedDispatched = c.disconnectedDispatched →
        c''.dispatching = some (m, b) → c''.Heard → c.Heard := by
      intro c'' b hin hdn hds h
      rcases h with ⟨m', hm', hd⟩ | ⟨m', hm', hd⟩ | h
      · rw [hin] at hm'
        exact .inl ⟨m', by rw [hi]; exact mem_cons_of_mem _ hm', hd⟩
      · rw [hds] at hm'
        cases hm'
        exact .inl ⟨m, by rw [hi]; exact mem_cons_self, hd⟩
      · exact .inr (.inr (hdn ▸ h))
    have hq : Quiet c { c with incoming := rest } := by
      refine ⟨⟨rfl, SameCalls.rfl.call⟩, rfl, rfl, rfl, fun h => h, rfl, fun _ h => .inl h, ?_⟩
      rintro (⟨m', hm', hd⟩ | h)
      · exact .inl ⟨m', by rw [hi]; exact mem_cons_of_mem _ hm', hd⟩
      · exact .inr h
    simp only
    split
    · rename_i id hid
      obtain ⟨c', hrn, hch, hin, hdn, hl, hfr⟩ := completePendingCall_spec (hq.coherent hc) hid
      rw [hrn]
      have hfr' : ∀ j, ({ c' with dispatching := some (m, true) } : ClientConnection).Forgot j ↔
          c.Forgot j := fun j => (hfr j).trans (forgot_iff hq.calls hq.table)
      refine ⟨_, rfl, ?_, fun j => (hfr' j).2, fun _ j => (hfr' j).1, fun hno => absurd trivial hno⟩
      refine ⟨hch.entry, hch.unique, hch.serial, hch.closed, hch.loaded, fun h => ?_,
        hch.error, hch.notified⟩
      exact hl.trans (hc.heard (@hh { c' with dispatching := some (m, true) } true hin hdn rfl h))
    · refine ⟨_, rfl, Quiet.stepSpec ?_ hc trivial⟩
      exact ⟨⟨rfl, SameCalls.rfl.call⟩, rfl, rfl, rfl, fun h => h, rfl, fun _ h => .inl h,
        hh rfl rfl rfl⟩
  · exact ⟨c, rfl, Quiet.rfl.stepSpec hc trivial⟩

theorem callStep_spec (event : CallEvent) :
    (callStep c event = .error .assertion ∧ ¬ Keeps c event) ∨
      ∃ c', callStep c event = .ok c' ∧ StepSpec c event c' := by
  cases event with
  | send message lost => exact .inr (sendWithReply_spec hc message lost)
  | receive message => exact .inr ⟨_, rfl, (quiet_receive message).stepSpec hc trivial⟩
  | disconnect => exact .inr ⟨_, rfl, quiet_disconnect.stepSpec hc trivial⟩
  | timeout id => exact .inr ⟨_, rfl, (quiet_replyHandlerTimeout hc id).stepSpec hc trivial⟩
  | status batch => exact status_spec hc batch
  | pop => exact .inr (popMessage_spec hc)
  | finish result => exact .inr ⟨_, rfl, (quiet_finishMessage result).stepSpec hc trivial⟩

/-- A history stops only where a step forgets a call; if it does not, some call has been forgotten
    in the end exactly if one was at the start or a step has forgotten one. -/
theorem callRun_spec (events : List CallEvent) :
    (callRun c events = .error .assertion ∧ ¬ AllKeep c events) ∨
    ∃ c', callRun c events = .ok c' ∧ Coherent c' ∧
      ((∃ id, c'.Forgot id) ↔ (∃ id, c.Forgot id) ∨ ¬ AllKeep c events) := by
  induction events generalizing c with
  | nil => exact .inr ⟨c, rfl, hc, by simp [AllKeep]⟩
  | cons event events ih =>
    rcases callStep_spec hc event with ⟨hst, hno⟩ | ⟨c1, hst, hsp⟩
    · exact .inl ⟨by rw [callRun, hst]; rfl, fun h => hno h.1⟩
    have hal : AllKeep c (event :: events) ↔ Keeps c event ∧ AllKeep c1 events := by
      simp only [AllKeep, hst, Except.ok.injEq, forall_eq']
    rcases ih hsp.coherent with ⟨hrn, hno⟩ | ⟨c', hrn, hch, hi⟩
    · exact .inl ⟨by rw [callRun, hst]; exact hrn, fun h => hno (hal.1 h).2⟩
    refine .inr ⟨c', ?_, hch, hi.trans ?_⟩
    · rw [callRun, hst]
      exact hrn
    · rw [hal]
      by_cases hkp : Keeps c event
      · have hsm : (∃ id, c1.Forgot id) ↔ ∃ id, c.Forgot id :=
          exists_congr fun id => ⟨hsp.keeps hkp id, hsp.forgets id⟩
        rw [hsm]
        simp only [hkp, true_and]
      · have hl : ∃ id, c1.Forgot id := hsp.loses hkp
        simp only [hl, hkp, true_or, false_and, not_false_eq_true, or_true]

end

theorem coherent_new : Coherent {} := by
  refine ⟨fun e he => ?_, fun e he => ?_, by decide, fun h => ?_, fun m hm => ?_, ?_,
    fun call hcl => ?_, fun id call hcl => ?_⟩
  · cases he
  · cases he
  · cases h
  · cases hm
  · rintro (⟨_, hm, -⟩ | ⟨_, hm, -⟩ | h)
    · cases hm
    · cases hm
    · cases h
  · cases hcl
  · cases hcl

/-- **Answered calls.**  If no message is sent with the serial of a pending call, and no call is
    pending when the connection is found to be disconnected, the history returns.  When
    `Disconnected` has been dispatched in a history that returns, every call has been completed and
    its notify function been run if and only if the history is such. -/
theorem answered_iff (events : List CallEvent) :
    (AllKeep {} events → ∃ c, callRun {} events = .ok c) ∧
      ∀ c, callRun {} events = .ok c → c.disconnectedDispatched = true →
        (Answered c ↔ AllKeep {} events) := by
  rcases callRun_spec coherent_new events with ⟨hrn, hno⟩ | ⟨c, hrn, hch, hi⟩
  · refine ⟨fun h => absurd h hno, fun c hc => ?_⟩
    rw [hrn] at hc
    cases hc
  refine ⟨fun _ => ⟨c, hrn⟩, fun c' hc' hds => ?_⟩
  rw [hrn] at hc'
  cases hc'
  have htb := (hch.closed (hch.heard (.inr (.inr hds)))).2
  have hnw : ¬ ∃ id, ({} : ClientConnection).Forgot id := by
    rintro ⟨id, call, hcl, -⟩
    cases hcl
  have hfr : (∃ id, c.Forgot id) ↔ ¬ AllKeep {} events := by
    rw [hi]
    simp only [hnw, false_or]
  rw [← not_iff_not, ← hfr]
  constructor
  · intro hno
    by_contra hkp
    refine hno fun id call hcl => ?_
    have hdn : call.completed = true := by
      by_contra hdn
      refine hkp ⟨id, call, hcl, by simpa using hdn, ?_⟩
      rintro ⟨e, he, -⟩
      simp [htb] at he
    exact ⟨hdn, hch.notified id call hcl hdn⟩
  · rintro ⟨id, call, hcl, hdn, -⟩ han
    simp [(han id call hcl).1] at hdn

/-- A call that was answered before the connection was lost. -/
theorem answered_reply : ∃ c,
    callRun {} [.send { type := .methodCall } false, .receive { type := .methodReturn, replySerial := 1 },
      .status 1, .pop, .finish .handled, .disconnect, .status 0, .pop, .finish .handled] = .ok c ∧
    c.disconnectedDispatched = true ∧ Answered c := by
  have han := (answered_iff [.send { type := .methodCall } false,
    .receive { type := .methodReturn, replySerial := 1 },
    .status 1, .pop, .finish .handled, .disconnect, .status 0, .pop, .finish .handled]).2
  refine ⟨_, rfl, rfl, (han _ rfl rfl).2 ⟨fun _ => rfl, ?_⟩⟩
  rintro _ ⟨⟩
  refine ⟨trivial, ?_⟩
  rintro _ ⟨⟩
  refine ⟨fun _ h => ?_, ?_⟩
  · cases h
  rintro _ ⟨⟩
  refine ⟨trivial, ?_⟩
  rintro _ ⟨⟩
  refine ⟨trivial, ?_⟩
  rintro _ ⟨⟩
  refine ⟨trivial, ?_⟩
  rintro _ ⟨⟩
  refine ⟨fun _ _ _ => rfl, ?_⟩
  rintro _ ⟨⟩
  exact ⟨trivial, fun _ _ => ⟨trivial, fun _ _ => trivial⟩⟩

/-- A call that is pending when the connection is lost: its error is dispatched, and
    `Disconnected`, but the call is not completed. -/
theorem disconnected_unanswered : ∃ c,
    callRun {} [.send { type := .methodCall } false, .disconnect, .status 0, .pop, .finish .handled,
      .pop, .finish .handled] = .ok c ∧
    c.disconnectedDispatched = true ∧ ¬ Answered c := by
  refine ⟨_, rfl, rfl, fun h => ?_⟩
  exact absurd (h 0 _ rfl).1 (by decide)

end

end DBus
