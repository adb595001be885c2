/-
  Messages over a socket: `do_writing` of `dbus-transport-socket.c` with the queue of
  `dbus-connection.c`, up to the loader of the peer.
-/
import DBus.Loader.Oom

namespace DBus

open Outcome Endian Framing List DBusMessage DBusMessageLoader

/-- What becomes of a call of `_dbus_write_socket`: the kernel takes up to `n` bytes, it has
    no room, or the socket is broken. -/
inductive SocketWrite where
  | took (n : ℕ)
  | wouldBlock
  | failed

/-- The members of `DBusTransportSocket` and of its connection that `do_writing` uses, with
    the queue from its end on, and the bytes that the kernel has taken. -/
structure DBusTransportSocket where
  authenticated : Bool := false
  disconnected : Bool := false
  outgoingMessages : List DBusMessage := []
  messageBytesWritten : ℕ := 0
  maxBytesWrittenPerIteration : ℕ
  written : List UInt8 := []

/-- What happens to a transport: the conversation is over, a message that has its serial is
    queued (`_dbus_connection_send_preallocated_unlocked_no_update`), the socket is written
    to, or the transport is disconnected for another reason. -/
inductive SocketEvent where
  | authenticated
  | send (message : DBusMessage)
  | write (ws : List SocketWrite)
  | disconnect

namespace DBusTransportSocket

variable (t : DBusTransportSocket)

/-- `_dbus_connection_get_message_to_send` -/
def getMessageToSend : Option DBusMessage := t.outgoingMessages.head?

/-- `_dbus_connection_message_sent` -/
def messageSent : Res DBusTransportSocket := do
  assert (t.outgoingMessages.isEmpty = false)
  return { t with outgoingMessages := t.outgoingMessages.tail }

/-- What is given to `_dbus_write_socket_two`, or to `_dbus_write_socket` behind the header. -/
def toWrite (message : DBusMessage) : List UInt8 :=
  if t.messageBytesWritten < message.header.data.length then
    message.header.data.drop t.messageBytesWritten ++ message.body
  else message.body.drop (t.messageBytesWritten - message.header.data.length)

/-- The kernel has taken the bytes `bs`. -/
def wrote (message : DBusMessage) (bs : List UInt8) : Res DBusTransportSocket := do
  let t := { t with messageBytesWritten := t.messageBytesWritten + bs.length,
                    written := t.written ++ bs }
  let totalBytesToWrite := message.header.data.length + message.body.length
  assert (t.messageBytesWritten ≤ totalBytesToWrite)
  if t.messageBytesWritten = totalBytesToWrite then
    messageSent { t with messageBytesWritten := 0 }
  else return t

/-- The loop of `do_writing`.  There is no room behind the writes that are listed. -/
def doWritingLoop (t : DBusTransportSocket) (total : ℕ) : List SocketWrite → Res DBusTransportSocket
  | [] => return t
  | w :: ws =>
    match t.disconnected, t.getMessageToSend with
    | false, some message =>
      if total > t.maxBytesWrittenPerIteration then return t
      else match w with
        | .wouldBlock => return t
        | .failed => return { t with disconnected := true }
        | .took n => do
          let bs := (t.toWrite message).take n
          let t ← t.wrote message bs
          t.doWritingLoop (total + bs.length) ws
    | _, _ => return t

/-- `do_writing` -/
def doWriting (ws : List SocketWrite) : Res DBusTransportSocket :=
  if t.authenticated then t.doWritingLoop 0 ws else return t

def handle : SocketEvent → Res DBusTransportSocket
  | .authenticated => return { t with authenticated := true }
  | .send message => return { t with outgoingMessages := t.outgoingMessages ++ [message] }
  | .write ws => t.doWriting ws
  | .disconnect => return { t with disconnected := true }

/-- The bytes of the message to send. -/
def front : List UInt8 := t.getMessageToSend.elim [] bytes

end DBusTransportSocket

def socketRun (max : ℕ) (events : List SocketEvent) : Res DBusTransportSocket :=
  events.foldlM DBusTransportSocket.handle { maxBytesWrittenPerIteration := max }

/-- The messages that are sent, in their order. -/
def SocketEvent.sent : List SocketEvent → List DBusMessage :=
  filterMap fun
    | .send message => some message
    | _ => none

open DBusTransportSocket SocketEvent

/-! ## The bytes are those of the messages -/

section
variable {t : DBusTransportSocket} {msgs : List DBusMessage} {message : DBusMessage}

/-- Of the messages `msgs` that were queued the kernel has those that are no longer in the
    queue, and of the next one as much as is counted. -/
def Sends (msgs : List DBusMessage) (t : DBusTransportSocket) : Prop :=
  ∃ done, msgs = done ++ t.outgoingMessages ∧
    t.written = (done.map bytes).flatten ++ t.front.take t.messageBytesWritten ∧
    t.messageBytesWritten ≤ t.front.length

theorem toWrite_eq : t.toWrite message = message.bytes.drop t.messageBytesWritten := by
  rw [toWrite, bytes, drop_append]
  split
  · next h => simp [Nat.sub_eq_zero_of_le h.le]
  · next h => simp [drop_eq_nil_of_le (Nat.not_lt.1 h)]

theorem Sends.wrote (h : Sends msgs t) (hm : t.getMessageToSend = some message) (n : ℕ) :
    Sat (t.wrote message ((t.toWrite message).take n)) (Sends msgs) fun _ => False := by
  obtain ⟨done, hms, hwr, hle⟩ := h
  obtain ⟨queue, hq⟩ := head?_eq_some_iff.1 hm
  have hfr : t.front = message.bytes := by rw [front, hm, Option.elim]
  have hto : message.header.data.length + message.body.length = message.bytes.length :=
    length_append.symm
  rw [hfr] at hwr hle
  rw [toWrite_eq, take_eq_take_min, length_drop]
  generalize hk : min n (message.bytes.length - t.messageBytesWritten) = k
  rw [DBusTransportSocket.wrote, length_take_of_le (by rw [length_drop]; omega), hto, hwr,
    append_assoc, ← take_add]
  dsimp only
  rw [assert_bind (by omega)]
  split
  · next heq =>
    rw [messageSent, assert_bind (by rw [hq]; rfl), heq, take_length]
    exact ⟨done ++ [message], by simp [hms, hq], by simp, Nat.zero_le _⟩
  · refine ⟨done, hms, by rw [← hfr]; rfl, ?_⟩
    change t.messageBytesWritten + k ≤ t.front.length
    rw [hfr]
    omega

theorem Sends.doWritingLoop (h : Sends msgs t) (total : ℕ) (ws : List SocketWrite) :
    Sat (t.doWritingLoop total ws) (Sends msgs) fun _ => False := by
  induction ws generalizing t total with
  | nil => exact h
  | cons w ws ih =>
    rw [DBusTransportSocket.doWritingLoop]
    split
    · next message _ hm =>
      split
      · exact h
      · cases w with
        | wouldBlock | failed => exact h
        | took n => exact (h.wrote hm n).bind fun t' h' => ih h' _
    · exact h

theorem Sends.handle (h : Sends msgs t) (e : SocketEvent) :
    Sat (t.handle e) (Sends (msgs ++ sent [e])) fun _ => False := by
  cases e with
  | authenticated | disconnect => exact (append_nil msgs).symm ▸ h
  | write ws =>
    rw [DBusTransportSocket.handle, doWriting, sent, filterMap_cons_none rfl, filterMap_nil,
      append_nil]
    split
    · exact h.doWritingLoop 0 ws
    · exact h
  | send message =>
    obtain ⟨done, rfl, hwr, hle⟩ := h
    refine ⟨done, append_assoc .., ?_⟩
    rw [front, getMessageToSend] at hwr hle ⊢
    cases hq : t.outgoingMessages with
    | nil =>
      have h0 : t.messageBytesWritten = 0 := by simpa [hq] using hle
      simp [hwr, h0, hq]
    | cons next queue => simpa [hq] using And.intro hwr hle

theorem Sends.run (h : Sends msgs t) (events : List SocketEvent) :
    Sat (events.foldlM DBusTransportSocket.handle t) (Sends (msgs ++ sent events)) fun _ => False := by
  induction events generalizing t msgs with
  | nil => exact (append_nil msgs).symm ▸ h
  | cons e events ih =>
    have hs : sent (e :: events) = sent [e] ++ sent events := by
      rw [sent, ← filterMap_append, singleton_append]
    rw [foldlM_cons, hs, ← append_assoc]
    exact (h.handle e).bind fun t' h' => ih h'

theorem Sends.written (h : Sends msgs t) : t.written <+: (msgs.map bytes).flatten ∧
    (t.outgoingMessages = [] → t.written = (msgs.map bytes).flatten) := by
  obtain ⟨done, rfl, hwr, -⟩ := h
  rw [hwr, map_append, flatten_append, front, getMessageToSend]
  cases t.outgoingMessages with
  | nil => simp
  | cons next queue =>
    refine ⟨(prefix_append_right_inj _).2 ?_, nofun⟩
    exact IsPrefix.trans ( take_prefix ..) (prefix_append ..)

end

/-! ## The peer loads the messages -/

/-- The message is one that a loader with the limit `max` accepts. -/
structure Sendable (max : ℕ) (message : DBusMessage) : Prop where
  announced : announced max message.bytes = some (message.byteOrder, message.bytes.length)
  valid : MessageValid message.byteOrder message.bytes

/-- The message as the peer has it. -/
def received (message : DBusMessage) : DBusMessage := messageOf message.byteOrder message.bytes

theorem Sendable.item {max : ℕ} {message : DBusMessage} (h : Sendable max message) :
    (messageScanner max).look message.bytes = .item (received message) message.bytes.length := by
  refine nextMessage_eq_item.2 ⟨_, h.announced, le_refl _, ?_, ?_⟩
  · rw [take_length]
    exact h.valid
  · rw [take_length, received]

/-- **Messages arrive complete, once and in order.**  However the kernel takes and hands over
    the bytes, no assertion fails on either side and the loader of the peer has at any time
    the first of the messages that were sent, and all of them in the end. -/
theorem sent_are_received (native : ByteOrder) (size max : ℕ) (events : List SocketEvent)
    (hv : ∀ message ∈ sent events, Sendable (min size maximumMessageLength) message) :
    ∃ t, socketRun max events = .ok t ∧
      ∀ reads : List Read, (reads.map Read.bytes).flatten <+: t.written →
        ∃ l, loadStream native size reads = .ok l ∧ l.corrupted = false ∧
          l.messages <+: (sent events).map received ∧
          (t.outgoingMessages = [] → (reads.map Read.bytes).flatten = t.written →
            l.messages = (sent events).map received) := by
  have h0 : Sends [] { maxBytesWrittenPerIteration := max } := ⟨[], rfl, rfl, Nat.le_refl 0⟩
  obtain ⟨t, ht, hs⟩ | ⟨-, -, ⟨⟩⟩ := (h0.run events).cases
  obtain ⟨hp, he⟩ := hs.written
  refine ⟨t, ht, fun reads hr => ?_⟩
  -- what has been read is cut into the messages that are complete in it
  have hpr : (reads.map Read.bytes).flatten <+: (((sent events).map
      fun message => (received message, message.bytes)).map Prod.snd).flatten := by
    rw [map_map]
    exact hr.trans hp
  obtain ⟨hb, hi, hall⟩ := cut_arrived (S := messageScanner (min size maximumMessageLength)) rfl
    _ (by simpa using fun message hm => (hv message hm).item) hpr
  rw [map_map] at hi hall
  rcases reads_cut reads (queued_new size) with ⟨-, h, -⟩ | ⟨-, l, hl, hq⟩
  · cases hb.symm.trans h
  · refine ⟨l, hl, hq.corrupted.trans hb, hq.messages ▸ hi, fun hnil heq => ?_⟩
    rw [map_map] at hall
    exact hq.messages.trans (hall (heq.trans (he hnil)))

theorem variantCall_received :
    ∃ t, socketRun 2048 [.send (messageOf .little variantCall), .authenticated,
        .write [.took 20, .wouldBlock], .write [.took 100]] = .ok t ∧
      ∀ reads : List Read, (reads.map Read.bytes).flatten <+: t.written →
        ∃ l, loadStream .big 1000 reads = .ok l ∧ l.corrupted = false := by
  refine (sent_are_received .big 1000 2048 _ fun message hm => ?_).imp fun t h =>
    ⟨h.1, fun reads hr => (h.2 reads hr).imp fun l hl => ⟨hl.1, hl.2.1⟩⟩
  obtain rfl := mem_singleton.1 hm
  constructor <;> rw [bytes_messageOf] <;> decide +kernel

end DBus
