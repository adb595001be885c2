/-
  The message loader (`DBusMessageLoader` of `dbus-message.c`).

  Any allocation may fail: of a message, of a link of the queue, of the copies of the header
  and the body, and those of the validators.

  The buffer is a string that owns its memory, so its bytes are followed by a NUL and,
  up to `_DBUS_STRING_ALLOCATION_PADDING`, by bytes that are there but have no meaning.
-/
import DBus.Body.Alloc
import DBus.Message.Defs

namespace DBus

open Memory Align Endian Alloc

/-- `_DBUS_STRING_ALLOCATION_PADDING` -/
def stringAllocationPadding : ℕ := 8

abbrev Behind := Fin (stringAllocationPadding - 1) → UInt8

/-- The string that owns the bytes `bs`, with what is in its block behind them. -/
def DBusString.allocated (bs : List UInt8) (behind : Behind) : DBusString :=
  ⟨ofList (bs ++ 0 :: List.ofFn behind), bs.length⟩

/-! ## Steps that allocate -/

def Stop.isOom : Stop → Bool
  | .noMemory => true
  | .invalid v _ => v = .validityUnknownOomError
  | _ => false

def ifMemory {α : Type} (x : Alloc Stop α) : Alloc Stop (Option α) := do
  match ← attempt x with
  | .ok a => return some a
  | .error st => if st.isOom then return none else lift (.error st)

/-- `stringCopyLen` -/
def allocCopyLen (source : DBusString) (start len : ℕ) (dest : List UInt8) (i : ℕ) :
    Alloc Stop (List UInt8) := do
  let bs ← lift (stringCopyLen source start len dest i)
  if len = 0 then pure () else allocate .oom
  return bs

/-- `headerLeftover` -/
def allocLeftover (mode : ValidationMode) (byteOrder : ByteOrder) (headerLen bodyLen : ℕ)
    (str : DBusString) (start len : ℕ) : Alloc Stop ℤ :=
  match mode with
  | .weTrustThisDataAbsolutely => return (len : ℤ) - headerLen - bodyLen - start
  | .dataIsUntrusted => do
    let p ← allocBody (.ofBytes headerSignature) 0 byteOrder str start len
    return ((start + len : ℕ) : ℤ) - (p : ℤ)

/-- `headerLoad` -/
def allocHeaderLoad (header : DBusHeader) (mode : ValidationMode) (byteOrder : ByteOrder)
    (fieldsArrayLen headerLen bodyLen : ℕ) (str : DBusString) (start len : ℕ) :
    Alloc Stop DBusHeader := do
  lift (assert (start = alignUp start 8))
  lift (assert (headerLen ≤ len))
  lift (assert (header.data.length = 0))
  let data ← allocCopyLen str start headerLen header.data 0
  let leftover ← allocLeftover mode byteOrder headerLen bodyLen str start len
  lift (headerLoadRest header mode byteOrder fieldsArrayLen headerLen bodyLen str start len data
    leftover)

/-! ## The loader -/

/-- `DBUS_MINIMUM_HEADER_SIZE` -/
def minimumHeaderSize : ℕ := 16

/-- `DBusMessageLoader`: it is corrupted exactly if there is a reason, and the maximum
    message size is one the protocol allows. -/
structure DBusMessageLoader where
  data : List UInt8
  messages : List DBusMessage
  corrupted : Bool
  corruptionReason : DBusValidity
  maxMessageSize : ℕ
  consistent : corrupted = true ↔ corruptionReason ≠ .valid
  max_le : maxMessageSize ≤ maximumMessageLength

namespace DBusMessageLoader

/-- `_dbus_message_loader_new` -/
def new : DBusMessageLoader :=
  ⟨[], [], false, .valid, maximumMessageLength, by decide, le_refl _⟩

section
variable (l : DBusMessageLoader)

/-- `_dbus_message_loader_set_max_message_size` -/
def setMaxMessageSize (size : ℕ) : DBusMessageLoader :=
  { l with maxMessageSize := min size maximumMessageLength, max_le := Nat.min_le_right .. }

/-- Bytes are appended to the buffer, between `_dbus_message_loader_get_buffer` and
    `_dbus_message_loader_return_buffer`. -/
def fill (bytes : List UInt8) : DBusMessageLoader :=
  { l with data := l.data ++ bytes }

/-- The loader is corrupted, for the reason `v`. -/
def corrupt (v : DBusValidity) (hv : v ≠ .valid) : DBusMessageLoader :=
  { l with corrupted := true, corruptionReason := v, consistent := iff_of_true rfl hv }

/-- `_dbus_list_append` on the queue -/
def append (msg : DBusMessage) : DBusMessageLoader :=
  { l with messages := l.messages ++ [msg] }

/-- `_dbus_list_remove_last` on the queue, for the message that was appended last -/
def removeLast : DBusMessageLoader := { l with messages := l.messages.dropLast }

@[simp] theorem data_append (msg : DBusMessage) : (l.append msg).data = l.data := rfl

@[simp] theorem removeLast_append (msg : DBusMessage) : (l.append msg).removeLast = l := by
  simp [append, removeLast]

/-- The first `n` bytes of the buffer have become the message `msg`. -/
def take (msg : DBusMessage) (n : ℕ) : DBusMessageLoader :=
  { l with data := l.data.drop n, messages := l.messages ++ [msg] }

end

end DBusMessageLoader

section
variable (native : ByteOrder)

section
variable (l : DBusMessageLoader) (p : Peek) (str : DBusString) (message : DBusMessage)
  (header : DBusHeader)

/-- The end of `load_message`: the message gets its place in the queue and then its body,
    and leaves the queue again where there is no memory for the body. -/
def queueMessage : Alloc Stop (Bool × DBusMessageLoader) := do
  let message := { message with header := header, byteOrder := p.byteOrder }
  let link ← ifMemory (allocate .oom)
  if link = none then return (false, l)
  else do
    let l := l.append message
    lift (assert (message.body.length = 0))
    lift (assert (p.headerLen + p.bodyLen ≤ l.data.length))
    match ← ifMemory (allocCopyLen str p.headerLen p.bodyLen message.body 0) with
    | none => return (false, l.removeLast)
    | some body => do
      lift (assert (header.data.length = p.headerLen))
      lift (assert (body.length = p.bodyLen))
      -- the queue holds the message itself, not a copy from before it had its body
      return (true, l.removeLast.take { message with body := body } (p.headerLen + p.bodyLen))

/-- `load_message`, from the loaded header on. -/
def loadBody : Alloc Stop (Bool × DBusMessageLoader) := do
  let (typeStr, typePos, header) ← lift header.getConstSignature
  let validity ← allocBodyWithReason typeStr typePos p.byteOrder str p.headerLen p.bodyLen
  if hv : validity ≠ .valid then return (false, l.corrupt validity hv)
  else queueMessage l p str message header

end

/-- `load_message`: whether the message is loaded, and the loader. -/
def loadMessage (behind : Behind) (l : DBusMessageLoader) (p : Peek) :
    Alloc Stop (Bool × DBusMessageLoader) := do
  let str := .allocated l.data behind
  let message := DBusMessage.newEmptyHeader native
  lift (assert (message.header.data.length = 0))
  lift (assert (p.headerLen + p.bodyLen ≤ l.data.length))
  match ← attempt (allocHeaderLoad message.header .dataIsUntrusted p.byteOrder p.fieldsArrayLen
    p.headerLen p.bodyLen str 0 l.data.length) with
  | .error (.invalid v hv) =>
    if v = .validityUnknownOomError then return (false, l) else return (false, l.corrupt v hv)
  | .error .noMemory => return (false, l)
  | .error st => lift (.error st)
  | .ok header => loadBody l p str message header

/-- One round of the loop of `_dbus_message_loader_queue_messages` where all of a message has
    arrived; the rounds that follow it are `next`. -/
def queueOne (behind : Behind)
    (next : DBusMessageLoader → Alloc Stop (Bool × DBusMessageLoader)) (l : DBusMessageLoader)
    (p : Peek) : Alloc Stop (Bool × DBusMessageLoader) := do
  let message ← ifMemory (allocate .oom)
  if message = none then return (false, l)
  else do
    let (loaded, l) ← loadMessage native behind l p
    if loaded then next l else return (l.corrupted, l)

/-- The loop of `_dbus_message_loader_queue_messages`. -/
def queueLoop (behind : List UInt8 → Behind) :
    ℕ → DBusMessageLoader → Alloc Stop (Bool × DBusMessageLoader)
  | 0, _ => lift (.error .fuel)
  | n + 1, l =>
    if l.corrupted = false ∧ minimumHeaderSize ≤ l.data.length then do
      match headerHaveMessageUntrusted l.maxMessageSize (.allocated l.data (behind l.data)) 0
        l.data.length with
      | .error (.invalid v hv) => return (true, l.corrupt v hv)
      | .error st => lift (.error st)
      | .ok p =>
        if p.complete then queueOne native (behind l.data) (queueLoop behind n) l p
        else return (true, l)
    else return (true, l)

/-- `_dbus_message_loader_queue_messages`: what it returns, and the loader. -/
def queueMessages (behind : List UInt8 → Behind) (l : DBusMessageLoader) :
    Alloc Stop (Bool × DBusMessageLoader) :=
  queueLoop native behind (l.data.length + 1) l

/-- The bytes of a read, and what is in memory behind the buffer when they are looked at. -/
structure Read where
  bytes : List UInt8
  behind : List UInt8 → Behind

/-- Bytes are read and their messages queued, with memory for all of it. -/
def DBusMessageLoader.read (l : DBusMessageLoader) (r : Read) : Res DBusMessageLoader := do
  let (_, l) ← (queueMessages native r.behind (l.fill r.bytes) .plenty).1
  return l

def loadStream (size : ℕ) (reads : List Read) : Res DBusMessageLoader :=
  reads.foldlM (DBusMessageLoader.read native) (DBusMessageLoader.new.setMaxMessageSize size)

end

end DBus
