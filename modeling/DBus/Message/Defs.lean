/-
  Messages (`dbus-message.c`).

  A message is its header and its body.  Where the machine's own byte order
  (`DBUS_COMPILER_BYTE_ORDER`) matters it is the parameter `native`.
-/
import DBus.Header.Defs

namespace DBus

open Endian

/-- `DBusMessage` -/
structure DBusMessage where
  header : DBusHeader
  body : List UInt8
  byteOrder : ByteOrder
  locked : Bool

def DBusMessage.bytes (msg : DBusMessage) : List UInt8 := msg.header.data ++ msg.body

/-- `dbus_message_new_empty_header` -/
def DBusMessage.newEmptyHeader (native : ByteOrder) : DBusMessage :=
  ⟨.init native, [], native, false⟩

/-- `get_const_signature`: the string that the signature of the body is in, where it starts,
    and the header with its refreshed cache. -/
def DBusHeader.getConstSignature (h : DBusHeader) : Res (DBusString × ℕ × DBusHeader) := do
  match ← h.getFieldRaw .signature with
  | (some pos, h) => return (h.str, pos + 1, h)
  | (none, h) => return (.ofBytes [], 0, h)

end DBus
