/-
  Message headers (`dbus-marshal-header.c`): the length peek, loading a header from
  bytes that came over the wire, the cache of field positions and the getters.

  A header is one value of type `yyyyuua(yv)`, padded to a multiple of eight bytes.  A field
  is one of the eight known ones (`HeaderField`), so the assertions that a field code is a
  known one hold by its type.
-/
import DBus.Body.Defs
import DBus.Buffer
import DBus.Names

namespace DBus

open Outcome Memory Align Endian

/-! ## Constants -/

/-- The header fields the library knows. -/
inductive HeaderField where
  | path
  | interface
  | member
  | errorName
  | replySerial
  | destination
  | sender
  | signature
deriving DecidableEq, Repr

/-- The code of a field, `DBUS_HEADER_FIELD_…`. -/
def HeaderField.code : HeaderField → ℕ
  | .path => 1
  | .interface => 2
  | .member => 3
  | .errorName => 4
  | .replySerial => 5
  | .destination => 6
  | .sender => 7
  | .signature => 8

def HeaderField.all : List HeaderField :=
  [.path, .interface, .member, .errorName, .replySerial, .destination, .sender, .signature]

/-- The field with a code; no field has the code `DBUS_HEADER_FIELD_INVALID` or one
    beyond `DBUS_HEADER_FIELD_LAST`. -/
def HeaderField.ofCode (c : ℕ) : Option HeaderField := HeaderField.all.find? (·.code = c)

/-- `EXPECTED_TYPE_OF_FIELD` -/
def HeaderField.expectedType : HeaderField → BasicType
  | .path => .str .objectPath
  | .replySerial => .fixed .uint32
  | .signature => .str .signature
  | _ => .str .string

def asciiBytes (s : String) : List UInt8 := s.toList.map Char.toUInt8

/-- `_dbus_header_signature_str` -/
def headerSignature : List UInt8 := asciiBytes "yyyyuua(yv)"

/-- `_dbus_local_interface_str` -/
def localInterface : List UInt8 := asciiBytes "org.freedesktop.DBus.Local"

/-- `_dbus_local_path_str` -/
def localPath : List UInt8 := asciiBytes "/org/freedesktop/DBus/Local"

/-- `FIELDS_ARRAY_SIGNATURE_OFFSET` -/
def fieldsArraySignatureOffset : ℕ := 6

/-- `BYTE_ORDER_OFFSET` -/
def byteOrderOffset : ℕ := 0

/-- `TYPE_OFFSET` -/
def typeOffset : ℕ := 1

/-- `FLAGS_OFFSET` -/
def flagsOffset : ℕ := 2

/-- `VERSION_OFFSET` -/
def versionOffset : ℕ := 3

/-- `BODY_LENGTH_OFFSET` -/
def bodyLengthOffset : ℕ := 4

/-- `SERIAL_OFFSET` -/
def serialOffset : ℕ := 8

/-- `FIELDS_ARRAY_LENGTH_OFFSET` -/
def fieldsArrayLengthOffset : ℕ := 12

/-- `FIRST_FIELD_OFFSET` -/
def firstFieldOffset : ℕ := 16

/-- `DBUS_MAJOR_PROTOCOL_VERSION` -/
def majorProtocolVersion : ℕ := 1

def orderByte : ByteOrder → UInt8
  | .little => 'l'.toUInt8
  | .big => 'B'.toUInt8

def orderOfByte (c : UInt8) : Option ByteOrder :=
  if c = orderByte .little then some .little
  else if c = orderByte .big then some .big
  else none

/-! ## Headers -/

/-- `value_pos` of a cached field: `_DBUS_HEADER_FIELD_VALUE_UNKNOWN`,
    `_DBUS_HEADER_FIELD_VALUE_NONEXISTENT` or a position. -/
inductive FieldPos where
  | unknown
  | nonexistent
  | at (pos : ℕ)
deriving DecidableEq, Repr

/-- `value_pos >= 0` -/
def FieldPos.isPos : FieldPos → Bool
  | .at _ => true
  | _ => false

/-- `DBusHeader` -/
structure DBusHeader where
  data : List UInt8
  fields : HeaderField → FieldPos
  padding : ℕ
  byteOrder : ByteOrder

namespace DBusHeader

/-- The string `data`. -/
def str (h : DBusHeader) : DBusString := .ofBytes h.data

/-- `_dbus_header_init` -/
def init (o : ByteOrder) : DBusHeader := ⟨[], fun _ => .unknown, 0, o⟩

section
variable (h : DBusHeader)

/-- `_dbus_header_cache_one` -/
def cacheOne (field : HeaderField) (variantReader : TypeReader) : DBusHeader :=
  { h with fields := Function.update h.fields field (.at variantReader.valuePos) }

/-- `_dbus_header_get_message_type` -/
def getMessageType : Res ℕ := do
  let c ← h.str.getByte typeOffset
  assert (c ≠ 0)
  return c.toNat

end

end DBusHeader

def TypeReader.readNumber (r : TypeReader) : Res ℕ := do
  match ← r.readBasic with
  | .num n => return n
  | .str _ => .error .assertion

/-! ## The cache of field positions -/

/-- One iteration of the loop of `_dbus_header_cache_revalidate`. -/
def cacheElement (h : DBusHeader) (array : TypeReader) : Res DBusHeader := do
  let sub ← array.recurse
  let t ← sub.getCurrentType
  assert (t = .basic (.fixed .byte))
  let fieldCode ← sub.readNumber
  if fieldCode > HeaderField.all.length then return h
  else do
    let (_, sub) ← sub.next
    let t ← sub.getCurrentType
    assert (t = .variant)
    let variant ← sub.recurse
    match HeaderField.ofCode fieldCode with
    | none => return h
    | some field => return h.cacheOne field variant

/-- The loop of `_dbus_header_cache_revalidate`. -/
def cacheLoop : ℕ → DBusHeader → TypeReader → Res DBusHeader
  | 0, _, _ => .error .fuel
  | n + 1, h, array => do
    let t ← array.getCurrentType
    if t = .invalid then return h
    else do
      let h ← cacheElement h array
      let (_, array) ← array.next
      cacheLoop n h array

namespace DBusHeader

section
variable (h : DBusHeader)

/-- The reader at the fields array, as `_dbus_header_cache_revalidate` and
    `find_field_for_modification` start it. -/
def fieldsReader : TypeReader :=
  .init h.byteOrder (.ofBytes headerSignature) fieldsArraySignatureOffset h.str
    fieldsArrayLengthOffset

/-- `_dbus_header_cache_revalidate` -/
def cacheRevalidate : Res DBusHeader := do
  let array ← h.fieldsReader.recurse
  cacheLoop (h.data.length + 1) { h with fields := fun _ => .nonexistent } array

section
variable (field : HeaderField)

/-- `_dbus_header_cache_check` -/
def cacheCheck : Res (Bool × DBusHeader) := do
  let h ← if h.fields field = .unknown then h.cacheRevalidate else .ok h
  return (h.fields field != .nonexistent, h)

def cachedPos : Res ℕ :=
  match h.fields field with
  | .at pos => return pos
  | _ => .error .assertion

/-- `_dbus_header_get_field_basic`: the value, if the field exists, and the header with
    its refreshed cache. -/
def getFieldBasic : Res (Option BasicValue × DBusHeader) := do
  let (exists_, h) ← h.cacheCheck field
  if exists_ then do
    let pos ← h.cachedPos field
    let (v, _) ← marshalReadBasic h.str pos (.basic field.expectedType) h.byteOrder
    return (some v, h)
  else return (none, h)

/-- `_dbus_header_get_field_raw`: where the value of the field is in the data, if the
    field exists. -/
def getFieldRaw : Res (Option ℕ × DBusHeader) := do
  let (exists_, h) ← h.cacheCheck field
  if exists_ then do
    let pos ← h.cachedPos field
    return (some pos, h)
  else return (none, h)

end

end

end DBusHeader

/-! ## The length peek -/

/-- What `_dbus_header_have_message_untrusted` finds out about the message at the start
    of a buffer. -/
structure Peek where
  byteOrder : ByteOrder
  fieldsArrayLen : ℕ
  headerLen : ℕ
  bodyLen : ℕ
  /-- the whole message is in the buffer -/
  complete : Bool
deriving DecidableEq, Repr

/-- `_DBUS_INT32_MAX` -/
def int32Max : ℕ := 2147483647

/-- `_dbus_header_have_message_untrusted` -/
def headerHaveMessageUntrusted (maxMessageLength : ℕ) (str : DBusString) (start len : ℕ) :
    Res Peek := do
  assert (start < int32Max / 2)
  assert (start = alignUp start 8)
  let c ← str.getByte (start + byteOrderOffset)
  match orderOfByte c with
  | none => reject .invalidBadByteOrder
  | some byteOrder => do
    assert (fieldsArrayLengthOffset + 4 ≤ len)
    let (fieldsArrayLen, _) ← marshalReadUint32 str (start + fieldsArrayLengthOffset) byteOrder
    require (fieldsArrayLen ≤ maxMessageLength) .invalidInsaneFieldsArrayLength
    assert (bodyLengthOffset + 4 < len)
    let (bodyLen, _) ← marshalReadUint32 str (start + bodyLengthOffset) byteOrder
    require (bodyLen ≤ maxMessageLength) .invalidInsaneBodyLength
    let headerLen := alignUp (firstFieldOffset + fieldsArrayLen) 8
    assert (maxMessageLength < int32Max / 2)
    require (bodyLen + headerLen ≤ maxMessageLength) .invalidMessageTooLong
    assert (bodyLen < int32Max)
    assert (fieldsArrayLen < int32Max)
    assert (headerLen < int32Max)
    return ⟨byteOrder, fieldsArrayLen, headerLen, bodyLen, bodyLen + headerLen ≤ len⟩

/-! ## Loading a header -/

/-- `DBusValidationMode` -/
inductive ValidationMode where
  | weTrustThisDataAbsolutely
  | dataIsUntrusted
deriving DecidableEq, Repr

/-- The types of messages, `DBUS_MESSAGE_TYPE_…`. -/
inductive MessageType where
  | invalid
  | methodCall
  | methodReturn
  | error
  | signal
  | other (n : ℕ)
deriving DecidableEq, Repr

def MessageType.ofNat : ℕ → MessageType
  | 0 => .invalid
  | 1 => .methodCall
  | 2 => .methodReturn
  | 3 => .error
  | 4 => .signal
  | n => .other n

/-- The fields that `check_mandatory_fields` requires, in its order, and what their
    absence is called. -/
def MessageType.requiredFields : MessageType → List (HeaderField × { v : DBusValidity // v ≠ .valid })
  | .signal => [(.interface, ⟨.invalidMissingInterface, nofun⟩),
      (.path, ⟨.invalidMissingPath, nofun⟩), (.member, ⟨.invalidMissingMember, nofun⟩)]
  | .methodCall => [(.path, ⟨.invalidMissingPath, nofun⟩),
      (.member, ⟨.invalidMissingMember, nofun⟩)]
  | .error => [(.errorName, ⟨.invalidMissingErrorName, nofun⟩),
      (.replySerial, ⟨.invalidMissingReplySerial, nofun⟩)]
  | .methodReturn => [(.replySerial, ⟨.invalidMissingReplySerial, nofun⟩)]
  | _ => []

/-- `REQUIRE_FIELD` for each of a list of fields. -/
def requireFields (h : DBusHeader) :
    List (HeaderField × { v : DBusValidity // v ≠ .valid }) → Res Unit
  | [] => return ()
  | (field, v) :: rest => do
    require ((h.fields field).isPos = true) v.1 v.2
    requireFields h rest

/-- `check_mandatory_fields` -/
def checkMandatoryFields (h : DBusHeader) : Res Unit := do
  let t ← h.getMessageType
  requireFields h (MessageType.ofNat t).requiredFields

/-- The loop of `_dbus_string_equal_substring` over the bytes `as` and the string `b`
    from `p` on. -/
def equalLoop (b : DBusString) : List UInt8 → ℕ → Res Bool
  | [], _ => return true
  | a :: as, p => do
    let c ← b.deref p
    if a ≠ c then return false else equalLoop b as (p + 1)

/-- `_dbus_string_equal_substring` on all of a constant string with the bytes `a` -/
def stringEqualSubstring (a : List UInt8) (b : DBusString) (bStart : ℕ) : Res Bool := do
  assert (bStart ≤ b.len)
  if a.length > b.len - bStart then return false else equalLoop b a bStart

/-- The validator of the texts in a field and the code for a bad one. -/
def HeaderField.stringValidationFunc :
    HeaderField → Option ((DBusString → ℕ → ℕ → Res Bool) × { v : DBusValidity // v ≠ .valid })
  | .destination => some (validateBusName, ⟨.invalidBadDestination, nofun⟩)
  | .interface => some (validateInterface, ⟨.invalidBadInterface, nofun⟩)
  | .member => some (validateMember, ⟨.invalidBadMember, nofun⟩)
  | .errorName => some (validateErrorName, ⟨.invalidBadErrorName, nofun⟩)
  | .sender => some (validateBusName, ⟨.invalidBadSender, nofun⟩)
  | _ => none

section
variable (h : DBusHeader) (field : HeaderField)

/-- The `switch` of `load_and_validate_field` on the field: the tests made before the
    text in the field is validated.  The length of a string that is defined by
    `_DBUS_STRING_DEFINE_STATIC` counts its NUL. -/
def checkReserved (number strDataPos : ℕ) : Res Unit :=
  match field with
  | .interface => do
    let eq ← stringEqualSubstring (localInterface ++ [0]) h.str strDataPos
    require (eq = false) .invalidUsesLocalInterface
  | .path => do
    let eq ← stringEqualSubstring (localPath ++ [0]) h.str strDataPos
    require (eq = false) .invalidUsesLocalPath
  | .replySerial => require (number ≠ 0) .invalidBadSerial
  | _ => return ()

/-- `if (string_validation_func)` -/
def checkText (valuePos strDataPos : ℕ) : Res Unit :=
  match field.stringValidationFunc with
  | none => return ()
  | some (validate, bad) => do
    let (len, _) ← marshalReadUint32 h.str valuePos h.byteOrder
    let ok ← validate h.str strDataPos len
    require (ok = true) bad.1 bad.2

/-- What `load_and_validate_field` looks at in a field that it has cached: a number, and
    the positions of the value and of its text. -/
def fieldContent : Res (ℕ × ℕ × ℕ) :=
  match field.expectedType with
  | .fixed _ => do
    match ← h.getFieldBasic field with
    | (some (.num n), _) => return (n, 0, 0)
    | _ => return (0, 0, 0)
  | .str _ => do
    match ← h.getFieldRaw field with
    | (some pos, _) => return (0, pos, alignUp pos 4 + 4)
    | _ => return (0, 0, 0)

/-- `load_and_validate_field` -/
def loadAndValidateField (variantReader : TypeReader) : Res DBusHeader := do
  let t ← variantReader.getCurrentType
  require (t = .basic field.expectedType) .invalidHeaderFieldHasWrongType
  require ((h.fields field).isPos = false) .invalidHeaderFieldAppearsTwice
  let h := h.cacheOne field variantReader
  let (number, valuePos, strDataPos) ← fieldContent h field
  checkReserved h field number strDataPos
  checkText h field valuePos strDataPos
  return h

end

/-- One iteration of the loop of `_dbus_header_load` over the fields. -/
def loadField (h : DBusHeader) (arrayReader : TypeReader) : Res DBusHeader := do
  let t ← arrayReader.getCurrentType
  assert (t = .struct .struct)
  let structReader ← arrayReader.recurse
  let t ← structReader.getCurrentType
  assert (t = .basic (.fixed .byte))
  let fieldCode ← structReader.readNumber
  let (_, structReader) ← structReader.next
  require (fieldCode ≠ 0) .invalidHeaderFieldCode
  match HeaderField.ofCode fieldCode with
  | none => return h
  | some field => do
    let t ← structReader.getCurrentType
    assert (t = .variant)
    let variantReader ← structReader.recurse
    loadAndValidateField h field variantReader

/-- The loop of `_dbus_header_load` over the fields. -/
def loadFields : ℕ → DBusHeader → TypeReader → Res DBusHeader
  | 0, _, _ => .error .fuel
  | n + 1, h, arrayReader => do
    let t ← arrayReader.getCurrentType
    if t = .invalid then return h
    else do
      let h ← loadField h arrayReader
      let (_, arrayReader) ← arrayReader.next
      loadFields n h arrayReader

/-- Read a fixed-size item of the header, which must be at the given offset. -/
def headerItem (f : FixedType) (offset : ℕ) (reader : TypeReader) : Res (ℕ × TypeReader) := do
  let t ← reader.getCurrentType
  assert (t = .basic (.fixed f))
  assert (reader.valuePos = offset)
  let v ← reader.readNumber
  let (_, reader) ← reader.next
  return (v, reader)

/-- The items before the fields, up to the reader at the fields array. -/
def headerItems (byteOrder : ByteOrder) (bodyLen : ℕ) (reader : TypeReader) : Res TypeReader := do
  let (v, reader) ← headerItem .byte byteOrderOffset reader
  assert (v = (orderByte byteOrder).toNat)
  let (v, reader) ← headerItem .byte typeOffset reader
  require (v ≠ 0) .invalidBadMessageType
  let (_, reader) ← headerItem .byte flagsOffset reader
  let (v, reader) ← headerItem .byte versionOffset reader
  require (v = majorProtocolVersion) .invalidBadProtocolVersion
  let (v, reader) ← headerItem .uint32 bodyLengthOffset reader
  assert (bodyLen = v)
  let (serial, reader) ← headerItem .uint32 serialOffset reader
  require (serial ≠ 0) .invalidBadSerial
  let t ← reader.getCurrentType
  assert (t = .array)
  assert (reader.valuePos = fieldsArrayLengthOffset)
  return reader

/-- `_dbus_string_validate_nul` -/
def stringValidateNul (str : DBusString) (start len : ℕ) : Res Bool := do
  assert (start ≤ str.len)
  if len > str.len - start then return false
  else do
    let xs ← valueOr .outside (readN str.str start len)
    return xs.all (· = 0)

/-- What no field was found for is known not to exist. -/
def DBusHeader.completeCache (h : DBusHeader) : DBusHeader :=
  { h with fields := fun f => if h.fields f = .unknown then .nonexistent else h.fields f }

/-- The bytes behind the header, as the body validator finds them or, in data that is
    trusted, as the lengths say. -/
def headerLeftover (mode : ValidationMode) (byteOrder : ByteOrder) (headerLen bodyLen : ℕ)
    (str : DBusString) (start len : ℕ) : Res ℤ :=
  match mode with
  | .weTrustThisDataAbsolutely => return (len : ℤ) - headerLen - bodyLen - start
  | .dataIsUntrusted => do
    let p ← validateBody (.ofBytes headerSignature) 0 byteOrder str start len
    return ((start + len : ℕ) : ℤ) - (p : ℤ)

section
variable (header : DBusHeader) (mode : ValidationMode) (byteOrder : ByteOrder)
  (fieldsArrayLen headerLen bodyLen : ℕ) (str : DBusString) (start len : ℕ)

/-- `_dbus_header_load` once the header is copied and validated. -/
def headerLoadRest (data : List UInt8) (leftover : ℤ) : Res DBusHeader := do
  assert (leftover < len)
  let paddingLen := headerLen - (firstFieldOffset + fieldsArrayLen)
  let paddingStart := start + firstFieldOffset + fieldsArrayLen
  assert (start + headerLen = alignUp paddingStart 8)
  assert (start + headerLen = paddingStart + paddingLen)
  match mode with
  | .weTrustThisDataAbsolutely => return { header with data := data, padding := paddingLen }
  | .dataIsUntrusted => do
    let nul ← stringValidateNul str paddingStart paddingLen
    require (nul = true) .invalidAlignmentPaddingNotNul
    let reader ← headerItems byteOrder bodyLen
      (.init byteOrder (.ofBytes headerSignature) 0 str start)
    let arrayReader ← reader.recurse
    let h ← loadFields (str.len + 1)
      { header with data := data, padding := paddingLen, byteOrder := byteOrder } arrayReader
    let h := h.completeCache
    checkMandatoryFields h
    return h

/-- `_dbus_header_load`: the header it fills in, or the validity code with which it
    returns `FALSE`. -/
def headerLoad : Res DBusHeader := do
  assert (start = alignUp start 8)
  assert (headerLen ≤ len)
  assert (header.data.length = 0)
  let data ← stringCopyLen str start headerLen header.data 0
  let leftover ← headerLeftover mode byteOrder headerLen bodyLen str start len
  headerLoadRest header mode byteOrder fieldsArrayLen headerLen bodyLen str start len data leftover

end

end DBus
