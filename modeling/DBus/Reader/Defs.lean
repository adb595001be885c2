/-
  `DBusTypeReader` (`dbus-marshal-recursive.c`) and the reads it makes
  (`dbus-marshal-basic.c`).

  A reader is a cursor over a signature and, unless it is a types-only reader, over the block
  of values the signature describes.  Its class decides how `next` moves and when the reader
  is at its end.
-/
import DBus.String

namespace DBus

open Outcome Memory Align Endian TypeCode

/-- The reader classes; `true` marks the types-only ones. -/
inductive ReaderClass where
  | body (typesOnly : Bool)
  | struct (k : StructKind) (typesOnly : Bool)
  | array (typesOnly : Bool)
  | variant
deriving DecidableEq, Repr

/-- The `types_only` field of a class. -/
def ReaderClass.typesOnly : ReaderClass → Bool
  | .body b => b
  | .struct _ b => b
  | .array b => b
  | .variant => false

/-- `DBusTypeReader`; `startPos` is `u.array.start_pos`. -/
structure TypeReader where
  byteOrder : ByteOrder
  finished : Bool
  arrayLenOffset : ℕ
  typeStr : DBusString
  typePos : ℕ
  valueStr : DBusString
  valuePos : ℕ
  klass : ReaderClass
  startPos : ℕ

/-- The null pointer a types-only reader has for its values. -/
def DBusString.null : DBusString := ⟨fun _ => none, 0⟩

/-! ## Signatures -/

/-- `map_type_char_to_type` -/
def mapTypeCharToType : TypeCode → Res TypeCode
  | .beginChar k => return .struct k
  | .endChar _ => .error .assertion
  | t => return t

/-- `_dbus_first_type_in_signature` -/
def firstTypeInSignature (s : DBusString) (pos : ℕ) : Res TypeCode := do
  let c ← s.getByte pos
  mapTypeCharToType (.ofByte c)

/-- `element_type_get_alignment` -/
def elementTypeGetAlignment (s : DBusString) (pos : ℕ) : Res ℕ := do
  let t ← firstTypeInSignature s pos
  t.getAlignment

/-- The loop of `_dbus_type_signature_next` over array codes. -/
def skipArrayCodes (s : DBusString) : ℕ → ℕ → Res ℕ
  | 0, _ => .error .fuel
  | n + 1, p => do
    let c ← s.deref p
    if ofByte c = .array then skipArrayCodes s n (p + 1) else return p

/-- The loop of `_dbus_type_signature_next` to the bracket that closes a
    container of kind `k`; `depth` containers of that kind are open. -/
def skipBrackets (s : DBusString) (k : StructKind) : ℕ → ℕ → ℕ → Res ℕ
  | 0, _, _ => .error .fuel
  | n + 1, depth, p => do
    let c ← s.deref p
    assert (ofByte c ≠ .invalid)
    let c ← s.deref (p + 1)
    assert (ofByte c ≠ .invalid)
    if ofByte c = .beginChar k then skipBrackets s k n (depth + 1) (p + 1)
    else if ofByte c = .endChar k then
      if depth - 1 = 0 then return p + 2 else skipBrackets s k n (depth - 1) (p + 1)
    else skipBrackets s k n depth (p + 1)

/-- `_dbus_type_signature_next` -/
def typeSignatureNext (s : DBusString) (typePos : ℕ) : Res ℕ := do
  let c ← s.deref typePos
  assert (∀ k ∈ [StructKind.struct, .dictEntry], ofByte c ≠ .endChar k)
  let p ← skipArrayCodes s (s.len + 1) typePos
  let c ← s.deref p
  assert (∀ k ∈ [StructKind.struct, .dictEntry], ofByte c ≠ .endChar k)
  match ofByte c with
  | .beginChar k => skipBrackets s k (s.len + 1) 1 p
  | _ => return p + 1

/-! ## Values -/

/-- What `_dbus_marshal_read_basic` stores: a number, or a pointer to a
    NUL-terminated string inside the block. -/
inductive BasicValue where
  | num (n : ℕ)
  | str (p : ℕ)
deriving DecidableEq, Repr

section
variable (s : DBusString)

/-- `_dbus_marshal_read_basic`: the value and the position behind it. -/
def marshalReadBasic (pos : ℕ) (t : TypeCode) (o : ByteOrder) : Res (BasicValue × ℕ) := do
  assert (t.isBasic = true)
  match t with
  | .basic (.fixed .byte) => do
    let c ← s.getByte pos
    return (.num c.toNat, pos + 1)
  | .basic (.fixed f) => do
    let pos := alignUp pos f.size
    let bs ← valueOr .outside (readN s.str pos f.size)
    return (.num (fromBytes o bs), pos + f.size)
  | .basic (.str .signature) => do
    let len ← s.getByte pos
    return (.str (pos + 1), pos + 1 + len.toNat + 1)
  | .basic (.str _) => do
    let (len, pos) ← marshalReadUint32 s pos o
    return (.str pos, pos + len + 1)
  | _ => .error .assertion

/-- `_dbus_marshal_skip_basic` -/
def marshalSkipBasic (t : TypeCode) (o : ByteOrder) (pos : ℕ) : Res ℕ :=
  match t with
  | .basic (.fixed f) => return alignUp pos f.size + f.size
  | .basic (.str .signature) => do
    let len ← s.getByte pos
    return pos + len.toNat + 2
  | .basic (.str _) => do
    let (len, pos) ← marshalReadUint32 s pos o
    return pos + len + 1
  | _ => .error .assertion

/-- `_dbus_marshal_skip_array` -/
def marshalSkipArray (elementType : TypeCode) (o : ByteOrder) (pos : ℕ) : Res ℕ := do
  let (arrayLen, i) ← marshalReadUint32 s (alignUp pos 4) o
  let alignment ← elementType.getAlignment
  return alignUp i alignment + arrayLen

end

namespace TypeReader

/-- `_dbus_type_reader_init` -/
def init (o : ByteOrder) (typeStr : DBusString) (typePos : ℕ) (valueStr : DBusString)
    (valuePos : ℕ) : TypeReader :=
  ⟨o, false, 0, typeStr, typePos, valueStr, valuePos, .body false, 0⟩

/-- `_dbus_type_reader_init_types_only` -/
def initTypesOnly (typeStr : DBusString) (typePos : ℕ) : TypeReader :=
  ⟨.little, false, 0, typeStr, typePos, .null, 2147483647, .body true, 0⟩

section
variable (r : TypeReader)

/-- `array_reader_get_array_len` -/
def arrayReaderGetArrayLen : Res ℕ := do
  let lenPos := r.startPos - r.arrayLenOffset - 4
  assert (alignUp lenPos 4 = lenPos)
  r.valueStr.getConstDataLen lenPos 4
  let arrayLen ← unpackUint32 r.byteOrder r.valueStr.str lenPos
  assert (r.startPos - lenPos - 4 < 8)
  return arrayLen

/-- `array_reader_check_finished` -/
def arrayReaderCheckFinished : Res Bool := do
  let arrayLen ← r.arrayReaderGetArrayLen
  let endPos := r.startPos + arrayLen
  assert (r.valuePos ≤ endPos)
  assert (r.valuePos ≥ r.startPos)
  return r.valuePos == endPos

/-- The `check_finished` method of a class. -/
def checkFinished : Res Bool :=
  match r.klass with
  | .array false => r.arrayReaderCheckFinished
  | _ => return false

/-- The end of a container or of the block, as `get_current_type` tests it. -/
def atEnd : Res Bool := if r.finished then .ok true else r.checkFinished

/-- `_dbus_type_reader_get_current_type` -/
def getCurrentType : Res TypeCode := do
  let atEnd ← r.atEnd
  let t ← bif atEnd then .ok .invalid else firstTypeInSignature r.typeStr r.typePos
  assert (∀ k ∈ [StructKind.struct, .dictEntry], t ≠ .endChar k ∧ t ≠ .beginChar k)
  return t

/-- `_dbus_type_reader_get_element_type` -/
def getElementType : Res TypeCode := do
  let t ← r.getCurrentType
  assert (t = .array)
  firstTypeInSignature r.typeStr (r.typePos + 1)

/-- `_dbus_type_reader_read_basic` -/
def readBasic : Res BasicValue := do
  assert (r.klass.typesOnly = false)
  let t ← r.getCurrentType
  let (v, _) ← marshalReadBasic r.valueStr r.valuePos t r.byteOrder
  return v

/-- The pointer `_dbus_type_reader_read_fixed_multi` returns. -/
def fixedMultiValue (remainingLen : ℕ) : Res (Option ℕ) :=
  if remainingLen = 0 then .ok none
  else do
    r.valueStr.getConstDataLen r.valuePos remainingLen
    return some r.valuePos

/-- `_dbus_type_reader_read_fixed_multi`: where the elements are (`none` if none
    are left) and how many. -/
def readFixedMulti : Res (Option ℕ × ℕ) := do
  assert (r.klass.typesOnly = false)
  assert (r.klass = .array false)
  let elementType ← firstTypeInSignature r.typeStr r.typePos
  assert (elementType ≠ .invalid)
  assert (elementType.fixed?.isSome = true)
  let alignment ← elementType.getAlignment
  assert (r.valuePos ≥ r.startPos)
  let totalLen ← r.arrayReaderGetArrayLen
  let endPos := r.startPos + totalLen
  -- a negative length fails the assertion of `_dbus_string_get_const_data_len`
  assert (r.valuePos ≤ endPos)
  let remainingLen := endPos - r.valuePos
  assert (remainingLen ≤ totalLen)
  let value ← r.fixedMultiValue remainingLen
  assert (remainingLen % alignment = 0)
  return (value, remainingLen / alignment)

end

/-! ## Recursing into a container -/

section
variable (r : TypeReader) (klass : ReaderClass)

/-- `base_reader_recurse`: a reader of class `klass` at the same place. -/
def baseRecurse : TypeReader :=
  ⟨r.byteOrder, false, 0, r.typeStr, r.typePos, r.valueStr, r.valuePos, klass, 0⟩

/-- `struct_or_dict_entry_types_only_reader_recurse` -/
def structTypesOnlyRecurse : Res TypeReader := do
  let sub := r.baseRecurse klass
  let c ← sub.typeStr.getByte sub.typePos
  assert (ofByte c = .beginChar .struct ∨ ofByte c = .beginChar .dictEntry)
  return { sub with typePos := sub.typePos + 1 }

/-- `struct_or_dict_entry_reader_recurse` -/
def structRecurse : Res TypeReader := do
  let sub ← r.structTypesOnlyRecurse klass
  return { sub with valuePos := alignUp sub.valuePos 8 }

/-- `array_types_only_reader_recurse` -/
def arrayTypesOnlyRecurse : TypeReader :=
  let sub := r.baseRecurse klass
  { sub with typePos := sub.typePos + 1, startPos := 2147483647, arrayLenOffset := 7 }

/-- `array_reader_recurse` -/
def arrayRecurse : Res TypeReader := do
  let sub := r.arrayTypesOnlyRecurse klass
  let lenPos := alignUp sub.valuePos 4
  let alignment ← elementTypeGetAlignment sub.typeStr sub.typePos
  let valuePos := alignUp (lenPos + 4) alignment
  assert (valuePos - (lenPos + 4) < 8)
  return { sub with
    valuePos := valuePos
    startPos := valuePos
    arrayLenOffset := valuePos - (lenPos + 4) }

/-- `variant_reader_recurse` -/
def variantRecurse : Res TypeReader := do
  let sub := r.baseRecurse klass
  let sigLen ← sub.valueStr.getByte sub.valuePos
  let typePos := sub.valuePos + 1
  let t ← firstTypeInSignature sub.valueStr typePos
  let alignment ← t.getAlignment
  return { sub with
    typeStr := sub.valueStr
    typePos := typePos
    valuePos := alignUp (typePos + sigLen.toNat + 1) alignment }

end

/-- `_dbus_type_reader_recurse` -/
def recurse (r : TypeReader) : Res TypeReader := do
  let t ← firstTypeInSignature r.typeStr r.typePos
  match t, r.klass.typesOnly with
  | .struct k, true => r.structTypesOnlyRecurse (.struct k true)
  | .struct k, false => r.structRecurse (.struct k false)
  | .array, true => return r.arrayTypesOnlyRecurse (.array true)
  | .array, false => r.arrayRecurse (.array false)
  | .variant, false => r.variantRecurse .variant
  | _, _ => .error .assertion

/-! ## Moving to the next value -/

/-- `while (_dbus_type_reader_next (&sub)) ;` -/
def skipRest (next : TypeReader → Res (Bool × TypeReader)) : ℕ → TypeReader → Res TypeReader
  | 0, _ => .error .fuel
  | n + 1, sub => do
    let (more, sub) ← next sub
    if more then skipRest next n sub else return sub

/-- Recurse into the container at the reader and skip all of it. -/
def skipContents (next : TypeReader → Res (Bool × TypeReader)) (n : ℕ) (r : TypeReader) :
    Res TypeReader := do
  let sub ← r.recurse
  skipRest next n sub

/-- `base_reader_next` -/
def baseNext (next : TypeReader → Res (Bool × TypeReader)) (n : ℕ) (r : TypeReader)
    (currentType : TypeCode) : Res TypeReader :=
  match currentType, r.klass.typesOnly with
  | .struct _, true => do
    let sub ← skipContents next n r
    return { r with typePos := sub.typePos }
  | .struct _, false => do
    let sub ← skipContents next n r
    return { r with valuePos := sub.valuePos, typePos := sub.typePos }
  | .variant, true => return { r with typePos := r.typePos + 1 }
  | .variant, false => do
    let sub ← skipContents next n r
    return { r with valuePos := sub.valuePos, typePos := r.typePos + 1 }
  | .array, true => do
    let typePos ← typeSignatureNext r.typeStr r.typePos
    return { r with typePos := typePos }
  | .array, false => do
    let elementType ← firstTypeInSignature r.typeStr (r.typePos + 1)
    let valuePos ← marshalSkipArray r.valueStr elementType r.byteOrder r.valuePos
    let typePos ← typeSignatureNext r.typeStr r.typePos
    return { r with valuePos := valuePos, typePos := typePos }
  | _, true => return { r with typePos := r.typePos + 1 }
  | t, false => do
    let valuePos ← marshalSkipBasic r.valueStr t r.byteOrder r.valuePos
    return { r with valuePos := valuePos, typePos := r.typePos + 1 }

/-- `struct_reader_next` and `dict_entry_reader_next`: the bracket that closes
    the container of kind `k` ends the reader. -/
def structNext (k : StructKind) (next : TypeReader → Res (Bool × TypeReader)) (n : ℕ)
    (r : TypeReader) (currentType : TypeCode) : Res TypeReader := do
  let r ← r.baseNext next n currentType
  let c ← r.typeStr.getByte r.typePos
  if ofByte c = .endChar k then
    return { r with typePos := r.typePos + 1, finished := true }
  else return r

section
variable (next : TypeReader → Res (Bool × TypeReader)) (n : ℕ) (r : TypeReader)
  (currentType : TypeCode)

/-- The `switch` of `array_reader_next`: the position behind the element. -/
def skipElement : TypeCode → Res ℕ
  | .struct _ | .variant => do
    let sub ← skipContents next n r
    return sub.valuePos
  | .array => do
    let t ← firstTypeInSignature r.typeStr (r.typePos + 1)
    marshalSkipArray r.valueStr t r.byteOrder r.valuePos
  | _ => marshalSkipBasic r.valueStr currentType r.byteOrder r.valuePos

/-- `array_reader_next` -/
def arrayNext : Res TypeReader := do
  let arrayLen ← r.arrayReaderGetArrayLen
  let endPos := r.startPos + arrayLen
  assert (r.valuePos < endPos)
  assert (r.valuePos ≥ r.startPos)
  let elementType ← firstTypeInSignature r.typeStr r.typePos
  let valuePos ← r.skipElement next n currentType elementType
  assert (valuePos ≤ endPos)
  if valuePos = endPos then do
    let typePos ← typeSignatureNext r.typeStr r.typePos
    return { r with valuePos := valuePos, typePos := typePos }
  else return { r with valuePos := valuePos }

/-- The `next` method of a class. -/
def classNext : Res TypeReader :=
  match r.klass with
  | .body _ | .variant => r.baseNext next n currentType
  | .struct k _ => r.structNext k next n currentType
  | .array true => return { r with finished := true }
  | .array false => r.arrayNext next n currentType

end

/-- `_dbus_type_reader_next` with fuel. -/
def readerNext : ℕ → TypeReader → Res (Bool × TypeReader)
  | 0, _ => .error .fuel
  | n + 1, r => do
    let t ← r.getCurrentType
    if t = .invalid then return (false, r)
    else do
      let r ← r.classNext (readerNext n) n t
      let t ← r.getCurrentType
      return (t != .invalid, r)

/-- `_dbus_type_reader_next` -/
def next (r : TypeReader) : Res (Bool × TypeReader) :=
  readerNext (r.typeStr.len + r.valueStr.len + 1) r

end TypeReader

end DBus
