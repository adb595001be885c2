/-
  `DBusTypeWriter` (`dbus-marshal-recursive.c`).

  A writer is a cursor into two strings that it shares with its sub-writers: one for type
  codes and one for values.  Inside an array or a variant the types are known in advance;
  `typePosIsExpectation` says that the writer checks type codes against them.
-/
import DBus.Buffer

namespace DBus

open Outcome Memory Align Endian

/-- The strings that the writers of a message share. -/
structure Buffers where
  types : List UInt8
  values : List UInt8
deriving DecidableEq, Repr

/-- The string that `type_str` of a writer points to. -/
inductive TypeStr where
  | null
  | types
  | values
deriving DecidableEq, Repr

/-- `DBusTypeWriter`; `lenPos` is `none` where the source has `-1`. -/
structure TypeWriter where
  byteOrder : ByteOrder
  typeStr : TypeStr
  typePos : ℕ
  valuePos : ℕ
  containerType : TypeCode
  typePosIsExpectation : Bool
  enabled : Bool
  lenPos : Option ℕ
  startPos : ℕ
  elementTypePos : ℕ
deriving DecidableEq, Repr

def Buffers.text (b : Buffers) : TypeStr → DBusString
  | .null => .null
  | .types => .ofBytes b.types
  | .values => .ofBytes b.values

/-- A call whose failure for lack of memory the source takes to be impossible
    because the space was allocated before. -/
def preallocated {α : Type} : Res α → Res α
  | .error .noMemory => .error .assertion
  | x => x

/-- A call that is made only if `c` holds. -/
def callIf (c : Prop) [Decidable c] (x : Res Unit) : Res Unit := if c then x else .ok ()

namespace TypeWriter

section
variable (o : ByteOrder) (typeStr : TypeStr) (typePos valuePos : ℕ)

/-- `_dbus_type_writer_init` -/
def init : TypeWriter :=
  ⟨o, typeStr, typePos, valuePos, .invalid, false, true, none, 0, 0⟩

/-- `_dbus_type_writer_init_values_only` -/
def initValuesOnly : TypeWriter :=
  { init o typeStr typePos valuePos with typePosIsExpectation := true }

end

section
variable (w : TypeWriter)

def insertTypecode (pos : ℕ) (c : UInt8) (b : Buffers) : Res Buffers :=
  match w.typeStr with
  | .null => .error .outside
  | .types => do
    let types ← stringInsertByte b.types pos c
    return { b with types := types }
  | .values => do
    let values ← stringInsertByte b.values pos c
    return { b with values := values }

/-- `_dbus_string_alloc_space` on the type string. -/
def allocTypeSpace (n : ℕ) (b : Buffers) : Res Unit :=
  match w.typeStr with
  | .null => .error .outside
  | .types => stringAllocSpace b.types n
  | .values => stringAllocSpace b.values n

/-- `write_or_verify_typecode` -/
def writeOrVerifyTypecode (typecode : UInt8) (b : Buffers) : Res (TypeWriter × Buffers) :=
  if w.typeStr = .null then .ok (w, b)
  else if w.typePosIsExpectation then do
    let expected ← (b.text w.typeStr).getByte w.typePos
    assert (expected = typecode)
    -- the type of the elements of an array does not change
    if w.containerType ≠ .array then return ({ w with typePos := w.typePos + 1 }, b)
    else return (w, b)
  else do
    let b ← w.insertTypecode w.typePos typecode b
    return ({ w with typePos := w.typePos + 1 }, b)

section
variable (t : TypeCode) (value : BasicArg) (b : Buffers)

/-- `_dbus_type_writer_write_basic_no_typecode` -/
def writeBasicNoTypecode : Res (TypeWriter × Buffers) :=
  if w.enabled then do
    let (values, pos) ← marshalWriteBasic b.values w.valuePos t value w.byteOrder
    return ({ w with valuePos := pos }, { b with values := values })
  else .ok (w, b)

/-- `_dbus_type_writer_write_basic` -/
def writeBasic : Res (TypeWriter × Buffers) := do
  callIf (w.typePosIsExpectation = false ∧ w.typeStr ≠ .null) (w.allocTypeSpace 1 b)
  let (w, b) ← w.writeBasicNoTypecode t value b
  preallocated (w.writeOrVerifyTypecode t.toByte b)

end

end

/-! ## Recursing into a container -/

section
variable (w : TypeWriter) (containerType : TypeCode)

/-- A sub-writer for a container, before anything is written for it. -/
def subInit : TypeWriter :=
  { init w.byteOrder w.typeStr w.typePos w.valuePos with
    containerType := containerType
    typePosIsExpectation :=
      w.typePosIsExpectation || containerType == .array || containerType == .variant
    enabled := w.enabled }

/-- `writer_recurse_init_and_check` -/
def recurseInitAndCheck (b : Buffers) : Res TypeWriter :=
  if w.typePosIsExpectation = true ∧ w.typeStr ≠ .null then do
    let expected ← firstTypeInSignature (b.text w.typeStr) w.typePos
    assert (expected = containerType)
    return w.subInit containerType
  else return w.subInit containerType

end

/-- `writer_recurse_struct_or_dict_entry` -/
def recurseStruct (w sub : TypeWriter) (beginChar : UInt8) (b : Buffers) :
    Res (TypeWriter × Buffers) := do
  callIf (w.enabled = true) (stringAllocSpace b.values 8)
  let (sub, b) ← preallocated (sub.writeOrVerifyTypecode beginChar b)
  if w.enabled then do
    let values ← preallocated
      (stringInsertBytes b.values sub.valuePos (alignUp sub.valuePos 8 - sub.valuePos) 0)
    return ({ sub with valuePos := alignUp sub.valuePos 8 }, { b with values := values })
  else return (sub, b)

/-- `_dbus_string_equal_substring` on the bytes that the caller compares. -/
def equalSubstring (s : DBusString) (start len : ℕ) (s' : DBusString) (start' : ℕ) : Res Bool := do
  assert (start ≤ s.len)
  assert (len ≤ s.len - start)
  assert (start' ≤ s'.len)
  if len > s'.len - start' then return false
  else do
    let xs ← valueOr .outside (readN s.str start len)
    let ys ← valueOr .outside (readN s'.str start' len)
    return xs == ys

/-- The check of `writer_recurse_array` that the elements of an array of arrays
    have its element type. -/
def checkElementType (w : TypeWriter) (contained : DBusString) (start len : ℕ) (b : Buffers) :
    Res Unit :=
  if w.containerType = .array ∧ w.typeStr ≠ .null then do
    let same ← equalSubstring contained start len (b.text w.typeStr) (w.elementTypePos + 1)
    assert (same = true)
  else .ok ()

/-- The type codes of an array, written by `writer_recurse_array` unless they are expected. -/
def writeArrayType (w sub : TypeWriter) (contained : DBusString) (start len : ℕ) (b : Buffers) :
    Res Buffers :=
  if w.typePosIsExpectation = false then do
    w.allocTypeSpace (1 + len) b
    let b ← preallocated (w.insertTypecode w.typePos (TypeCode.toByte .array) b)
    preallocated (match sub.typeStr with
      | .null => .error .outside
      | .types => do
        let types ← stringCopyLen contained start len b.types sub.elementTypePos
        return { b with types := types }
      | .values => do
        let values ← stringCopyLen contained start len b.values sub.elementTypePos
        return { b with values := values })
  else .ok b

/-- The parent of an array moves behind its type, unless it is an array itself. -/
def skipArrayType (w : TypeWriter) (len : ℕ) : Res TypeWriter :=
  if w.typeStr = .null then .ok w
  else if w.containerType ≠ .array then .ok { w with typePos := w.typePos + (1 + len) }
  else do
    assert (w.typePosIsExpectation = true)
    return w

section
variable (sub : TypeWriter)

/-- The length of a new array, or the position behind that of an array to append to. -/
def writeArrayLen (isArrayAppend : Bool) (b : Buffers) : Res (TypeWriter × Buffers) :=
  if isArrayAppend then .ok ({ sub with valuePos := sub.valuePos + 4 }, b)
  else preallocated (sub.writeBasicNoTypecode (.basic (.fixed .uint32)) (.num 0) b)

/-- The padding before the elements of a new array. -/
def padArray (alignment : ℕ) (isArrayAppend : Bool) (b : Buffers) : Res (TypeWriter × Buffers) :=
  let aligned := alignUp sub.valuePos alignment
  if aligned ≠ sub.valuePos then
    if isArrayAppend then .ok ({ sub with valuePos := aligned }, b)
    else do
      let values ← preallocated
        (stringInsertBytes b.values sub.valuePos (aligned - sub.valuePos) 0)
      return ({ sub with valuePos := aligned }, { b with values := values })
  else .ok (sub, b)

/-- The position behind the elements of an array to append to. -/
def skipElements (lenPos : ℕ) (b : Buffers) : Res TypeWriter := do
  assert (alignUp lenPos 4 = lenPos)
  (DBusString.ofBytes b.values).getConstDataLen lenPos 4
  let len ← unpackUint32 sub.byteOrder (DBusString.ofBytes b.values).str lenPos
  return { sub with valuePos := sub.valuePos + len }

/-- The values of an array up to its first new element. -/
def startArray (contained : DBusString) (start : ℕ) (isArrayAppend : Bool) (b : Buffers) :
    Res (TypeWriter × Buffers) := do
  let lenPos := alignUp sub.valuePos 4
  let (sub, b) ← sub.writeArrayLen isArrayAppend b
  assert (lenPos + 4 = sub.valuePos)
  let alignment ← elementTypeGetAlignment contained start
  let (sub, b) ← sub.padArray alignment isArrayAppend b
  let sub := { sub with lenPos := some lenPos, startPos := sub.valuePos }
  assert (lenPos < sub.startPos)
  if isArrayAppend then do
    let sub ← sub.skipElements lenPos b
    return (sub, b)
  else return (sub, b)

end

/-- `writer_recurse_array`: the parent, the sub-writer and the strings. -/
def recurseArray (w sub : TypeWriter) (contained : DBusString) (start len : ℕ)
    (isArrayAppend : Bool) (b : Buffers) : Res (TypeWriter × TypeWriter × Buffers) := do
  w.checkElementType contained start len b
  callIf (w.enabled = true ∧ isArrayAppend = false) (stringAllocSpace b.values (3 + 4 + 4))
  let sub := if w.typeStr ≠ .null then
    { sub with typePos := sub.typePos + 1, elementTypePos := sub.typePos + 1 } else sub
  let b ← w.writeArrayType sub contained start len b
  let w ← w.skipArrayType len
  if w.enabled then do
    let (sub, b) ← sub.startArray contained start isArrayAppend b
    return (w, sub, b)
  else return (w, { sub with lenPos := none, startPos := sub.valuePos }, b)

/-- What `writer_recurse_variant` writes before the value: the length of the
    signature, its text, a NUL and padding.  The position is behind them. -/
def writeVariantSignature (values : List UInt8) (pos : ℕ) (contained : DBusString)
    (start len : ℕ) : Res (List UInt8 × ℕ) := do
  let values ← preallocated (stringInsertByte values pos (UInt8.ofNat len))
  let pos := pos + 1
  let values ← preallocated (stringCopyLen contained start len values pos)
  let pos := pos + len
  let values ← preallocated (stringInsertByte values pos (TypeCode.toByte .invalid))
  let pos := pos + 1
  let t ← firstTypeInSignature contained start
  let alignment ← t.getAlignment
  let values ← preallocated (stringInsertBytes values pos (alignUp pos alignment - pos) 0)
  return (values, alignUp pos alignment)

/-- `writer_recurse_variant`: the parent, the sub-writer and the strings. -/
def recurseVariant (w sub : TypeWriter) (contained : DBusString) (start len : ℕ) (b : Buffers) :
    Res (TypeWriter × TypeWriter × Buffers) := do
  callIf (w.enabled = true) (stringAllocSpace b.values (len + 9))
  let (w, b) ← w.writeOrVerifyTypecode (TypeCode.toByte .variant) b
  if w.enabled then do
    let (values, pos) ← writeVariantSignature b.values sub.valuePos contained start len
    return (w, { sub with
      typeStr := .values
      typePos := sub.valuePos + 1
      valuePos := pos }, { b with values := values })
  else return (w, { sub with typeStr := .null, typePos := 0 }, b)

/-- `_dbus_type_writer_recurse_contained_len`: the parent, the sub-writer and the strings. -/
def recurseContainedLen (w : TypeWriter) (containerType : TypeCode)
    (contained : Option (DBusString × ℕ)) (len : ℕ) (isArrayAppend : Bool) (b : Buffers) :
    Res (TypeWriter × TypeWriter × Buffers) := do
  let sub ← w.recurseInitAndCheck containerType b
  let (type, start) := contained.getD (.null, 0)
  match containerType with
  | .struct k => do
    let (sub, b) ← w.recurseStruct sub (TypeCode.toByte (.beginChar k)) b
    return (w, sub, b)
  | .array => w.recurseArray sub type start len isArrayAppend b
  | .variant => w.recurseVariant sub type start len b
  | _ => .error .assertion

/-- `find_len_of_complete_type`, or zero where there is no type. -/
def containedLen : Option (DBusString × ℕ) → Res ℕ
  | none => .ok 0
  | some (type, start) => do
    let typeEnd ← typeSignatureNext type start
    return typeEnd - start

/-- `_dbus_type_writer_recurse` -/
def recurse (w : TypeWriter) (containerType : TypeCode) (contained : Option (DBusString × ℕ))
    (b : Buffers) : Res (TypeWriter × TypeWriter × Buffers) := do
  let len ← containedLen contained
  w.recurseContainedLen containerType contained len false b

/-- `_dbus_type_writer_append_array` -/
def appendArray (w : TypeWriter) (contained : Option (DBusString × ℕ)) (b : Buffers) :
    Res (TypeWriter × TypeWriter × Buffers) := do
  let len ← containedLen contained
  w.recurseContainedLen .array contained len true b

/-! ## Closing a container -/

/-- What `_dbus_type_writer_unrecurse` writes for the container of `sub`. -/
def closeContainer (sub : TypeWriter) (b : Buffers) : Res (TypeWriter × Buffers) :=
  match sub.containerType, sub.lenPos with
  | .struct k, _ => sub.writeOrVerifyTypecode (TypeCode.toByte (.endChar k)) b
  | .array, some lenPos => do
    let values ← marshalSetUint32 b.values lenPos (sub.valuePos - sub.startPos) sub.byteOrder
    return (sub, { b with values := values })
  | _, _ => .ok (sub, b)

/-- Whether a container advances the type position of its parent when it is closed. -/
def advancesParent (w sub : TypeWriter) : Bool :=
  match sub.containerType, w.containerType with
  | .struct _, .struct _ => true
  | .struct _, .invalid => true
  | _, _ => false

/-- `_dbus_type_writer_unrecurse` -/
def unrecurse (w sub : TypeWriter) (b : Buffers) : Res (TypeWriter × Buffers) := do
  assert (w.typePosIsExpectation = false ∨
    (w.typePosIsExpectation = true ∧ sub.typePosIsExpectation = true))
  let (sub, b) ← sub.closeContainer b
  let typePos := if w.typeStr ≠ .null ∧ w.advancesParent sub = true then sub.typePos else w.typePos
  return ({ w with typePos := typePos, valuePos := sub.valuePos }, b)

end TypeWriter

/-! ## Writing values -/

mutual
/-- Write a value tree: a basic value by one call, a container by recursing into
    it, writing what is in it and unrecursing. -/
def writeValue : Value → TypeWriter → Buffers → Res (TypeWriter × Buffers)
  | .fixed f n, w, b => w.writeBasic (.basic (.fixed f)) (.num n) b
  | .str s bs, w, b => w.writeBasic (.basic (.str s)) (.str bs) b
  | .variant v, w, b => do
    let (w, sub, b) ← w.recurse .variant (some (.ofBytes v.ty.sig, 0)) b
    let (sub, b) ← writeValue v sub b
    w.unrecurse sub b
  | .array e vs, w, b => do
    let (w, sub, b) ← w.recurse .array (some (.ofBytes e.sig, 0)) b
    let (sub, b) ← writeValues vs sub b
    w.unrecurse sub b
  | .struct k vs, w, b => do
    let (w, sub, b) ← w.recurse (.struct k) none b
    let (sub, b) ← writeValues vs sub b
    w.unrecurse sub b
def writeValues : List Value → TypeWriter → Buffers → Res (TypeWriter × Buffers)
  | [], w, b => .ok (w, b)
  | v :: vs, w, b => do
    let (w, b) ← writeValue v w b
    writeValues vs w b
end

end DBus
