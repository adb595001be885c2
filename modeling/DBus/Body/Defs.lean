/-
  The body validator (`validate_body_helper` and
  `_dbus_validate_body_with_reason` of `dbus-marshal-validate.c`).

  The validator walks a types-only reader over the signature and a pointer `p` over the
  memory `m` up to `e` (the C variable `end`).  The body of its loop is cut into one function
  for each case of its `switch`, and for the containers once more where the validator calls
  itself (`arrayStart`, `variantStart`, `structStart`).
-/
import DBus.Reader.Defs
import DBus.Signature.Validate
import DBus.Text

namespace DBus

open Outcome Align Endian

section
variable (o : ByteOrder) (m : ℕ → Option UInt8) (e : ℕ)

def derefAt (p : ℕ) : Res UInt8 := valueOr .outside (m p)

/-- `while (p != a)`: the `n` bytes from `p` to the boundary are NUL. -/
def skipPadding : ℕ → ℕ → Res Unit
  | 0, _ => return ()
  | n + 1, p => do
    let c ← derefAt m p
    require (c = 0) .invalidAlignmentPaddingNotNul
    skipPadding n (p + 1)

def checkBoolean (p : ℕ) : Res Unit := do
  let v ← unpackUint32 o m p
  require (v = 0 ∨ v = 1) .invalidBooleanNotZeroOrOne

def validateFixed (f : FixedType) (p : ℕ) : Res ℕ :=
  match f with
  | .byte => return p + 1
  | f => do
    let a := alignUp p f.size
    require (a < e) .invalidNotEnoughData
    skipPadding m (a - p) p
    if f = .boolean then checkBoolean o m a else .ok ()
    return a + f.size

/-- The length word of an array or a string: the length it claims, and the position behind it. -/
def claimedLen (p : ℕ) : Res (ℕ × ℕ) := do
  let a := alignUp p 4
  require (a + 4 ≤ e) .invalidNotEnoughData
  skipPadding m (a - p) p
  let len ← unpackUint32 o m a
  assert (a + 4 ≤ e)
  return (len, a + 4)

def validateContents (s : StringType) (str : DBusString) : Res Unit :=
  match s with
  | .objectPath => do
    let ok ← validatePath str 0 str.len
    require (ok = true) .invalidBadPath
  | _ => do
    let ok ← stringValidateUtf8 str 0 str.len
    require (ok = true) .invalidBadUtf8InString

def validateString (s : StringType) (p : ℕ) : Res ℕ := do
  let (len, p) ← claimedLen o m e p
  require (len ≤ e - p) .invalidLengthOutOfBounds
  let str ← DBusString.initConstLen m p len
  validateContents s str
  let p := p + len
  require (p ≠ e) .invalidNotEnoughData
  let c ← derefAt m p
  require (c = 0) .invalidStringMissingNul
  return p + 1

def validateSignatureValue (p : ℕ) : Res ℕ := do
  let len ← derefAt m p
  let p := p + 1
  require (len.toNat + 1 ≤ e - p) .invalidSignatureLengthOutOfBounds
  let str ← DBusString.initConstLen m p len.toNat
  validateSignature str 0 str.len
  let p := p + len.toNat
  assert (p < e)
  let c ← derefAt m p
  require (c = 0) .invalidSignatureMissingNul
  return p + 1

/-- An array up to its elements: the element type, their length in bytes and where they start. -/
def arrayStart (r : TypeReader) (p : ℕ) : Res (TypeCode × ℕ × ℕ) := do
  let (len, p) ← claimedLen o m e p
  let elemType ← r.getElementType
  require (elemType.isValid = true) .invalidUnknownTypecode
  let alignment ← elemType.getAlignment
  let a := alignUp p alignment
  require (a ≤ e) .invalidNotEnoughData
  skipPadding m (a - p) p
  require (len ≤ e - a) .invalidLengthOutOfBounds
  require (len = 0 ∨ len ≤ maximumArrayLength) .invalidArrayLengthExceedsMaximum
  return (elemType, len, a)

/-- The loop over the elements of an array of booleans. -/
def booleansLoop (arrayEnd : ℕ) : ℕ → ℕ → Res ℕ
  | 0, _ => .error .fuel
  | n + 1, p =>
    if p < arrayEnd then do
      checkBoolean o m p
      booleansLoop arrayEnd n (p + FixedType.size .boolean)
    else return p

/-- The loop over the elements of an array, which `elem` validates. -/
def elementsLoop (elem : ℕ → Res ℕ) (arrayEnd : ℕ) : ℕ → ℕ → Res ℕ
  | 0, _ => .error .fuel
  | n + 1, p =>
    if p < arrayEnd then do
      let p ← elem p
      elementsLoop elem arrayEnd n p
    else return p

section
variable (helper : TypeReader → Bool → ℕ → Res ℕ) (n : ℕ) (r : TypeReader)

def validateElements (len a : ℕ) : Res ℕ := do
  let sub ← r.recurse
  let elemType ← r.getElementType
  match elemType.fixed? with
  | some .boolean => booleansLoop o m (a + len) (len + 1) a
  | some _ => return a + len
  | none => elementsLoop (helper sub false) (a + len) n a

def validateArray (p : ℕ) : Res ℕ := do
  let (_, len, a) ← arrayStart o m e r p
  if len > 0 then do
    let p ← validateElements o m helper n r len a
    require (p = a + len) .invalidArrayLengthIncorrect
    return p
  else return a

end

/-- A variant up to its value: its signature and where the value starts. -/
def variantStart (p : ℕ) : Res (DBusString × ℕ) := do
  let len ← derefAt m p
  let p := p + 1
  require (len.toNat + 1 ≤ e - p) .invalidVariantSignatureLengthOutOfBounds
  let sig ← DBusString.initConstLen m p len.toNat
  let reason ← validateSignatureWithReason sig 0 sig.len
  require (reason ≠ .validityUnknownOomError) .validityUnknownOomError
  require (reason = .valid) .invalidVariantSignatureBad
  let p := p + len.toNat
  let c ← derefAt m p
  require (c = 0) .invalidVariantSignatureMissingNul
  let p := p + 1
  let containedType ← firstTypeInSignature sig 0
  require (containedType ≠ .invalid) .invalidVariantSignatureEmpty
  let alignment ← containedType.getAlignment
  let a := alignUp p alignment
  require (a ≤ e) .invalidNotEnoughData
  skipPadding m (a - p) p
  let t ← (TypeReader.initTypesOnly sig 0).getCurrentType
  assert (t ≠ .invalid)
  return (sig, a)

def validateVariant (helper : TypeReader → Bool → ℕ → Res ℕ) (p : ℕ) : Res ℕ := do
  let (sig, a) ← variantStart m e p
  let sub := .initTypesOnly sig 0
  let p ← helper sub false a
  let (more, sub) ← sub.next
  require (more = false) .invalidVariantSignatureSpecifiesMultipleValues
  let t ← sub.getCurrentType
  assert (t = .invalid)
  return p

/-- A struct or dict entry up to its fields: their reader and where they start. -/
def structStart (r : TypeReader) (p : ℕ) : Res (TypeReader × ℕ) := do
  let a := alignUp p 8
  require (a ≤ e) .invalidNotEnoughData
  skipPadding m (a - p) p
  let sub ← r.recurse
  return (sub, a)

section
variable (helper : TypeReader → Bool → ℕ → Res ℕ)

def validateStruct (r : TypeReader) (p : ℕ) : Res ℕ := do
  let (sub, a) ← structStart m e r p
  helper sub true a

/-- The `switch` on the current type: the position behind the value. -/
def validateValue (n : ℕ) (r : TypeReader) (p : ℕ) : TypeCode → Res ℕ
  | .basic (.fixed f) => validateFixed o m e f p
  | .basic (.str .signature) => validateSignatureValue m e p
  | .basic (.str s) => validateString o m e s p
  | .array => validateArray o m e helper n r p
  | .variant => validateVariant m e helper p
  | .struct _ => validateStruct m e helper r p
  | _ => .error .assertion

end

/-- `validate_body_helper` with fuel: the pointer `*new_p`. -/
def validateBodyHelper : ℕ → TypeReader → Bool → ℕ → Res ℕ
  | 0, _, _, _ => .error .fuel
  | n + 1, r, walkReaderToEnd, p => do
    let t ← r.getCurrentType
    if t = .invalid then return p
    else do
      require (p ≠ e) .invalidNotEnoughData
      let p ← validateValue o m e (validateBodyHelper n) n r p t
      require (p ≤ e) .invalidNotEnoughData
      if walkReaderToEnd then do
        let (_, r) ← r.next
        validateBodyHelper n r walkReaderToEnd p
      else return p

end

section
variable (expectedSignature : DBusString) (signatureStart : ℕ) (o : ByteOrder)
  (valueStr : DBusString) (valuePos len : ℕ)

/-- `_dbus_validate_body_with_reason` up to the end of the values it validates.
    The helper gets one step for each byte of the signature and of the values. -/
def validateBody : Res ℕ := do
  assert (valuePos + len ≤ valueStr.len)
  let reader := .initTypesOnly expectedSignature signatureStart
  valueStr.getConstDataLen valuePos len
  validateBodyHelper o valueStr.str (valuePos + len) (expectedSignature.len + len + 1) reader true
    valuePos

/-- `_dbus_validate_body_with_reason` with no place for the leftover bytes. -/
def validateBodyWithReason : Res DBusValidity :=
  Res.validity do
    let p ← validateBody expectedSignature signatureStart o valueStr valuePos len
    require (¬ p < valuePos + len) .invalidTooMuchData
    assert (p = valuePos + len)

end

/-- A `DBusString` can hold `body`, and the body validator returns `DBUS_VALID` for all of it. -/
def BodyAccepted (o : ByteOrder) (sig body : List UInt8) : Prop :=
  body.length ≤ stringMaxMaxLength ∧
    validateBodyWithReason (.ofBytes sig) 0 o (.ofBytes body) 0 body.length = .ok .valid

instance (o : ByteOrder) (sig body : List UInt8) : Decidable (BodyAccepted o sig body) :=
  inferInstanceAs (Decidable (_ ∧ _))

end DBus
