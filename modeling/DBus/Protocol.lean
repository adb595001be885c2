/-
  Type codes, limits and validity codes (`dbus-protocol.h`,
  `dbus-marshal-validate.h`, `dbus-signature.c`, `dbus-marshal-basic.c`).

  A byte of a signature is classified once (`TypeCode.ofByte`).  `Stop` lists the ways a run
  can end without a result.
-/
import DBus.Lib.Outcome
import Mathlib.Data.List.Basic

namespace DBus

open Outcome

/-! ## Limits -/

/-- `DBUS_MAXIMUM_SIGNATURE_LENGTH` -/
def maximumSignatureLength : ℕ := 255

/-- `DBUS_MAXIMUM_TYPE_RECURSION_DEPTH` -/
def maximumTypeRecursionDepth : ℕ := 32

/-- `DBUS_MAXIMUM_ARRAY_LENGTH` -/
def maximumArrayLength : ℕ := 67108864

/-- `DBUS_MAXIMUM_MESSAGE_LENGTH` -/
def maximumMessageLength : ℕ := maximumArrayLength * 2

/-! ## Type codes -/

/-- The basic types whose values always have the same size. -/
inductive FixedType where
  | byte
  | boolean
  | int16
  | uint16
  | int32
  | uint32
  | int64
  | uint64
  | double
deriving DecidableEq, Repr

/-- The basic types whose values are strings. -/
inductive StringType where
  | string
  | objectPath
  | signature
deriving DecidableEq, Repr

/-- A type given by a single type code, with no nested values. -/
inductive BasicType where
  | fixed (f : FixedType)
  | str (s : StringType)
deriving DecidableEq, Repr

/-- The two bracketed containers. -/
inductive StructKind where
  | struct
  | dictEntry
deriving DecidableEq, Repr

/-- A byte of a signature, or the type code a reader reports.  `struct k` are
    the codes `r` and `e`, which name the containers and do not occur in
    signatures; `beginChar k` and `endChar k` are their brackets. -/
inductive TypeCode where
  | invalid
  | basic (b : BasicType)
  | variant
  | array
  | struct (k : StructKind)
  | beginChar (k : StructKind)
  | endChar (k : StructKind)
  | unknown (c : UInt8)
deriving DecidableEq, Repr

def TypeCode.ofByte (c : UInt8) : TypeCode :=
  match c with
  | 0 => .invalid
  | 121 => .basic (.fixed .byte)
  | 98 => .basic (.fixed .boolean)
  | 110 => .basic (.fixed .int16)
  | 113 => .basic (.fixed .uint16)
  | 105 => .basic (.fixed .int32)
  | 117 => .basic (.fixed .uint32)
  | 120 => .basic (.fixed .int64)
  | 116 => .basic (.fixed .uint64)
  | 100 => .basic (.fixed .double)
  | 115 => .basic (.str .string)
  | 111 => .basic (.str .objectPath)
  | 103 => .basic (.str .signature)
  | 118 => .variant
  | 97 => .array
  | 114 => .struct .struct
  | 101 => .struct .dictEntry
  | 40 => .beginChar .struct
  | 123 => .beginChar .dictEntry
  | 41 => .endChar .struct
  | 125 => .endChar .dictEntry
  | c => .unknown c

def FixedType.char : FixedType → Char
  | .byte => 'y'
  | .boolean => 'b'
  | .int16 => 'n'
  | .uint16 => 'q'
  | .int32 => 'i'
  | .uint32 => 'u'
  | .int64 => 'x'
  | .uint64 => 't'
  | .double => 'd'

def StringType.char : StringType → Char
  | .string => 's'
  | .objectPath => 'o'
  | .signature => 'g'

def BasicType.char : BasicType → Char
  | .fixed f => f.char
  | .str s => s.char

def StructKind.beginChar : StructKind → Char
  | .struct => '('
  | .dictEntry => '\x7b'

def StructKind.endChar : StructKind → Char
  | .struct => ')'
  | .dictEntry => '\x7d'

def TypeCode.toByte : TypeCode → UInt8
  | .invalid => 0
  | .basic b => b.char.toUInt8
  | .variant => 'v'.toUInt8
  | .array => 'a'.toUInt8
  | .struct .struct => 'r'.toUInt8
  | .struct .dictEntry => 'e'.toUInt8
  | .beginChar k => k.beginChar.toUInt8
  | .endChar k => k.endChar.toUInt8
  | .unknown c => c

@[simp] theorem TypeCode.toByte_ofByte (c : UInt8) : (ofByte c).toByte = c := by
  unfold ofByte; split <;> rfl

@[simp] theorem TypeCode.ofByte_basic (b : BasicType) : ofByte (toByte (.basic b)) = .basic b := by
  rcases b with f | s
  · cases f <;> rfl
  · cases s <;> rfl

@[simp] theorem TypeCode.ofByte_variant : ofByte (toByte .variant) = .variant := rfl

@[simp] theorem TypeCode.ofByte_array : ofByte (toByte .array) = .array := rfl

@[simp] theorem TypeCode.ofByte_invalid : ofByte (toByte .invalid) = .invalid := rfl

@[simp] theorem TypeCode.ofByte_beginChar (k : StructKind) :
    ofByte (toByte (.beginChar k)) = .beginChar k := by
  cases k <;> rfl

@[simp] theorem TypeCode.ofByte_endChar (k : StructKind) :
    ofByte (toByte (.endChar k)) = .endChar k := by
  cases k <;> rfl

theorem TypeCode.eq_toByte {c : UInt8} {t : TypeCode} (h : ofByte c = t) : c = t.toByte := by
  rw [← h, toByte_ofByte]

/-! ## Predicates on type codes -/

/-- `_dbus_type_is_valid` -/
def TypeCode.isValid : TypeCode → Bool
  | .basic _ | .variant | .array | .struct _ => true
  | _ => false

/-- `TYPE_IS_CONTAINER` -/
def TypeCode.isContainer : TypeCode → Bool
  | .variant | .array | .struct _ => true
  | _ => false

/-- `dbus_type_is_basic` -/
def TypeCode.isBasic (t : TypeCode) : Bool :=
  if t.isValid || t == .invalid then !(t == .invalid || t.isContainer) else false

/-- `dbus_type_is_fixed`: the fixed-size type, if it is one. -/
def TypeCode.fixed? : TypeCode → Option FixedType
  | .basic (.fixed f) => some f
  | _ => none

/-- The size of a fixed-size value; it is also its alignment. -/
def FixedType.size : FixedType → ℕ
  | .byte => 1
  | .int16 | .uint16 => 2
  | .boolean | .int32 | .uint32 => 4
  | .int64 | .uint64 | .double => 8

theorem FixedType.size_pos (f : FixedType) : 0 < f.size := by cases f <;> decide

theorem FixedType.size_dvd_eight (f : FixedType) : f.size ∣ 8 := by cases f <;> decide

/-- The alignment of a string type: its length word, or one byte for a
    signature, whose length is a byte. -/
def StringType.alignment : StringType → ℕ
  | .string | .objectPath => 4
  | .signature => 1

def BasicType.alignment : BasicType → ℕ
  | .fixed f => f.size
  | .str s => s.alignment

theorem BasicType.alignment_dvd_eight (b : BasicType) : b.alignment ∣ 8 := by
  rcases b with f | s
  · exact f.size_dvd_eight
  · cases s <;> decide

/-! ## Results -/

/-- `DBusValidity` -/
inductive DBusValidity where
  | validityUnknownOomError
  | invalidForUnknownReason
  | validButIncomplete
  | validityUnknown
  | valid
  | invalidUnknownTypecode
  | invalidMissingArrayElementType
  | invalidSignatureTooLong
  | invalidExceededMaximumArrayRecursion
  | invalidExceededMaximumStructRecursion
  | invalidStructEndedButNotStarted
  | invalidStructStartedButNotEnded
  | invalidStructHasNoFields
  | invalidAlignmentPaddingNotNul
  | invalidBooleanNotZeroOrOne
  | invalidNotEnoughData
  | invalidTooMuchData
  | invalidBadByteOrder
  | invalidBadProtocolVersion
  | invalidBadMessageType
  | invalidBadSerial
  | invalidInsaneFieldsArrayLength
  | invalidInsaneBodyLength
  | invalidMessageTooLong
  | invalidHeaderFieldCode
  | invalidHeaderFieldHasWrongType
  | invalidUsesLocalInterface
  | invalidUsesLocalPath
  | invalidHeaderFieldAppearsTwice
  | invalidBadDestination
  | invalidBadInterface
  | invalidBadMember
  | invalidBadErrorName
  | invalidBadSender
  | invalidMissingPath
  | invalidMissingInterface
  | invalidMissingMember
  | invalidMissingErrorName
  | invalidMissingReplySerial
  | invalidLengthOutOfBounds
  | invalidArrayLengthExceedsMaximum
  | invalidBadPath
  | invalidSignatureLengthOutOfBounds
  | invalidBadUtf8InString
  | invalidArrayLengthIncorrect
  | invalidVariantSignatureLengthOutOfBounds
  | invalidVariantSignatureBad
  | invalidVariantSignatureEmpty
  | invalidVariantSignatureSpecifiesMultipleValues
  | invalidVariantSignatureMissingNul
  | invalidStringMissingNul
  | invalidSignatureMissingNul
  | invalidExceededMaximumDictEntryRecursion
  | invalidDictEntryEndedButNotStarted
  | invalidDictEntryStartedButNotEnded
  | invalidDictEntryHasNoFields
  | invalidDictEntryHasOnlyOneField
  | invalidDictEntryHasTooManyFields
  | invalidDictEntryNotInsideArray
  | invalidDictKeyMustBeBasicType
deriving DecidableEq, Repr

/-- A code other than `DBUS_VALID`. -/
def DBusValidity.Fails : DBusValidity → Prop
  | .valid => False
  | _ => True

variable {v : DBusValidity} {c : Prop} {u : Unit} {hv : v ≠ .valid}

theorem DBusValidity.Fails.ne_valid (h : v.Fails) : v ≠ .valid := by
  rintro rfl
  exact h

/-- The ways a run ends without a result. -/
inductive Stop where
  /-- an assertion failed -/
  | assertion
  /-- a byte was read or written that the caller did not hand over -/
  | outside
  /-- the model ran out of fuel -/
  | fuel
  /-- an allocation failed -/
  | noMemory
  /-- the function returned this validity code, which is not `DBUS_VALID` -/
  | invalid (v : DBusValidity) (h : v ≠ .valid)
deriving DecidableEq, Repr

/-- A run that reads data ends this way if all memory it may look at is there: an
    assertion failed or the data is invalid, which has not to do with memory. -/
def Stop.Plain : Stop → Prop
  | .assertion => True
  | .invalid v _ => v ≠ .validityUnknownOomError
  | _ => False

/-- The run has rejected what it checks. -/
def Stop.Rejects : Stop → Prop
  | .invalid v _ => v ≠ .validityUnknownOomError
  | _ => False

theorem Stop.Rejects.plain {s : Stop} (h : s.Rejects) : s.Plain := by
  cases s <;> first | exact h | exact h.elim

theorem Stop.Plain.ne_outside {s : Stop} (h : s.Plain) : s ≠ .outside := by
  rintro rfl
  exact h

abbrev Res (α : Type) := Except Stop α

/-- The run returns or ends that way. -/
abbrev Plainly {α : Type} (x : Res α) : Prop := Sat x (fun _ => True) Stop.Plain

/-- The run of `x` returns a value satisfying `Q`, or rejects what it checks. -/
abbrev Vets {α : Type} (x : Res α) (Q : α → Prop) : Prop := Sat x Q Stop.Rejects

/-- `_dbus_assert` -/
def assert (c : Prop) [Decidable c] : Res Unit := ensure c .assertion

/-- An early `return` of the validity code `v`. -/
def reject {α : Type} (v : DBusValidity) (h : v ≠ .valid := by exact DBusValidity.Fails.ne_valid trivial) :
    Res α :=
  .error (.invalid v h)

/-- An early `return` of the validity code `v` unless `c` holds. -/
def require (c : Prop) [Decidable c] (v : DBusValidity)
    (h : v ≠ .valid := by exact DBusValidity.Fails.ne_valid trivial) : Res Unit :=
  ensure c (.invalid v h)

def Res.validity {α : Type} : Res α → Res DBusValidity
  | .ok _ => .ok .valid
  | .error (.invalid v _) => .ok v
  | .error s => .error s

theorem assert_eq_ok [Decidable c] : assert c = .ok u ↔ c := ensure_eq_ok

theorem assert_of [Decidable c] (h : c) : assert c = .ok () := ensure_of h

theorem assert_bind [Decidable c] {α : Type} (h : c) (f : Unit → Res α) : assert c >>= f = f () := by
  rw [assert_of h, ok_bind]

theorem agree_assert [Decidable c] :
    Agree (assert c) (assert c) (fun _ => c) Stop.Plain := agree_ensure trivial

@[simp] theorem assert_true [Decidable True] : assert True = .ok () := assert_of trivial

theorem require_eq_ok [Decidable c] : require c v hv = .ok u ↔ c := ensure_eq_ok

theorem require_of [Decidable c] (h : c) : require c v hv = .ok () := ensure_of h

theorem Res.validity_eq_valid {α : Type} {r : Res α} :
    r.validity = .ok .valid ↔ ∃ a, r = .ok a := by
  rcases r with (_ | _ | _ | _ | ⟨v, hv⟩) | a <;> simp [Res.validity]
  exact hv

/-- `_dbus_type_get_alignment` -/
def TypeCode.getAlignment : TypeCode → Res ℕ
  | .basic b => .ok b.alignment
  | .variant => .ok 1
  | .array => .ok 4
  | .struct _ => .ok 8
  | _ => .error .assertion

end DBus
