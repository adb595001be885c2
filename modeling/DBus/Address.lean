/-
  Values in addresses: `dbus_address_escape_value` and `dbus_address_unescape_value`
  (`dbus-address.c`).

  A byte that an address may not hold is written as `%` and two digits.  These are looked up
  in a table with the value of a `char`, which is signed: for a byte from 0x80 on the index is
  negative, so that only texts below 0x80 are escaped and read back.
-/
import DBus.Auth.Text
import DBus.Bus.Message

namespace DBus

open Outcome List

/-! ## The functions -/

/-- `_dbus_string_init_const`: a C string ends at its first NUL -/
def stringInitConst (value : List UInt8) : Res (List UInt8) := do
  let bytes := value.takeWhile (· ≠ 0)
  assert (bytes.length ≤ stringMaxMaxLength)
  return bytes

/-- `_dbus_string_append_byte` -/
def stringAppendByte (str : List UInt8) (byte : UInt8) : Res (List UInt8) :=
  if str.length + 1 > stringMaxMaxLength then .error .noMemory else .ok (str ++ [byte])

/-- The table of `_dbus_string_append_byte_as_hex`. -/
def hexdigits : List UInt8 := asciiBytes "0123456789abcdef"

def elementAt (table : List UInt8) (i : Int32) : Res UInt8 :=
  valueOr .outside (if i < 0 then none else table[i.toNatClampNeg]?)

/-- `_dbus_string_append_byte_as_hex` -/
def stringAppendByteAsHex (str : List UInt8) (byte : Int32) : Res (List UInt8) := do
  let high ← elementAt hexdigits (byte >>> 4)
  let str ← stringAppendByte str high
  let low ← elementAt hexdigits (byte &&& 0x0f)
  stringAppendByte str low

/-- `_DBUS_ADDRESS_OPTIONALLY_ESCAPED_BYTE` -/
def addressOptionallyEscapedByte (b : Int32) : Bool :=
  (0x61 ≤ b && b ≤ 0x7a) || (0x41 ≤ b && b ≤ 0x5a) || (0x30 ≤ b && b ≤ 0x39) ||
    b = 0x2d || b = 0x5f || b = 0x2f || b = 0x5c || b = 0x2a || b = 0x2e

/-- The value of a `char`, which is signed. -/
def charValue (b : UInt8) : Int32 := b.toInt8.toInt32

/-- `_dbus_address_append_escaped`: one round of the loop -/
def appendEscapedByte (escaped : List UInt8) (p : UInt8) : Res (List UInt8) :=
  if addressOptionallyEscapedByte (charValue p) then stringAppendByte escaped p
  else do
    let escaped ← stringAppendByte escaped 0x25
    stringAppendByteAsHex escaped (charValue p)

/-- `_dbus_address_append_escaped` -/
def addressAppendEscaped (escaped : List UInt8) : List UInt8 → Res (List UInt8)
  | [] => .ok escaped
  | p :: rest => do
    let escaped ← appendEscapedByte escaped p
    addressAppendEscaped escaped rest

/-- `dbus_address_escape_value` -/
def addressEscapeValue (value : List UInt8) : Res (List UInt8) := do
  let unescaped ← stringInitConst value
  addressAppendEscaped [] unescaped

/-- `DBUS_ERROR_BAD_ADDRESS` -/
def badAddress (message : List UInt8) : DBusError :=
  ⟨.other "org.freedesktop.DBus.Error.BadAddress", message⟩

/-- The errors of `append_unescaped_value`. -/
inductive UnescapeError where
  | notFollowed
  | otherThanDigits
  | notEscaped (p : UInt8)
deriving DecidableEq, Repr

def UnescapeError.error : UnescapeError → DBusError
  | .notFollowed => badAddress (asciiBytes
      "In D-Bus address, percent character was not followed by two hex digits")
  | .otherThanDigits => badAddress (asciiBytes
      "In D-Bus address, percent character was followed by characters other than hex digits")
  | .notEscaped p => badAddress (asciiBytes "In D-Bus address, character '" ++ p ::
      asciiBytes "' should have been escaped\n")

/-- `append_unescaped_value` -/
def appendUnescapedValue (unescaped : List UInt8) :
    List UInt8 → Res (Except UnescapeError (List UInt8))
  | [] => .ok (.ok unescaped)
  | p :: rest =>
    if addressOptionallyEscapedByte (charValue p) then do
      let unescaped ← stringAppendByte unescaped p
      appendUnescapedValue unescaped rest
    else if p = 0x25 then
      match rest with
      | high :: low :: rest => do
        let unescaped ← openGap unescaped unescaped.length (hexDecode [high, low]).1
        if (hexDecode [high, low]).2 = 2 then appendUnescapedValue unescaped rest
        else return .error .otherThanDigits
      | _ => return .error .notFollowed
    else return .error (.notEscaped p)

/-- `dbus_address_unescape_value` -/
def addressUnescapeValue (value : List UInt8) : Res (Except DBusError (List UInt8)) := do
  let escaped ← stringInitConst value
  let result ← appendUnescapedValue [] escaped
  return result.mapError UnescapeError.error

/-! ## The text of a value -/

def addressByte (b : UInt8) : Bool := addressOptionallyEscapedByte (charValue b) || b = 0x25

def escapedByte (b : UInt8) : List UInt8 :=
  if addressOptionallyEscapedByte (charValue b) then [b]
  else [0x25, hexDigit (b >>> 4), hexDigit (b &&& 0x0f)]

def escaped (v : List UInt8) : List UInt8 := v.flatMap escapedByte

/-! ## One byte -/

section
variable (b : UInt8)

theorem elementAt_of_lt : b < 0x80 →
    elementAt hexdigits (charValue b >>> 4) = .ok (hexDigit (b >>> 4)) ∧
    elementAt hexdigits (charValue b &&& 0x0f) = .ok (hexDigit (b &&& 0x0f)) := by
  revert b
  decide +kernel

theorem elementAt_of_not_lt : ¬ b < 0x80 → addressOptionallyEscapedByte (charValue b) = false ∧
    elementAt hexdigits (charValue b >>> 4) = .error .outside := by
  revert b
  decide +kernel

theorem hexDecode_digits : hexDecode [hexDigit (b >>> 4), hexDigit (b &&& 0x0f)] = ([b], 2) := by
  revert b
  decide +kernel

theorem addressByte_hexDigit :
    addressByte (hexDigit (b >>> 4)) = true ∧ addressByte (hexDigit (b &&& 0x0f)) = true := by
  revert b
  decide +kernel

end

variable {b : UInt8} {acc v r rest : List UInt8}

theorem addressByte_escapedByte {c : UInt8} (h : c ∈ escapedByte b) : addressByte c = true := by
  unfold escapedByte at h
  split at h
  · rename_i hb
    cases mem_singleton.1 h
    rw [addressByte, hb, Bool.true_or]
  · simp only [mem_cons, not_mem_nil, or_false] at h
    rcases h with rfl | rfl | rfl
    · decide
    · exact (addressByte_hexDigit b).1
    · exact (addressByte_hexDigit b).2

theorem addressByte_escaped {c : UInt8} (h : c ∈ escaped v) :
    addressByte c = true := by
  obtain ⟨b, -, hb⟩ := mem_flatMap.1 h
  exact addressByte_escapedByte hb

/-! ## Escaping -/

theorem stringInitConst_eq_ok (hv : 0 ∉ v) :
    stringInitConst v = .ok r ↔ v.length ≤ stringMaxMaxLength ∧ r = v := by
  have h : v.takeWhile (· ≠ 0) = v := by
    rw [takeWhile_eq_self_iff]
    intro b hb
    simp only [decide_eq_true_eq]
    rintro rfl
    exact hv hb
  rw [stringInitConst, h, bind_eq_ok]
  simp only [assert_eq_ok, exists_const, pure_eq_ok, Except.ok.injEq, @eq_comm _ r]

theorem stringAppendByte_eq_ok {str : List UInt8} :
    stringAppendByte str b = .ok r ↔ str.length + 1 ≤ stringMaxMaxLength ∧ r = str ++ [b] := by
  unfold stringAppendByte
  split
  · simp only [reduceCtorEq, false_iff]
    omega
  · rw [Except.ok.injEq, eq_comm]
    simp only [iff_and_self]
    omega

theorem stringAppendByteAsHex_eq_ok {str : List UInt8} :
    stringAppendByteAsHex str (charValue b) = .ok r ↔ b < 0x80 ∧
      str.length + 2 ≤ stringMaxMaxLength ∧ r = str ++ [hexDigit (b >>> 4), hexDigit (b &&& 0x0f)] := by
  unfold stringAppendByteAsHex
  by_cases hb : b < 0x80
  · obtain ⟨hh, hlw⟩ := elementAt_of_lt b hb
    rw [hh, hlw]
    simp only [ok_bind, bind_eq_ok, stringAppendByte_eq_ok, hb, true_and]
    constructor
    · rintro ⟨-, ⟨-, rfl⟩, hl, rfl⟩
      rw [length_append, length_singleton] at hl
      exact ⟨hl, by rw [append_assoc]; rfl⟩
    · rintro ⟨hl, rfl⟩
      refine ⟨_, ⟨by omega, rfl⟩, ?_, by rw [append_assoc]; rfl⟩
      rw [length_append, length_singleton]
      exact hl
  · rw [(elementAt_of_not_lt b hb).2]
    simp [hb]

theorem appendEscapedByte_eq_ok : appendEscapedByte acc b = .ok r ↔ b < 0x80 ∧
      acc.length + (escapedByte b).length ≤ stringMaxMaxLength ∧ r = acc ++ escapedByte b := by
  unfold appendEscapedByte escapedByte
  by_cases he : addressOptionallyEscapedByte (charValue b) = true
  · have hb : b < 0x80 := by
      by_contra hb
      simp [(elementAt_of_not_lt b hb).1] at he
    rw [if_pos he, if_pos he, stringAppendByte_eq_ok, length_singleton]
    exact ⟨fun h => ⟨hb, h⟩, fun h => h.2⟩
  · rw [if_neg he, if_neg he]
    simp only [bind_eq_ok, stringAppendByte_eq_ok, stringAppendByteAsHex_eq_ok, length_cons,
      length_nil]
    constructor
    · rintro ⟨-, ⟨-, rfl⟩, hb, hl, rfl⟩
      rw [length_append, length_singleton] at hl
      exact ⟨hb, hl, by rw [append_assoc]; rfl⟩
    · rintro ⟨hb, hl, rfl⟩
      refine ⟨_, ⟨by omega, rfl⟩, hb, ?_, by rw [append_assoc]; rfl⟩
      rw [length_append, length_singleton]
      exact hl

theorem addressAppendEscaped_eq_ok (hac : acc.length ≤ stringMaxMaxLength) :
    addressAppendEscaped acc v = .ok r ↔ (∀ b ∈ v, b < 0x80) ∧
      acc.length + (escaped v).length ≤ stringMaxMaxLength ∧ r = acc ++ escaped v := by
  -- the invariant of the loop: what has been written is `acc`, and `v` is still to do
  induction v generalizing acc with
  | nil =>
    simp only [addressAppendEscaped, escaped, Except.ok.injEq]
    simp [hac, eq_comm]
  | cons b v ih =>
    have hlen : (escaped (b :: v)).length = (escapedByte b).length + (escaped v).length := by
      simp [escaped]
    have hap : ∀ acc : List UInt8, acc ++ escaped (b :: v) = (acc ++ escapedByte b) ++ escaped v := by
      simp [escaped]
    rw [addressAppendEscaped, bind_eq_ok]
    constructor
    · rintro ⟨acc', hac', hrs⟩
      obtain ⟨hb, hl, rfl⟩ := appendEscapedByte_eq_ok.1 hac'
      obtain ⟨hal, hln', rfl⟩ := (ih (by rw [length_append]; exact hl)).1 hrs
      rw [length_append] at hln'
      exact ⟨forall_mem_cons.2 ⟨hb, hal⟩, by omega, (hap acc).symm⟩
    · rintro ⟨hal, hl, rfl⟩
      obtain ⟨hb, hal⟩ := forall_mem_cons.1 hal
      refine ⟨acc ++ escapedByte b, appendEscapedByte_eq_ok.2 ⟨hb, by omega, rfl⟩, ?_⟩
      have hl' : (acc ++ escapedByte b).length ≤ stringMaxMaxLength := by
        rw [length_append]
        omega
      refine (ih hl').2 ⟨hal, ?_, hap acc⟩
      rw [length_append]
      omega

/-! ## Reading back -/

theorem appendUnescapedValue_plain (hb : addressOptionallyEscapedByte (charValue b) = true)
    (hl : acc.length + 1 ≤ stringMaxMaxLength) :
    appendUnescapedValue acc (b :: rest) = appendUnescapedValue (acc ++ [b]) rest := by
  have hap : stringAppendByte acc b = .ok (acc ++ [b]) := stringAppendByte_eq_ok.2 ⟨hl, rfl⟩
  have hst : appendUnescapedValue acc (b :: rest) =
      if addressOptionallyEscapedByte (charValue b) then
        stringAppendByte acc b >>= fun acc => appendUnescapedValue acc rest
      else appendUnescapedValue acc (b :: rest) := by
    rw [if_pos hb]
    rcases rest with _ | ⟨_, _ | ⟨_, _⟩⟩ <;> exact if_pos hb
  rw [hst, if_pos hb, hap, ok_bind]

theorem appendUnescapedValue_digits (b : UInt8) (hl : acc.length + 1 ≤ stringMaxMaxLength) :
    appendUnescapedValue acc (0x25 :: hexDigit (b >>> 4) :: hexDigit (b &&& 0x0f) :: rest) =
      appendUnescapedValue (acc ++ [b]) rest := by
  have hg : openGap acc acc.length [b] = .ok (acc ++ [b]) := by
    have hl : ¬ ([b] : List UInt8).length > stringMaxMaxLength - acc.length := by
      rw [length_singleton]
      omega
    rw [openGap, if_neg (by simp), if_neg hl, insertAt, take_length, drop_length, append_nil]
  have hst : ∀ hi low, appendUnescapedValue acc (0x25 :: hi :: low :: rest) =
      openGap acc acc.length (hexDecode [hi, low]).1 >>= fun acc =>
        if (hexDecode [hi, low]).2 = 2 then appendUnescapedValue acc rest
        else .ok (.error .otherThanDigits) := fun _ _ => rfl
  rw [hst, hexDecode_digits, hg, ok_bind, if_pos rfl]

theorem appendUnescapedValue_escaped (acc v : List UInt8)
    (h : acc.length + v.length ≤ stringMaxMaxLength) :
    appendUnescapedValue acc (escaped v) = .ok (.ok (acc ++ v)) := by
  induction v generalizing acc with
  | nil =>
    rw [append_nil]
    rfl
  | cons b v ih =>
    rw [length_cons] at h
    have hnx := ih (acc ++ [b]) (by rw [length_append, length_singleton]; omega)
    rw [append_assoc, singleton_append] at hnx
    rw [show escaped (b :: v) = escapedByte b ++ escaped v from flatMap_cons, escapedByte]
    split
    · rename_i hb
      rw [singleton_append, appendUnescapedValue_plain hb (by omega), hnx]
    · rw [cons_append, cons_append, singleton_append, appendUnescapedValue_digits b (by omega), hnx]

theorem length_le_escaped (v : List UInt8) : v.length ≤ (escaped v).length := by
  induction v with
  | nil => exact Nat.zero_le _
  | cons b v ih =>
    have hb : 1 ≤ (escapedByte b).length := by
      unfold escapedByte
      split <;> simp
    simp only [escaped, flatMap_cons, length_append, length_cons] at ih ⊢
    omega

/-! ## The round trip -/

/-- A value is escaped without a read outside the table, into bytes that an address may
    hold, and the result is unescaped to the value. -/
def RoundTrips (v : List UInt8) : Prop :=
  ∃ text, addressEscapeValue v = .ok text ∧ (∀ b ∈ text, addressByte b = true) ∧
    addressUnescapeValue text = .ok (.ok v)

/-- The round trip works for exactly the values whose bytes are all below 0x80, as long as
    the text fits into a string. -/
theorem address_roundTrips_iff (v : List UInt8) (hv : 0 ∉ v) :
    RoundTrips v ↔ (∀ b ∈ v, b < 0x80) ∧ (escaped v).length ≤ stringMaxMaxLength := by
  have hz : ([] : List UInt8).length ≤ stringMaxMaxLength := Nat.zero_le _
  constructor
  · rintro ⟨text, hes, -⟩
    rw [addressEscapeValue, bind_eq_ok] at hes
    obtain ⟨bytes, hby, hl⟩ := hes
    obtain ⟨-, rfl⟩ := (stringInitConst_eq_ok hv).1 hby
    obtain ⟨hal, hlen, -⟩ := (addressAppendEscaped_eq_ok hz).1 hl
    rw [length_nil, Nat.zero_add] at hlen
    exact ⟨hal, hlen⟩
  · rintro ⟨hal, hlen⟩
    have hv' := length_le_escaped v
    have htx : 0 ∉ escaped v := fun h => absurd (addressByte_escaped h) (by decide)
    refine ⟨escaped v, ?_, fun b hb => addressByte_escaped hb, ?_⟩
    · rw [addressEscapeValue, (stringInitConst_eq_ok hv).2 ⟨by omega, rfl⟩]
      refine (addressAppendEscaped_eq_ok hz).2 ⟨hal, ?_, rfl⟩
      rw [length_nil, Nat.zero_add]
      exact hlen
    · rw [addressUnescapeValue, (stringInitConst_eq_ok htx).2 ⟨hlen, rfl⟩]
      have hrd := appendUnescapedValue_escaped [] v (by rw [length_nil]; omega)
      rw [ok_bind, hrd]
      rfl

/-- A path with a blank makes the round trip. -/
theorem address_roundTrips_tmp :
    0 ∉ asciiBytes "/tmp/dbus test" ∧ RoundTrips (asciiBytes "/tmp/dbus test") :=
  ⟨by decide +kernel,
    (address_roundTrips_iff _ (by decide +kernel)).2 ⟨by decide +kernel, by decide +kernel⟩⟩

/-- The byte 0xc3, with which `é` begins in UTF-8, is looked up at the index -4. -/
theorem address_not_roundTrips : 0 ∉ ([0xc3, 0xa9] : List UInt8) ∧ ¬ RoundTrips [0xc3, 0xa9] := by
  refine ⟨by decide, ?_⟩
  rintro ⟨text, hes, -⟩
  have : addressEscapeValue [0xc3, 0xa9] = .error .outside := by decide +kernel
  simp [this] at hes

end DBus
