/-
  The string helpers of the authentication code, on the bytes of a string: blanks,
  lines, ASCII and hexadecimal.
-/
import DBus.Header.Defs

namespace DBus

open Outcome List

/-! ## Blanks -/

/-- `DBUS_IS_ASCII_BLANK` -/
def isBlank (c : UInt8) : Bool := c = 0x20 || c = 0x09

/-- `DBUS_IS_ASCII_WHITE` -/
def isWhite (c : UInt8) : Bool := isBlank c || c = 0x0a || c = 0x0d

section
variable (s : List UInt8) (start : ℕ)

/-- Where the first blank from `start` on is, or the end. -/
def firstBlank : ℕ := start + (s.drop start).findIdx isBlank

/-- Where the blanks at `start` end. -/
def behindBlanks : ℕ := start + (s.drop start).findIdx (!isBlank ·)

/-- The byte behind the blanks at `start` is no line break. -/
def SkipFine : Prop :=
  ∀ c ∈ s[behindBlanks s start]?, isWhite c = false

end

instance (s : List UInt8) (start : ℕ) : Decidable (SkipFine s start) :=
  inferInstanceAs (Decidable (∀ c ∈ s[behindBlanks s start]?, isWhite c = false))

section
variable (s : List UInt8)

/-- `_dbus_string_find_blank`: whether there is a blank, and where (the length if there is none). -/
def findBlank (start : ℕ) : Res (Bool × ℕ) := do
  assert (start ≤ s.length)
  return (decide (firstBlank s start < s.length), firstBlank s start)

/-- `_dbus_string_skip_blank` -/
def skipBlank (start : ℕ) : Res ℕ := do
  assert (start ≤ s.length)
  assert (SkipFine s start)
  return behindBlanks s start

/-- `_dbus_string_copy_len` into an empty string. -/
def copyLen (start len : ℕ) : Res (List UInt8) := do
  assert (start ≤ s.length)
  assert (len ≤ s.length - start)
  return (s.drop start).take len

end

/-! ## Lines -/

def crlf : List UInt8 := [0x0d, 0x0a]

/-- `_dbus_string_find (str, 0, "\r\n", &eol)` -/
def findEol : List UInt8 → Option ℕ
  | [] => none
  | c :: cs => if crlf <+: c :: cs then some 0 else (findEol cs).map (· + 1)

/-- `_dbus_string_validate_ascii` of a whole string. -/
def validateAscii (s : List UInt8) : Bool := s.all fun c => c != 0 && c < 0x80

/-! ## Hexadecimal -/

/-- A digit of `hexdigits`. -/
def hexDigit (n : UInt8) : UInt8 := if n < 10 then 0x30 + n else 0x61 + (n - 10)

/-- `_dbus_string_hex_encode` -/
def hexEncode (s : List UInt8) : List UInt8 :=
  s.flatMap fun c : UInt8 => [hexDigit (c >>> 4), hexDigit (c &&& 0x0f)]

def hexValue (c : UInt8) : Option UInt8 :=
  if 0x30 ≤ c ∧ c ≤ 0x39 then some (c - 0x30)
  else if 0x61 ≤ c ∧ c ≤ 0x66 then some (c - 0x61 + 10)
  else if 0x41 ≤ c ∧ c ≤ 0x46 then some (c - 0x41 + 10)
  else none

/-- The loop of `_dbus_string_hex_decode`: an odd digit fills the high bits of a byte,
    the next one its low bits. -/
def hexDecodeLoop : List UInt8 → Bool → List UInt8 → ℕ → List UInt8 × ℕ
  | [], _, result, n => (result, n)
  | c :: cs, highBits, result, n =>
    match hexValue c with
    | none => (result, n)
    | some val =>
      if highBits then hexDecodeLoop cs false (result ++ [val <<< 4]) (n + 1)
      else hexDecodeLoop cs true (result.dropLast ++ [result.getLastD 0 ||| val]) (n + 1)

/-- `_dbus_string_hex_decode`: the bytes, and where the digits end. -/
def hexDecode (s : List UInt8) : List UInt8 × ℕ := hexDecodeLoop s true [] 0

/-! ## Contexts of keyrings -/

/-- `_dbus_keyring_validate_context` -/
def keyringValidateContext (context : List UInt8) : Bool :=
  !context.isEmpty && validateAscii context && !context.contains 0x2f && !context.contains 0x5c
    && !context.contains 0x2e && !context.any isBlank && !context.contains 0x0a
    && !context.contains 0x0d

/-! ## What the helpers find -/

section
variable {s : List UInt8} {start : ℕ}

theorem le_firstBlank : start ≤ firstBlank s start := Nat.le_add_right _ _

theorem firstBlank_le (h : start ≤ s.length) : firstBlank s start ≤ s.length := by
  have hi : (s.drop start).findIdx isBlank ≤ (s.drop start).length := findIdx_le_length
  rw [length_drop] at hi
  unfold firstBlank
  omega

theorem le_behindBlanks : start ≤ behindBlanks s start := Nat.le_add_right _ _

section
variable (h : start ≤ s.length)
include h

theorem behindBlanks_le : behindBlanks s start ≤ s.length := by
  have hi : (s.drop start).findIdx (!isBlank ·) ≤ (s.drop start).length := findIdx_le_length
  rw [length_drop] at hi
  unfold behindBlanks
  omega

theorem findBlank_eq :
    findBlank s start = .ok (decide (firstBlank s start < s.length), firstBlank s start) := by
  simp [findBlank, assert_of h]

theorem skipBlank_decides :
    Decides (SkipFine s start) .assertion (skipBlank s start) (behindBlanks s start) := by
  rw [skipBlank, assert_bind h]
  constructor
  · intro hf
    simp [assert_of hf]
  · intro hf
    simp [assert, ensure_not hf]

theorem skipBlank_eq {i : ℕ} (hi : skipBlank s start = .ok i) : i = behindBlanks s start := by
  by_cases hs : SkipFine s start
  · rw [(skipBlank_decides h).1 hs] at hi
    cases hi
    rfl
  · simp [(skipBlank_decides h).2 hs] at hi

end

theorem copyLen_eq {len : ℕ} (h : start + len ≤ s.length) :
    copyLen s start len = .ok ((s.drop start).take len) := by
  have hs : start ≤ s.length := by omega
  have hl : len ≤ s.length - start := by omega
  simp [copyLen, assert_of hs, assert_of hl]

theorem copyLen_start {len : ℕ} (h : len ≤ s.length) : copyLen s 0 len = .ok (s.take len) := by
  rw [copyLen_eq (by omega), drop_zero]

theorem copyLen_rest (h : start ≤ s.length) :
    copyLen s start (s.length - start) = .ok (s.drop start) := by
  rw [copyLen_eq (by omega), take_of_length_le (by rw [length_drop])]

end

end DBus
