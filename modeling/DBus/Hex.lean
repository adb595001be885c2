/-
  Decoding hexadecimal text into a string (`_dbus_string_hex_decode`).

  The result is built in a string of its own, which is moved into the target at the end.  The
  assertions that the start and the place are inside the strings are left out.
-/
import DBus.Auth.Text

namespace DBus

open List

section
-- which allocations fail: that of the result, one for each byte, and that for the move
variable (fails : ℕ → Bool)

/-- `_dbus_string_append_byte`, which also fails if the string would be too long -/
def appendByte (s : List UInt8) (b : UInt8) : Option (List UInt8) :=
  if fails (s.length + 1) then none else some (s ++ [b])

/-- `_dbus_string_move` of a whole string; buffers are swapped if the target is empty. -/
def stringMove (source dest : List UInt8) (i : ℕ) : Option (List UInt8) :=
  if source = [] then some dest
  else if dest = [] then some source
  else if fails (source.length + 1) then none else some (insertAt dest i source)

/-- The loop of `_dbus_string_hex_decode` -/
def hexDecodeBytes : List UInt8 → Bool → List UInt8 → ℕ → Option (List UInt8 × ℕ)
  | [], _, result, n => some (result, n)
  | c :: cs, highBits, result, n =>
    match hexValue c with
    | none => some (result, n)
    | some val => do
      let result ← if highBits then appendByte fails result (val <<< 4)
        else some (result.dropLast ++ [result.getLastD 0 ||| val])
      hexDecodeBytes cs (!highBits) result (n + 1)

/-- `_dbus_string_hex_decode`: the end of the digits, if it succeeds, and the target. -/
def stringHexDecode (source : List UInt8) (start : ℕ) (dest : List UInt8) (i : ℕ) :
    Option ℕ × List UInt8 :=
  match if fails 0 then none else hexDecodeBytes fails (source.drop start) true [] start with
  | none => (none, dest)
  | some (result, n) =>
    match stringMove fails result dest i with
    | none => (none, dest)
    | some dest => (some n, dest)

end

section
variable {f : ℕ → Bool} {s t r dest : List UInt8} {i n m : ℕ} {b : Bool}

theorem stringMove_cases : stringMove f s dest i = some (insertAt dest i s) ∨
    stringMove f s dest i = none ∧ ∃ k, f k = true := by
  rw [stringMove]
  split_ifs with h1 h2 h3
  · simp [h1, insertAt]
  · simp [h2, insertAt]
  · exact .inr ⟨rfl, _, h3⟩
  · exact .inl rfl

theorem hexDecodeBytes_cases : hexDecodeBytes f s b r n = some (hexDecodeLoop s b r n) ∨
    hexDecodeBytes f s b r n = none ∧ ∃ k, f k = true := by
  induction s generalizing b r n with
  | nil => exact .inl rfl
  | cons c s ih =>
    rw [hexDecodeBytes, hexDecodeLoop]
    cases hexValue c with
    | none => exact .inl rfl
    | some val =>
      cases b with
      | true =>
        by_cases hk : f (r.length + 1)
        · exact .inr ⟨by simp [appendByte, hk], _, hk⟩
        · simpa [appendByte, hk] using ih
      | false => exact ih

/-- The digits end before the first byte that is none. -/
theorem hexDecodeLoop_eq : hexDecodeLoop s b r n =
    ((hexDecodeLoop s b r m).1, n + (s.takeWhile (hexValue · |>.isSome)).length) := by
  induction s generalizing b r n m with
  | nil => rfl
  | cons c s ih =>
    rw [hexDecodeLoop, hexDecodeLoop, takeWhile_cons]
    cases hexValue c with
    | none => rfl
    | some val =>
      have hlen {k : ℕ} : n + 1 + k = n + (k + 1) := by omega
      cases b <;> exact ih.trans (congrArg (Prod.mk _) hlen)

theorem hexValue_digits (c : UInt8) : hexValue (hexDigit (c >>> 4)) = some (c >>> 4) ∧
    hexValue (hexDigit (c &&& 0x0f)) = some (c &&& 0x0f) ∧ (c >>> 4) <<< 4 ||| c &&& 0x0f = c := by
  revert c
  decide +kernel

theorem hexDecodeLoop_encode :
    hexDecodeLoop (hexEncode s) true r n = (r ++ s, n + (hexEncode s).length) := by
  induction s generalizing r n with
  | nil => simp [hexEncode, hexDecodeLoop]
  | cons c s ih =>
    obtain ⟨h1, h2, h3⟩ := hexValue_digits c
    have hcn : hexEncode (c :: s) = hexDigit (c >>> 4) :: hexDigit (c &&& 0x0f) :: hexEncode s := rfl
    rw [hcn, hexDecodeLoop, h1]
    simp [hexDecodeLoop, h2, h3, ih]
    omega

/-- The call inserts `bytes` and returns `e`, unless an allocation fails; then the target is as
    it was. -/
def HexDecodes (f : ℕ → Bool) (source : List UInt8) (start : ℕ) (dest : List UInt8) (i : ℕ)
    (bytes : List UInt8) (e : ℕ) : Prop :=
  stringHexDecode f source start dest i = (some e, insertAt dest i bytes) ∨
    stringHexDecode f source start dest i = (none, dest) ∧ ∃ k, f k = true

/-- **Decoding inserts what was encoded** and reports the end of the text; of any text it reads
    the digits in front. -/
theorem decodes_hexEncode (f : ℕ → Bool) (text bytes dest : List UInt8) (start i : ℕ) :
    HexDecodes f (text ++ hexEncode bytes) text.length dest i bytes (text ++ hexEncode bytes).length ∧
    HexDecodes f text start dest i (hexDecode (text.drop start)).1
      (start + ((text.drop start).takeWhile (hexValue · |>.isSome)).length) := by
  have hdc {source : List UInt8} {start : ℕ} : HexDecodes f source start dest i
      (hexDecodeLoop (source.drop start) true [] start).1
      (hexDecodeLoop (source.drop start) true [] start).2 := by
    rw [HexDecodes, stringHexDecode]
    by_cases h0 : f 0
    · exact .inr ⟨by simp [h0], 0, h0⟩
    rw [if_neg h0]
    rcases hexDecodeBytes_cases with h | ⟨h, hk⟩
    · rw [h]
      rcases @stringMove_cases f (hexDecodeLoop (source.drop start) true [] start).1 dest i with
        h | ⟨h, hk⟩
      · exact .inl (by simp only [h])
      · exact .inr ⟨by simp only [h], hk⟩
    · exact .inr ⟨by rw [h], hk⟩
  constructor
  · have h := @hdc (text ++ hexEncode bytes) text.length
    rwa [drop_left, hexDecodeLoop_encode, nil_append, ← length_append] at h
  · have h := @hdc text start
    rwa [hexDecodeLoop_eq (m := 0)] at h

end

end DBus
