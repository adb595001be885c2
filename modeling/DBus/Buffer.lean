/-
  Edits of a string that owns its buffer (`dbus-string.c`), and the marshalling
  of basic values into such a string (`dbus-marshal-basic.c`).

  An edit that would make the string longer than a string may be fails for lack of memory;
  that is the only allocation failure here.  The lemmas are about edits at the end of the
  string, where the writer makes all of its insertions (`Appends`).
-/
import DBus.Value
import DBus.Reader.Defs
import Mathlib.Data.List.TakeWhile

namespace DBus

open Outcome Memory Align Endian List Value DBusString

/-! ## Edits -/

section
variable (bs : List UInt8)

/-- The bytes `bs` with `xs` inserted at `i`. -/
def insertAt (i : ℕ) (xs : List UInt8) : List UInt8 :=
  bs.take i ++ (xs ++ bs.drop i)

/-- `open_gap`, with the bytes that fill the gap. -/
def openGap (i : ℕ) (xs : List UInt8) : Res (List UInt8) :=
  if xs.length = 0 then .ok bs
  else if xs.length > stringMaxMaxLength - bs.length then .error .noMemory
  else .ok (insertAt bs i xs)

/-- `_dbus_string_insert_byte` -/
def stringInsertByte (i : ℕ) (byte : UInt8) : Res (List UInt8) := do
  assert (i ≤ bs.length)
  openGap bs i [byte]

/-- `_dbus_string_insert_bytes` -/
def stringInsertBytes (i nBytes : ℕ) (byte : UInt8) : Res (List UInt8) := do
  assert (i ≤ bs.length)
  openGap bs i (.replicate nBytes byte)

/-- `_dbus_string_alloc_space` -/
def stringAllocSpace (extraBytes : ℕ) : Res Unit :=
  if extraBytes > stringMaxMaxLength - bs.length then .error .noMemory else .ok ()

end

/-- `_dbus_string_copy_len` -/
def stringCopyLen (source : DBusString) (start len : ℕ) (dest : List UInt8) (i : ℕ) :
    Res (List UInt8) := do
  assert (start ≤ source.len)
  assert (i ≤ dest.length)
  assert (len ≤ source.len - start)
  let xs ← valueOr .outside (readN source.str start len)
  openGap dest i xs

/-- `_dbus_string_insert_2_aligned`, `_4_aligned` and `_8_aligned`: the octets at
    the next boundary of their size, with NUL bytes before them. -/
def stringInsertAligned (bs : List UInt8) (i : ℕ) (octets : List UInt8) : Res (List UInt8) := do
  assert (i ≤ bs.length)
  let gapPos := alignUp i octets.length
  if bs.length + (gapPos - i) + octets.length > stringMaxMaxLength then .error .noMemory
  else openGap bs i (.replicate (gapPos - i) 0 ++ octets)

/-- `set_4_octets` and `_dbus_marshal_set_uint32` -/
def marshalSetUint32 (bs : List UInt8) (pos value : ℕ) (o : ByteOrder) : Res (List UInt8) := do
  (ofBytes bs).getConstDataLen pos 4
  return bs.take pos ++ (toBytes o 4 value ++ bs.drop (pos + 4))

/-! ## Marshalling -/

/-- A basic value that is handed to the library: a number, or a C string. -/
inductive BasicArg where
  | num (n : ℕ)
  | str (bs : List UInt8)
deriving DecidableEq, Repr

/-- `marshal_2_octets` and `marshal_4_octets`: the new contents and the position
    behind the value. -/
def marshalOctets (width : ℕ) (bs : List UInt8) (insertAt value : ℕ) (o : ByteOrder) :
    Res (List UInt8 × ℕ) := do
  let new ← stringInsertAligned bs insertAt (toBytes o width value)
  let posAfter := insertAt + (new.length - bs.length)
  assert (posAfter ≤ new.length)
  return (new, posAfter)

/-- `marshal_8_octets` -/
def marshal8Octets (bs : List UInt8) (insertAt value : ℕ) (o : ByteOrder) :
    Res (List UInt8 × ℕ) := do
  let new ← stringInsertAligned bs insertAt (toBytes o 8 value)
  return (new, insertAt + (new.length - bs.length))

/-- `strlen` of a C string whose bytes are `bs` and a NUL. -/
def strlen (bs : List UInt8) : ℕ := (bs.takeWhile (· != 0)).length

/-- `marshal_len_followed_by_bytes`; a signature has a length byte, a string a
    length word.  The NUL behind the value is copied with it. -/
def marshalLenFollowedByBytes (asSignature : Bool) (bs : List UInt8) (insertAt : ℕ)
    (value : List UInt8) (o : ByteOrder) : Res (List UInt8 × ℕ) := do
  let dataLen := strlen value
  let valueStr ← initConstLen (ofBytes value).str 0 (dataLen + 1)
  let (bs, pos) ← if asSignature then do
      assert (dataLen ≤ maximumSignatureLength)
      assert (dataLen ≤ 255)
      let bs ← stringInsertByte bs insertAt (UInt8.ofNat dataLen)
      pure (bs, insertAt + 1)
    else marshalOctets 4 bs insertAt dataLen o
  let bs ← stringCopyLen valueStr 0 (dataLen + 1) bs pos
  return (bs, pos + (dataLen + 1))

/-- `_dbus_marshal_write_basic`: the new contents and the position behind the value. -/
def marshalWriteBasic (bs : List UInt8) (insertAt : ℕ) (t : TypeCode) (value : BasicArg)
    (o : ByteOrder) : Res (List UInt8 × ℕ) := do
  assert (t.isBasic = true)
  match t, value with
  | .basic (.fixed .byte), .num n => do
    let bs ← stringInsertByte bs insertAt (UInt8.ofNat n)
    return (bs, insertAt + 1)
  | .basic (.fixed .int16), .num n | .basic (.fixed .uint16), .num n =>
    marshalOctets 2 bs insertAt n o
  | .basic (.fixed .boolean), .num n => marshalOctets 4 bs insertAt (if n = 0 then 0 else 1) o
  | .basic (.fixed .int32), .num n | .basic (.fixed .uint32), .num n =>
    marshalOctets 4 bs insertAt n o
  | .basic (.fixed .int64), .num n | .basic (.fixed .uint64), .num n
  | .basic (.fixed .double), .num n => marshal8Octets bs insertAt n o
  | .basic (.str .signature), .str value => marshalLenFollowedByBytes true bs insertAt value o
  | .basic (.str _), .str value => marshalLenFollowedByBytes false bs insertAt value o
  | _, _ => .error .assertion

/-! ## Appending -/

/-- The string is `bs` with `xs` appended, and no longer than a string may be. -/
def Appended (bs xs new : List UInt8) : Prop := new = bs ++ xs ∧ new.length ≤ stringMaxMaxLength

section
variable {bs xs ys : List UInt8} {i n : ℕ} {o : ByteOrder} {bs' : List UInt8}

theorem Appended.trans {bs'' : List UInt8} (h : Appended bs xs bs') (h' : Appended bs' ys bs'') :
    Appended bs (xs ++ ys) bs'' := by
  refine ⟨?_, h'.2⟩
  rw [h'.1, h.1, append_assoc]

theorem Appended.length (h : Appended bs xs bs') : bs'.length = bs.length + xs.length := by
  rw [h.1, length_append]

/-- The edit stopped because `n` bytes are more than a string can have. -/
def NoRoom (n : ℕ) (s : Stop) : Prop := s = .noMemory ∧ stringMaxMaxLength < n

/-- The edit appends `xs`, if a string can be that long. -/
abbrev Appends (bs xs : List UInt8) (x : Res (List UInt8)) : Prop :=
  Sat x (Appended bs xs) (NoRoom (bs.length + xs.length))

theorem sat_noRoom {α : Type} {x : Res α} {Q : α → Prop} {k : ℕ} (h : Sat x Q (NoRoom k))
    (hk : k ≤ n) : Sat x Q (NoRoom n) :=
  h.mono (fun _ hq => hq) fun _ he => ⟨he.1, he.2.trans_le hk⟩

theorem sat_assert {c : Prop} [Decidable c] (h : c) {E : Stop → Prop} :
    Sat (assert c) (fun _ => True) E := by
  rw [assert_of h]
  trivial

theorem stringAllocSpace_sat (hb : bs.length ≤ stringMaxMaxLength) :
    Sat (stringAllocSpace bs n) (fun _ => bs.length + n ≤ stringMaxMaxLength)
      (NoRoom (bs.length + n)) := by
  unfold stringAllocSpace
  split
  · exact ⟨rfl, by omega⟩
  · rw [sat_ok]; omega

theorem strlen_eq (h : 0 ∉ xs) : strlen xs = xs.length := by
  rw [strlen, takeWhile_eq_self_iff.2]
  intro c hc
  simpa using fun h0 : c = 0 => h (h0 ▸ hc)

/-- A value was marshalled at the end of the string. -/
def Marshalled (bs xs : List UInt8) (out : List UInt8 × ℕ) : Prop :=
  Appended bs xs out.1 ∧ out.2 = out.1.length

abbrev Marshals (bs xs : List UInt8) (x : Res (List UInt8 × ℕ)) : Prop :=
  Sat x (Marshalled bs xs) (NoRoom (bs.length + xs.length))

theorem Marshalled.exists_eq {out : List UInt8 × ℕ} (h : Marshalled bs xs out) :
    ∃ new, out = (new, new.length) ∧ Appended bs xs new :=
  ⟨out.1, Prod.ext rfl h.2, h.1⟩

section
variable {c : UInt8} (hi : i = bs.length) (hb : bs.length ≤ stringMaxMaxLength) {value : ℕ}
include hi hb

theorem openGap_sat : Appends bs xs (openGap bs i xs) := by
  subst hi
  unfold openGap
  split
  · next h => rw [length_eq_zero_iff.1 h]; exact ⟨(append_nil bs).symm, hb⟩
  · split
    · exact ⟨rfl, by omega⟩
    · refine ⟨by simp [insertAt], ?_⟩
      rw [insertAt, take_length, drop_length, append_nil, length_append]
      omega

theorem stringInsertByte_sat :
    Sat (stringInsertByte bs i c) (Appended bs [c]) (NoRoom (bs.length + 1)) :=
  (sat_assert (le_of_eq hi)).bind fun _ _ => openGap_sat hi hb

theorem stringInsertBytes_sat :
    Sat (stringInsertBytes bs i n c) (Appended bs (.replicate n c)) (NoRoom (bs.length + n)) := by
  have hg : Sat (openGap bs i (.replicate n c)) _ _ := openGap_sat hi hb
  rw [length_replicate] at hg
  exact (sat_assert (le_of_eq hi)).bind fun _ _ => hg

theorem stringCopyLen_sat {source : DBusString} {start : ℕ} (hs : start + xs.length ≤ source.len)
    (h : Holds source.str start xs) (hn : n = xs.length) :
    Appends bs xs (stringCopyLen source start n bs i) := by
  have hrd : readN source.str start n = some xs := readN_eq_some.2 ⟨hn.symm, h⟩
  refine (sat_assert (by omega)).bind fun _ _ => (sat_assert (le_of_eq hi)).bind fun _ _ =>
    (sat_assert (by omega)).bind fun _ _ => ?_
  rw [hrd, valueOr_some, ok_bind]
  exact openGap_sat hi hb

theorem stringInsertAligned_sat :
    Appends bs (pad bs.length xs.length ++ xs) (stringInsertAligned bs i xs) := by
  refine (sat_assert (le_of_eq hi)).bind fun _ _ => ?_
  subst hi
  dsimp only
  split
  · next h =>
    refine ⟨rfl, ?_⟩
    rw [length_append, length_pad, padding]
    omega
  · exact openGap_sat rfl hb

theorem marshalOctets_sat :
    Marshals bs (pad bs.length n ++ toBytes o n value) (marshalOctets n bs i value o) := by
  have hin : Sat (stringInsertAligned bs i (toBytes o n value)) _ _ := stringInsertAligned_sat hi hb
  rw [length_toBytes] at hin
  refine hin.bind fun new hnw => ?_
  have hlen : i + (new.length - bs.length) = new.length := by rw [hi, hnw.length]; omega
  refine (sat_assert (le_of_eq hlen)).bind fun _ _ => ⟨hnw, hlen⟩

theorem marshal8Octets_sat :
    Marshals bs (pad bs.length 8 ++ toBytes o 8 value) (marshal8Octets bs i value o) := by
  have hin : Sat (stringInsertAligned bs i (toBytes o 8 value)) _ _ := stringInsertAligned_sat hi hb
  rw [length_toBytes] at hin
  refine hin.bind fun new hnw => ⟨hnw, ?_⟩
  have := hnw.length
  simp only
  omega

theorem copyString_sat : Appends bs (xs ++ [0]) (stringCopyLen
      ⟨window (ofBytes xs).str 0 (xs.length + 1), xs.length + 1⟩ 0 (xs.length + 1) bs i) := by
  refine stringCopyLen_sat hi hb (by simp) ?_ (by simp)
  rw [holds_window (by simp)]
  exact holds_ofBytes xs

omit hi hb in
theorem copyMarshalled_sat {pos : ℕ} (h : Marshalled bs ys (bs', pos)) :
    Marshals bs (ys ++ (xs ++ [0])) (do
      let new ← stringCopyLen ⟨window (ofBytes xs).str 0 (xs.length + 1), xs.length + 1⟩ 0
        (xs.length + 1) bs' pos
      return (new, pos + (xs.length + 1))) := by
  obtain ⟨hap, hp⟩ := h
  obtain rfl : pos = bs'.length := hp
  have hlen : bs'.length + (xs ++ [0]).length = bs.length + (ys ++ (xs ++ [0])).length := by
    simp only [hap.length, length_append, Nat.add_assoc]
  refine (sat_noRoom (copyString_sat rfl hap.2) hlen.le).bind fun new hnw => ⟨hap.trans hnw, ?_⟩
  simp only [hnw.length, length_append, length_singleton]

theorem marshalSignature_sat (h0 : 0 ∉ xs) (hl : xs.length ≤ maximumSignatureLength) :
    Marshals bs (sigBytes xs) (marshalLenFollowedByBytes true bs i xs o) := by
  have hm : xs.length + 1 ≤ stringMaxMaxLength := Nat.le_trans (Nat.succ_le_succ hl) (by decide)
  rw [marshalLenFollowedByBytes]
  simp only [strlen_eq h0, initConstLen, assert_of hm, ok_bind, pure_eq_ok, if_true,
    assert_of hl, assert_of (show xs.length ≤ 255 from hl)]
  refine (sat_noRoom (stringInsertByte_sat hi hb) (by simp)).bind fun bs' hbs' => ?_
  have hlen : Marshalled bs [UInt8.ofNat xs.length] (bs', i + 1) :=
    ⟨hbs', by simp only [hbs'.length, hi, length_singleton]⟩
  exact copyMarshalled_sat hlen

theorem marshalString_sat (h0 : 0 ∉ xs) (hl : xs.length < stringMaxMaxLength) :
    Marshals bs ((pad bs.length 4 ++ toBytes o 4 xs.length) ++ (xs ++ [0]))
      (marshalLenFollowedByBytes false bs i xs o) := by
  rw [marshalLenFollowedByBytes]
  simp only [strlen_eq h0, initConstLen, assert_bind (Nat.succ_le_of_lt hl),
    pure_eq_ok, Bool.false_eq_true, if_false]
  exact (sat_noRoom (marshalOctets_sat hi hb) (by simp)).bind fun out ho => copyMarshalled_sat ho

theorem marshalWriteBasic_fixed_sat (f : FixedType) : Marshals bs ((fixed f n).encode o bs.length)
      (marshalWriteBasic bs i (.basic (.fixed f)) (.num n) o) := by
  have hbs : (TypeCode.basic (.fixed f)).isBasic = true := rfl
  refine (sat_assert hbs).bind fun _ _ => ?_
  cases f with
  | byte =>
    have hen : (fixed .byte n).encode o bs.length = [UInt8.ofNat n] := by
      rw [encode_of_dvd (Nat.one_dvd _)]
      cases o <;> rfl
    rw [hen]
    refine (stringInsertByte_sat hi hb).bind fun new hnw => ⟨hnw, ?_⟩
    simp only [hnw.length, hi, length_singleton]
  | int64 | uint64 | double => exact marshal8Octets_sat hi hb
  | _ => exact marshalOctets_sat hi hb

theorem marshalWriteBasic_str_sat {s : StringType} (hc : s.Contents xs)
    (hl : xs.length < stringMaxMaxLength) :
    Marshals bs ((str s xs).encode o bs.length)
      (marshalWriteBasic bs i (.basic (.str s)) (.str xs) o) := by
  have hbs : (TypeCode.basic (.str s)).isBasic = true := rfl
  refine (sat_assert hbs).bind fun _ _ => ?_
  cases s with
  | signature =>
    rw [encode_of_dvd (Nat.one_dvd _)]
    exact marshalSignature_sat hi hb hc.zero_notMem hc.length_le
  | string | objectPath =>
    have h := marshalString_sat (o := o) hi hb hc.zero_notMem hl
    rw [append_assoc] at h
    exact h

end

end

end DBus
