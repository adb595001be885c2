/-
  `DBusString` as memory (`dbus-string.c`) and the words read from it
  (`_dbus_unpack_uint32`, `_dbus_marshal_read_uint32` of `dbus-marshal-basic.c`).

  A string that owns its buffer keeps a NUL behind its last byte (`ofBytes`); a constant
  string made from a pointer into another buffer (`initConstLen`) sees the byte that follows
  it there.  Buffers are 8-byte aligned, so an offset and the address it stands for have the
  same alignment.
-/
import DBus.Protocol
import DBus.Lib.Memory
import DBus.Lib.Align
import DBus.Lib.Endian

namespace DBus

open Outcome Memory Align Endian

/-- `DBusString` -/
structure DBusString where
  str : ℕ → Option UInt8
  len : ℕ

/-- `_DBUS_STRING_MAX_MAX_LENGTH` -/
def stringMaxMaxLength : ℕ := 2147483647 - 8

namespace DBusString

/-- The string that owns the bytes `bs`, NUL-terminated. -/
def ofBytes (bs : List UInt8) : DBusString := ⟨ofList (bs ++ [0]), bs.length⟩

/-- The string of the bytes `bs` when nothing behind them may be read. -/
def ofBody (bs : List UInt8) : DBusString := ⟨ofList bs, bs.length⟩

section
variable (s : DBusString)

/-- A dereferenced pointer into the string's buffer. -/
def deref (p : ℕ) : Res UInt8 := valueOr .outside (s.str p)

/-- `_dbus_string_get_byte` -/
def getByte (start : ℕ) : Res UInt8 := do
  assert (start ≤ s.len)
  s.deref start

/-- `_dbus_string_get_const_data_len`: only its assertions, the pointer is `start` itself. -/
def getConstDataLen (start len : ℕ) : Res Unit := do
  assert (start ≤ s.len)
  assert (len ≤ s.len - start)

end

/-- `_dbus_string_init_const_len` on a pointer `p` into the memory `m`. -/
def initConstLen (m : ℕ → Option UInt8) (p len : ℕ) : Res DBusString := do
  assert (len ≤ stringMaxMaxLength)
  return ⟨window m p len, len⟩

end DBusString

/-- `_dbus_unpack_uint32` on a pointer `p` into the memory `m`. -/
def unpackUint32 (o : ByteOrder) (m : ℕ → Option UInt8) (p : ℕ) : Res ℕ := do
  assert (alignUp p 4 = p)
  let bs ← valueOr .outside (readN m p 4)
  return fromBytes o bs

/-- `_dbus_marshal_read_uint32`: the word at the next boundary, and the position behind it. -/
def marshalReadUint32 (s : DBusString) (pos : ℕ) (o : ByteOrder) : Res (ℕ × ℕ) := do
  let pos := alignUp pos 4
  assert (pos + 4 ≤ s.len)
  let n ← unpackUint32 o s.str pos
  return (n, pos + 4)

/-! ## What these reads return -/

variable {s : DBusString} {p i n : ℕ} {c : UInt8} {m : ℕ → Option UInt8} {o : ByteOrder}

theorem DBusString.deref_eq_ok : s.deref p = .ok c ↔ s.str p = some c := valueOr_eq_ok

theorem DBusString.getByte_eq_ok : s.getByte p = .ok c ↔ p ≤ s.len ∧ s.str p = some c := by
  simp only [getByte, bind_eq_ok, assert_eq_ok, deref_eq_ok, exists_const]

theorem DBusString.getByte_of (h : p ≤ s.len) (hc : s.str p = some c) : s.getByte p = .ok c :=
  getByte_eq_ok.2 ⟨h, hc⟩

theorem unpackUint32_eq_ok : unpackUint32 o m p = .ok n ↔
      4 ∣ p ∧ ∃ bs : List UInt8, bs.length = 4 ∧ Holds m p bs ∧ n = fromBytes o bs := by
  simp only [unpackUint32, bind_eq_ok, assert_eq_ok, valueOr_eq_ok, readN_eq_some, exists_const,
    pure_eq_ok, Except.ok.injEq]
  constructor
  · rintro ⟨ha, bs, ⟨hl, hb⟩, rfl⟩
    exact ⟨ha ▸ dvd_alignUp, bs, hl, hb, rfl⟩
  · rintro ⟨hd, bs, hl, hb, rfl⟩
    exact ⟨alignUp_of_dvd hd, bs, ⟨hl, hb⟩, rfl⟩

theorem unpackUint32_toBytes (ha : 4 ∣ p) (hn : n < 2 ^ 32) (h : Holds m p (toBytes o 4 n)) :
    unpackUint32 o m p = .ok n :=
  unpackUint32_eq_ok.2 ⟨ha, _, length_toBytes .., h, (fromBytes_toBytes o (by simpa using hn)).symm⟩

theorem holds_of_unpackUint32 (h : unpackUint32 o m p = .ok n) :
    n < 2 ^ 32 ∧ Holds m p (toBytes o 4 n) := by
  obtain ⟨-, bs, hl, hb, rfl⟩ := unpackUint32_eq_ok.1 h
  refine ⟨?_, ?_⟩
  · have := fromBytes_lt o bs
    rw [hl] at this; simpa using this
  · rwa [toBytes_fromBytes o hl]

theorem marshalReadUint32_toBytes {q : ℕ} (hq : alignUp p 4 = q) (hl : q + 4 ≤ s.len)
    (hn : n < 2 ^ 32) (h : Holds s.str q (toBytes o 4 n)) :
    marshalReadUint32 s p o = .ok (n, q + 4) := by
  subst hq
  simp only [marshalReadUint32, assert_of hl, ok_bind,
    unpackUint32_toBytes dvd_alignUp hn h, pure_eq_ok]

theorem ofBytes_str_len (bs : List UInt8) : (DBusString.ofBytes bs).str bs.length = some 0 := by
  simp [DBusString.ofBytes, ofList]

theorem ofBytes_str_of_lt {bs : List UInt8} (h : i < bs.length) :
    (DBusString.ofBytes bs).str i = some bs[i] := by
  simp [DBusString.ofBytes, ofList, List.getElem?_append_left h, h]

theorem holds_ofBytes (bs : List UInt8) : Holds (DBusString.ofBytes bs).str 0 (bs ++ [0]) :=
  holds_ofList

end DBus
