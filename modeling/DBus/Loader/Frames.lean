/-
  The messages in a stream of bytes.

  The first sixteen bytes of a message announce its length.  `messageScanner` cuts a
  stream into messages: it waits until all of a message has arrived, and a stream is bad
  where the announcement makes no sense or what was announced is no message.  This says
  what the loader should do; it knows nothing of how the stream arrives.
-/
import DBus.Lib.Framing
import DBus.Loader.Message

namespace DBus

open Endian Framing List

/-- The length that the message at the start of `bs` announces, in the byte order `o`. -/
def messageLength (o : ByteOrder) (bs : List UInt8) : ℕ :=
  headerLength o bs + numberAt o bs bodyLengthOffset

/-- The byte order and the length that the message at the start of `bs` announces, unless
    it would be longer than `max`. -/
def announced (max : ℕ) (bs : List UInt8) : Option (ByteOrder × ℕ) :=
  match orderOfByte (bs.getD byteOrderOffset 0) with
  | none => none
  | some o => if messageLength o bs ≤ max then some (o, messageLength o bs) else none

def nextMessage (max : ℕ) (bs : List UInt8) : Verdict DBusMessage :=
  if bs.length < firstFieldOffset then .wait
  else match announced max bs with
    | none => .bad
    | some (o, n) =>
      if bs.length < n then .wait
      else if MessageValid o (bs.take n) then .item (messageOf o (bs.take n)) n
      else .bad

section
variable {max n : ℕ} {o : ByteOrder} {bs ys : List UInt8}

theorem announced_eq_some :
    announced max bs = some (o, n) ↔
      orderOfByte (bs.getD byteOrderOffset 0) = some o ∧ n = messageLength o bs ∧ n ≤ max := by
  rw [announced]
  cases orderOfByte (bs.getD byteOrderOffset 0) with
  | none => exact iff_of_false nofun nofun
  | some o' =>
    dsimp only
    split
    · next hle =>
      rw [Option.some.injEq, Prod.mk.injEq, Option.some.injEq]
      constructor
      · rintro ⟨rfl, rfl⟩
        exact ⟨rfl, rfl, hle⟩
      · rintro ⟨rfl, rfl, -⟩
        exact ⟨rfl, rfl⟩
    · next hle =>
      refine iff_of_false nofun ?_
      rintro ⟨h, rfl, hn⟩
      cases h
      exact hle hn

theorem firstField_le_messageLength : firstFieldOffset ≤ messageLength o bs :=
  (Nat.le_add_right _ (fieldsArrayLen o bs)).trans
    (firstField_le_headerLength.trans (Nat.le_add_right ..))

/-! ## What has been announced does not change -/

theorem numberAt_append {i : ℕ} (h : i + 4 ≤ bs.length) :
    numberAt o (bs ++ ys) i = numberAt o bs i := by
  rw [numberAt, numberAt, drop_append_of_le_length (by omega),
    take_append_of_le_length (by rw [length_drop]; omega)]

section
variable (h : firstFieldOffset ≤ bs.length)
include h

theorem headerLength_append : headerLength o (bs ++ ys) = headerLength o bs := by
  have hnm : fieldsArrayLen o (bs ++ ys) = fieldsArrayLen o bs := numberAt_append h
  rw [headerLength, headerLength, hnm]

theorem messageLength_append : messageLength o (bs ++ ys) = messageLength o bs := by
  rw [messageLength, messageLength, headerLength_append h,
    numberAt_append (Nat.le_trans (by decide) h)]

theorem announced_append : announced max (bs ++ ys) = announced max bs := by
  have hb : (bs ++ ys).getD byteOrderOffset 0 = bs.getD byteOrderOffset 0 := by
    have hlt : byteOrderOffset < bs.length := Nat.lt_of_lt_of_le (by decide) h
    rw [getD_eq_getElem?_getD, getD_eq_getElem?_getD, getElem?_append_left hlt]
  simp only [announced, hb, messageLength_append h]

end

theorem messageLength_take (hn : n ≤ bs.length) (h : firstFieldOffset ≤ n) :
    headerLength o (bs.take n) = headerLength o bs ∧
      messageLength o (bs.take n) = messageLength o bs := by
  have hlen : firstFieldOffset ≤ (bs.take n).length := by rwa [length_take_of_le hn]
  have hsp : bs.take n ++ bs.drop n = bs := take_append_drop ..
  refine ⟨?_, ?_⟩
  · conv_rhs => rw [← hsp, headerLength_append hlen]
  · conv_rhs => rw [← hsp, messageLength_append hlen]

/-! ## The messages of a stream -/

theorem nextMessage_short (h : bs.length < firstFieldOffset) : nextMessage max bs = .wait :=
  if_pos h

section
variable (h : firstFieldOffset ≤ bs.length)
include h

theorem nextMessage_none (ha : announced max bs = none) : nextMessage max bs = .bad := by
  rw [nextMessage, if_neg (Nat.not_lt.2 h), ha]

theorem nextMessage_some (ha : announced max bs = some (o, n)) :
    nextMessage max bs = if bs.length < n then .wait
      else if MessageValid o (bs.take n) then .item (messageOf o (bs.take n)) n else .bad := by
  rw [nextMessage, if_neg (Nat.not_lt.2 h), ha]

end

theorem nextMessage_append (h : nextMessage max bs ≠ .wait) :
    nextMessage max (bs ++ ys) = nextMessage max bs := by
  rcases Nat.lt_or_ge bs.length firstFieldOffset with hlen | hlen
  · exact absurd (nextMessage_short hlen) h
  · have hl' : firstFieldOffset ≤ (bs ++ ys).length := by rw [length_append]; omega
    have han : announced max (bs ++ ys) = announced max bs := announced_append hlen
    cases ha : announced max bs with
    | none => rw [nextMessage_none hlen ha, nextMessage_none hl' (han.trans ha)]
    | some ann =>
      obtain ⟨o, n⟩ := ann
      rw [nextMessage_some hlen ha] at h ⊢
      rw [nextMessage_some hl' (han.trans ha)]
      have hn : ¬ bs.length < n := fun hn => h (if_pos hn)
      rw [if_neg hn, if_neg (by rw [length_append]; omega),
        take_append_of_le_length (Nat.not_lt.1 hn)]

theorem nextMessage_eq_item {msg : DBusMessage} :
    nextMessage max bs = .item msg n ↔
      ∃ o, announced max bs = some (o, n) ∧ n ≤ bs.length ∧ MessageValid o (bs.take n) ∧
        msg = messageOf o (bs.take n) := by
  constructor
  · intro h
    rcases Nat.lt_or_ge bs.length firstFieldOffset with hlen | hlen
    · simp [nextMessage_short hlen] at h
    · cases ha : announced max bs with
      | none => rw [nextMessage_none hlen ha] at h; cases h
      | some ann =>
        obtain ⟨o, k⟩ := ann
        rw [nextMessage_some hlen ha] at h
        split at h
        · cases h
        · next hk =>
          split at h
          · next hv =>
            cases h
            exact ⟨o, rfl, Nat.not_lt.1 hk, hv, rfl⟩
          · cases h
  · rintro ⟨o, ha, hn, hv, rfl⟩
    have hle := (announced_eq_some.1 ha).2.1 ▸ firstField_le_messageLength
    rw [nextMessage_some (hle.trans hn) ha, if_neg (Nat.not_lt.2 hn), if_pos hv]

/-- A scanner for messages of at most `max` bytes. -/
def messageScanner (max : ℕ) : Scanner UInt8 DBusMessage where
  look := nextMessage max
  item_le h := by
    obtain ⟨o, ha, hn, -⟩ := nextMessage_eq_item.1 h
    have hle := (announced_eq_some.1 ha).2.1 ▸ firstField_le_messageLength
    exact ⟨Nat.lt_of_lt_of_le (by decide) hle, hn⟩
  item_append ys h := (nextMessage_append (by rw [h]; nofun)).trans h
  bad_append ys h := (nextMessage_append (by rw [h]; nofun)).trans h

end

end DBus
