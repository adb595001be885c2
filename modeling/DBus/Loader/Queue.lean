/-
  The loader queues the messages of the stream.

  With memory for all of it, `_dbus_message_loader_queue_messages` does what the scanner
  for messages does with the buffer, unless it stops at an assertion
  (`queueLoop_plenty`), which one of the validators fails on the message that it refuses.  Else
  it does not matter in which reads the stream arrives (`loadStream_delivers_iff`).
-/
import DBus.Loader.Nesting

namespace DBus

open Outcome Memory Endian Alloc Framing List DBusMessage DBusMessageLoader

/-! ## Steps with memory -/

theorem follows_allocCopyLen (source : DBusString) (start len : ℕ) (dest : List UInt8) (i : ℕ) :
    Follows .oom (allocCopyLen source start len dest i) (stringCopyLen source start len dest i) := by
  have hrs (bs : List UInt8) : Follows Stop.oom (do
      if len = 0 then pure () else allocate .oom
      return bs) (pure bs) := by
    split
    · exact follows_pure
    · exact Follows.allocate_bind follows_pure
  have h := Follows.lift_bind (y := stringCopyLen source start len dest i) hrs
  rwa [bind_pure] at h

theorem follows_allocLeftover (mode : ValidationMode) (byteOrder : ByteOrder)
    (headerLen bodyLen : ℕ) (str : DBusString) (start len : ℕ) :
    Follows .oom (allocLeftover mode byteOrder headerLen bodyLen str start len)
      (headerLeftover mode byteOrder headerLen bodyLen str start len) := by
  cases mode with
  | weTrustThisDataAbsolutely => exact follows_pure
  | dataIsUntrusted => exact (follows_allocBody ..).bind fun _ => follows_pure

theorem follows_allocHeaderLoad (header : DBusHeader) (mode : ValidationMode)
    (byteOrder : ByteOrder) (fieldsArrayLen headerLen bodyLen : ℕ) (str : DBusString)
    (start len : ℕ) :
    Follows .oom
      (allocHeaderLoad header mode byteOrder fieldsArrayLen headerLen bodyLen str start len)
      (headerLoad header mode byteOrder fieldsArrayLen headerLen bodyLen str start len) := by
  refine .lift_bind fun _ => .lift_bind fun _ => ?_
  refine .lift_bind fun _ => (follows_allocCopyLen ..).bind fun _ => ?_
  exact (follows_allocLeftover ..).bind fun _ => follows_lift

theorem ifMemory_plenty {α : Type} {x : Alloc Stop α} {y : Res α} {b : α} (h : Follows .oom x y)
    (hy : y = .ok b) : ifMemory x .plenty = (.ok (some b), .plenty) := by
  rw [ifMemory, bind_of_ok h.attempt_plenty, hy]
  rfl

/-! ## The buffer -/

variable {n max : ℕ} {o : ByteOrder} {l : DBusMessageLoader}

section
variable {bs : List UInt8} {behind : Behind}

section
variable (bs : List UInt8) (behind : Behind)

theorem begins_allocated : Begins (.allocated bs behind) bs :=
  ⟨le_refl _, (holds_append.1 holds_ofList).1⟩

theorem inBuffer_allocated (n : ℕ) : InBuffer (.allocated bs behind) (bs.take n) := by
  refine ⟨⟨length_take_le' .., ?_⟩, fun i _ hi => ?_⟩
  · have h := (begins_allocated bs behind).holds
    rw [← take_append_drop n bs, holds_append] at h
    rw [take_append_drop] at h
    exact h.1
  · have hlen : (DBusString.allocated bs behind).len = bs.length := rfl
    have hlt : i < (bs ++ 0 :: List.ofFn behind).length := by
      rw [length_append, length_cons, length_ofFn]
      unfold stringAllocationPadding
      omega
    exact (congrArg Option.isSome (ofList_of_lt hlt)).trans rfl

end

theorem maximumMessageLength_lt : maximumMessageLength < int32Max / 2 := by decide

section
variable (hmax : max ≤ maximumMessageLength) (hlen : firstFieldOffset ≤ bs.length)
include hmax hlen

theorem peek_eq (ho : orderOfByte (bs.getD byteOrderOffset 0) = some o) :
    headerHaveMessageUntrusted max (.allocated bs behind) 0 bs.length = do
      require (fieldsArrayLen o bs ≤ max) .invalidInsaneFieldsArrayLength
      require (numberAt o bs bodyLengthOffset ≤ max) .invalidInsaneBodyLength
      require (numberAt o bs bodyLengthOffset + headerLength o bs ≤ max) .invalidMessageTooLong
      assert (numberAt o bs bodyLengthOffset < int32Max)
      assert (fieldsArrayLen o bs < int32Max)
      assert (headerLength o bs < int32Max)
      return ⟨o, fieldsArrayLen o bs, headerLength o bs, numberAt o bs bodyLengthOffset,
        numberAt o bs bodyLengthOffset + headerLength o bs ≤ bs.length⟩ := by
  have hs := begins_allocated bs behind
  have hin {i : ℕ} (hi : i + 4 ≤ 16) : i + 4 ≤ bs.length := hi.trans hlen
  have hl' : fieldsArrayLengthOffset + 4 ≤ bs.length := hlen
  have hit := Nat.lt_of_le_of_lt hmax maximumMessageLength_lt
  rw [headerHaveMessageUntrusted, assert_bind (by decide), assert_bind (by decide),
    Nat.zero_add, hs.getByte (Nat.lt_of_lt_of_le (by decide) hlen), ok_bind, ho]
  dsimp only
  rw [assert_bind hl', Nat.zero_add, hs.readUint32 (by decide) (hin (by decide)), ok_bind]
  refine bind_congr fun _ => ?_
  rw [assert_bind (Nat.lt_of_lt_of_le (by decide) hlen), Nat.zero_add,
    hs.readUint32 (by decide) (hin (by decide)), ok_bind]
  refine bind_congr fun _ => ?_
  rw [assert_bind hit]
  rfl

theorem peek_announced (ha : announced max bs = some (o, n)) :
    headerHaveMessageUntrusted max (.allocated bs behind) 0 bs.length =
      .ok ⟨o, fieldsArrayLen o bs, headerLength o bs, numberAt o bs bodyLengthOffset,
        n ≤ bs.length⟩ := by
  obtain ⟨ho, rfl, hn⟩ := announced_eq_some.1 ha
  have hge : firstFieldOffset + fieldsArrayLen o bs ≤ headerLength o bs := firstField_le_headerLength
  have hlt : max < int32Max :=
    Nat.lt_of_le_of_lt hmax (Nat.lt_of_lt_of_le maximumMessageLength_lt (by decide))
  rw [messageLength, Nat.add_comm] at hn ⊢
  rw [peek_eq hmax hlen ho, require_of (by omega), ok_bind, require_of (by omega), ok_bind,
    require_of hn, ok_bind, assert_bind (by omega), assert_bind (by omega),
    assert_bind (by omega)]
  rfl

end

theorem peek_not_announced (behind : Behind) (hmax : max ≤ maximumMessageLength) (hlen : firstFieldOffset ≤ bs.length)
    (ha : announced max bs = none) :
    ∃ v hv, v ≠ .validityUnknownOomError ∧
      headerHaveMessageUntrusted max (.allocated bs behind) 0 bs.length = .error (.invalid v hv) := by
  cases ho : orderOfByte (bs.getD byteOrderOffset 0) with
  | none =>
    have hs := begins_allocated bs behind
    rw [headerHaveMessageUntrusted, assert_bind (by decide), assert_bind (by decide),
      Nat.zero_add, hs.getByte (Nat.lt_of_lt_of_le (by decide) hlen), ok_bind, ho]
    exact ⟨_, _, by decide, rfl⟩
  | some o =>
    rw [peek_eq hmax hlen ho]
    by_cases h1 : fieldsArrayLen o bs ≤ max
    · by_cases h2 : numberAt o bs bodyLengthOffset ≤ max
      · have h3 : ¬ numberAt o bs bodyLengthOffset + headerLength o bs ≤ max := fun h3 => by
          have := announced_eq_some.2 ⟨ho, rfl, (Nat.add_comm _ _).trans_le h3⟩
          simp [ha] at this
        rw [require_of h1, ok_bind, require_of h2, ok_bind, require, ensure_not h3]
        exact ⟨_, _, by decide, rfl⟩
      · rw [require_of h1, ok_bind, require, ensure_not h2]
        exact ⟨_, _, by decide, rfl⟩
    · rw [require, ensure_not h1]
      exact ⟨_, _, by decide, rfl⟩

end

/-! ## One message -/

/-- The bytes `bs` are as long as they announce. -/
structure Framed (o : ByteOrder) (bs : List UInt8) : Prop where
  order : bs.getD byteOrderOffset 0 = orderByte o
  length : messageLength o bs = bs.length
  small : bs.length ≤ maximumMessageLength

/-- What the peek finds at the start of the bytes `bs` that are a message. -/
def peekOf (o : ByteOrder) (bs : List UInt8) : Peek :=
  ⟨o, fieldsArrayLen o bs, headerLength o bs, numberAt o bs bodyLengthOffset, true⟩

section
variable {native : ByteOrder} {bs rest : List UInt8} {behind : Behind}

section
variable (h : Framed o bs)
include h

theorem Framed.peeked : Peeked bs (peekOf o bs) := by
  have hlen := h.length
  have hsm := Nat.lt_of_le_of_lt h.small maximumMessageLength_lt
  rw [messageLength] at hlen
  refine ⟨h.order, ?_, rfl, rfl, rfl, ?_, (decide_eq_true ?_).symm⟩
  · rw [← h.length]
    exact firstField_le_messageLength
  · change headerLength o bs < _
    omega
  · change numberAt o bs bodyLengthOffset + headerLength o bs ≤ _
    omega

theorem Framed.length_bodyOf : (bodyOf o bs).length = numberAt o bs bodyLengthOffset := by
  have hlen := h.length
  rw [messageLength] at hlen
  rw [bodyOf, length_drop]
  omega

theorem Framed.body_le : (bodyOf o bs).length ≤ stringMaxMaxLength := by
  have hle : (bodyOf o bs).length ≤ bs.length := by rw [bodyOf, length_drop]; omega
  exact hle.trans (h.small.trans (by decide))

end

/-- What may become of the message `bs` at the start of the buffer: an assertion of the
    validators fails, or the message is valid and is queued, or it is not and the loader is
    corrupted. -/
def Loaded (o : ByteOrder) (bs : List UInt8) (behind : Behind) (l : DBusMessageLoader)
    (out : Res (Bool × DBusMessageLoader)) : Prop :=
  (¬ Judged o (.allocated l.data behind) bs ∧ out = .error .assertion) ∨
  Judged o (.allocated l.data behind) bs ∧
    ((MessageValid o bs ∧ out = .ok (true, l.take (messageOf o bs) bs.length)) ∨
    (¬ MessageValid o bs ∧ ∃ v hv, v ≠ .validityUnknownOomError ∧ out = .ok (false, l.corrupt v hv)))

theorem Framed.inBuffer (hdt : l.data = bs ++ rest) : InBuffer (.allocated l.data behind) bs := by
  have h := inBuffer_allocated l.data behind bs.length
  rwa [(by rw [hdt, take_left] : l.data.take bs.length = bs)] at h

section
variable (hf : Framed o bs)
include hf

theorem Framed.le_buffer (hdt : l.data = bs ++ rest) :
    (peekOf o bs).headerLen + (peekOf o bs).bodyLen ≤ l.data.length := by
  rw [hdt, length_append]
  exact hf.length.le.trans (Nat.le_add_right ..)

theorem queueMessage_plenty (hdt : l.data = bs ++ rest) :
    queueMessage l (peekOf o bs) (.allocated l.data behind) (.newEmptyHeader native)
      (loadedHeader o bs) .plenty = (.ok (true, l.take (messageOf o bs) bs.length), .plenty) := by
  have hs : InBuffer (.allocated l.data behind) bs := Framed.inBuffer hdt
  have hle : headerLength o bs ≤ bs.length := hf.peeked.headerLength_le rfl
  have hb : (peekOf o bs).bodyLen = (bodyOf o bs).length := hf.length_bodyOf.symm
  have hcp : stringCopyLen (.allocated l.data behind) (peekOf o bs).headerLen
      (peekOf o bs).bodyLen (newEmptyHeader native).body 0 = .ok (bodyOf o bs) := by
    have h := hs.stringCopyLen (i := headerLength o bs) (n := (bodyOf o bs).length)
      (by rw [bodyOf, length_drop]; omega) hf.body_le
    rw [hb]
    refine h.trans (congrArg Except.ok ?_)
    exact take_length
  have hda : (loadedHeader o bs).data.length = (peekOf o bs).headerLen := by
    rw [loadedHeader_data]
    exact length_take_of_le hle
  have htt : (peekOf o bs).headerLen + (peekOf o bs).bodyLen = bs.length := hf.length
  have h0 : (newEmptyHeader native).body.length = 0 := rfl
  rw [queueMessage, bind_of_ok (ifMemory_plenty (follows_allocate _) rfl), if_neg (by simp),
    Alloc.lift_bind (assert_of h0), data_append, Alloc.lift_bind (assert_of (hf.le_buffer hdt)),
    bind_of_ok (ifMemory_plenty (follows_allocCopyLen ..) hcp)]
  dsimp only
  rw [Alloc.lift_bind (assert_of hda), Alloc.lift_bind (assert_of hb.symm), htt,
    removeLast_append]
  rfl

theorem Framed.validity (behind : Behind) (hdt : l.data = bs ++ rest) (hv : HeaderValid o bs) :
    ∃ s d x, (loadedHeader o bs).getConstSignature = .ok (s, d, loadedHeader o bs) ∧
      allocBodyWithReason s d (peekOf o bs).byteOrder (.allocated l.data behind)
        (peekOf o bs).headerLen (peekOf o bs).bodyLen .plenty = (Res.validity x, .plenty) ∧
      Sat x (fun _ : Unit => MessageValid o bs) (fun st => st.Plain ∧ ¬ MessageValid o bs) ∧
      (Calm x ↔ Judged o (.allocated l.data behind) bs) := by
  have hs : InBuffer (.allocated l.data behind) bs := Framed.inBuffer hdt
  have hle : headerLength o bs ≤ bs.length := hf.peeked.headerLength_le rfl
  have hb : (peekOf o bs).bodyLen = (bodyOf o bs).length := hf.length_bodyOf.symm
  obtain ⟨s, d, hg, hsg, ht⟩ := hv.getConstSignature hle
  have hi : MessageValid o bs ↔ BodyAccepted o (bodySignature o bs) (bodyOf o bs) :=
    ⟨fun h => h.body, fun h => ⟨hv, h⟩⟩
  rw [hi]
  have hj : Judged o (.allocated l.data behind) bs ↔
      Calm (bufferedTrace o (.allocated l.data behind) bs).out := by
    refine ⟨fun h => h.body hv, fun h => ⟨?_, fun _ => h⟩⟩
    obtain ⟨stop, hac⟩ := hv.accepted
    exact avoids_of_eq_ok (out_headerTrace.trans ((hs.accepted_iff hac.fieldsAt.2.1).2 hac))
  refine ⟨s, d, _, hg, ?_, hs.bodyRun hle hf.body_le hsg ht rfl,
    (hs.body_calm_iff hle hsg ht).trans hj.symm⟩
  rw [hb]
  exact allocValidity_plenty (follows_allocBody_end ..)

theorem loadBody_plenty (hdt : l.data = bs ++ rest) (hv : HeaderValid o bs) :
    ∃ out, loadBody l (peekOf o bs) (.allocated l.data behind) (.newEmptyHeader native)
        (loadedHeader o bs) .plenty = (out, .plenty) ∧ Loaded o bs behind l out := by
  obtain ⟨s, d, x, hg, hvl, hrn, hqt⟩ := hf.validity behind hdt hv
  rw [loadBody, Alloc.lift_bind hg]
  dsimp only
  cases x with
  | ok u =>
    rw [bind_of_ok hvl, dif_neg (not_not_intro rfl), queueMessage_plenty hf hdt]
    exact ⟨_, rfl, .inr ⟨hqt.1 (avoids_ok u), .inl ⟨hrn, rfl⟩⟩⟩
  | error st =>
    cases st with
    | assertion => exact ⟨_, bind_of_error hvl _, .inl ⟨fun hj => hqt.2 hj rfl, rfl⟩⟩
    | invalid v hv =>
      rw [bind_of_ok hvl, dif_pos hv]
      exact ⟨_, rfl, .inr ⟨hqt.1 (avoids_error (by rintro ⟨⟩)), .inr ⟨hrn.2, v, hv, hrn.1, rfl⟩⟩⟩
    | _ => exact hrn.1.elim

theorem Framed.headerLoad_sat (native : ByteOrder) (behind : Behind) (hdt : l.data = bs ++ rest) :
    Sat (headerLoad (newEmptyHeader native).header .dataIsUntrusted
        (peekOf o bs).byteOrder (peekOf o bs).fieldsArrayLen (peekOf o bs).headerLen
        (peekOf o bs).bodyLen (.allocated l.data behind) 0 l.data.length)
      (fun h => HeaderValid o bs ∧ loadedHeader o bs = h)
      fun st => st.Plain ∧ ¬ MessageValid o bs := by
  have hs : InBuffer (.allocated l.data behind) bs := Framed.inBuffer hdt
  refine Sat.mono (Sat.of_ok_iff (hs.headerLoad_sat hf.peeked rfl rfl).1 fun _ =>
    hs.headerLoad_eq_ok hf.peeked rfl) (fun _ h => h) fun st hst => ⟨hst.1, fun h => ?_⟩
  exact hst.2 _ ⟨h.header, rfl⟩

end

theorem loadMessage_plenty (native : ByteOrder) (behind : Behind) (hf : Framed o bs)
    (hdt : l.data = bs ++ rest) :
    ∃ out, loadMessage native behind l (peekOf o bs) .plenty = (out, .plenty) ∧
      Loaded o bs behind l out := by
  have hsa := hf.headerLoad_sat native behind hdt
  have h0 : (newEmptyHeader native).header.data.length = 0 := rfl
  rw [loadMessage, Alloc.lift_bind (assert_of h0), Alloc.lift_bind (assert_of (hf.le_buffer hdt)),
    attempt_bind (follows_allocHeaderLoad ..).plenty]
  obtain ⟨header, hr, hv, rfl⟩ | ⟨st, hr, hst, hb⟩ := hsa.cases
  · rw [hr]
    exact loadBody_plenty hf hdt hv
  · have hs : InBuffer (.allocated l.data behind) bs := Framed.inBuffer hdt
    have hav := (hs.headerLoad_sat hf.peeked rfl hr.symm).2
    rw [← out_headerTrace] at hav
    rw [hr]
    cases st with
    | assertion => exact ⟨_, rfl, .inl ⟨fun hj => hav.2 hj.header rfl, rfl⟩⟩
    | invalid v hv =>
      dsimp only
      rw [if_neg hst]
      have hj : Judged o (.allocated l.data behind) bs := by
        refine ⟨hav.1 (avoids_error (by rintro ⟨⟩)), fun hv => ?_⟩
        cases hr.symm.trans ((hs.headerLoad_eq_ok hf.peeked rfl).2 ⟨hv, rfl⟩)
      exact ⟨_, rfl, .inr ⟨hj, .inr ⟨hb, v, hv, hst, rfl⟩⟩⟩
    | _ => exact hst.elim

theorem loadMessage_valid (native : ByteOrder) (behind : Behind) (hf : Framed o bs)
    (hdt : l.data = bs ++ rest) (hv : MessageValid o bs) :
    loadMessage native behind l (peekOf o bs) .plenty =
      (.ok (true, l.take (messageOf o bs) bs.length), .plenty) := by
  have hj : Judged o (.allocated l.data behind) bs := by
    obtain ⟨s, d, x, -, -, hrn, hqt⟩ := hf.validity behind hdt hv.header
    obtain ⟨u, rfl, -⟩ | ⟨-, -, -, hb⟩ := hrn.cases
    · exact hqt.1 (avoids_ok u)
    · exact absurd hv hb
  obtain ⟨out, hl, ⟨hnj, -⟩ | ⟨-, ⟨-, rfl⟩ | ⟨hb, -⟩⟩⟩ := loadMessage_plenty native behind hf hdt
  · exact absurd hj hnj
  · exact hl
  · exact absurd hv hb

end

/-! ## The loop -/

section
variable {native : ByteOrder} {k : ℕ} {bs : List UInt8} {behind : List UInt8 → Behind}
  {l' : DBusMessageLoader}

theorem announced_framed (hmax : max ≤ maximumMessageLength) (hlen : firstFieldOffset ≤ bs.length)
    (ha : announced max bs = some (o, n)) (hn : n ≤ bs.length) :
    Framed o (bs.take n) ∧ ∀ b : Behind,
      headerHaveMessageUntrusted max (.allocated bs b) 0 bs.length = .ok (peekOf o (bs.take n)) := by
  obtain ⟨ho, hnl, hle⟩ := announced_eq_some.1 ha
  have hfr : firstFieldOffset ≤ n := hnl ▸ firstField_le_messageLength
  have htk : (bs.take n).length = n := length_take_of_le hn
  have hsp : bs.take n ++ bs.drop n = bs := take_append_drop ..
  have hnm {i : ℕ} (hi : i + 4 ≤ firstFieldOffset) : numberAt o (bs.take n) i = numberAt o bs i := by
    conv_rhs => rw [← hsp, numberAt_append (hi.trans (hfr.trans htk.ge))]
  have hb : (bs.take n).getD byteOrderOffset 0 = bs.getD byteOrderOffset 0 := by
    have h0 : byteOrderOffset < n := Nat.lt_of_lt_of_le (by decide) hfr
    rw [getD_eq_getElem?_getD, getElem?_take_of_lt h0, getD_eq_getElem?_getD]
  have hw := messageLength_take (o := o) hn hfr
  constructor
  · exact ⟨hb.trans (orderOfByte_eq_some ho), by rw [hw.2, htk, hnl],
      by rw [htk]; exact hle.trans hmax⟩
  · intro b
    have hfl : fieldsArrayLen o (bs.take n) = fieldsArrayLen o bs := hnm (by decide)
    rw [peek_announced hmax hlen ha, peekOf, hw.1, hfl, hnm (by decide), decide_eq_true hn]

/-- The peek finds that all of a message has arrived. -/
structure Arrived (l : DBusMessageLoader) (o : ByteOrder) (k : ℕ) : Prop where
  clean : l.corrupted = false
  announced : announced l.maxMessageSize l.data = some (o, k)
  le : k ≤ l.data.length

section
variable (h : Arrived l o k)
include h

theorem Arrived.len : firstFieldOffset ≤ l.data.length :=
  ((announced_eq_some.1 h.announced).2.1 ▸ firstField_le_messageLength).trans h.le

theorem Arrived.framed : Framed o (l.data.take k) :=
  (announced_framed l.max_le h.len h.announced h.le).1

theorem Arrived.nextMessage : DBus.nextMessage l.maxMessageSize l.data =
      if MessageValid o (l.data.take k) then .item (messageOf o (l.data.take k)) k else .bad := by
  rw [nextMessage_some h.len h.announced, if_neg (Nat.not_lt.2 h.le)]

end

section
variable (native : ByteOrder)

theorem queueLoop_cases (behind : List UInt8 → Behind) (l : DBusMessageLoader) :
    ((l.corrupted = true ∨ nextMessage l.maxMessageSize l.data = .wait) ∧
      ∀ n, queueLoop native behind (n + 1) l = return (true, l)) ∨
    (firstFieldOffset ≤ l.data.length ∧ announced l.maxMessageSize l.data = none ∧
      ∃ v hv, v ≠ .validityUnknownOomError ∧
        ∀ n, queueLoop native behind (n + 1) l = return (true, l.corrupt v hv)) ∨
    ∃ o k, Arrived l o k ∧ ∀ n, queueLoop native behind (n + 1) l =
      queueOne native (behind l.data) (queueLoop native behind n) l (peekOf o (l.data.take k)) := by
  by_cases hgo : l.corrupted = false ∧ minimumHeaderSize ≤ l.data.length
  · have hlen : firstFieldOffset ≤ l.data.length := hgo.2
    cases ha : announced l.maxMessageSize l.data with
    | none =>
      obtain ⟨v, hv, hne, hp⟩ := peek_not_announced (behind l.data) l.max_le hlen ha
      refine .inr (.inl ⟨hlen, rfl, v, hv, hne, fun n => ?_⟩)
      rw [queueLoop, if_pos hgo, hp]
    | some ann =>
      obtain ⟨o, k⟩ := ann
      by_cases hk : k ≤ l.data.length
      · refine .inr (.inr ⟨o, k, ⟨hgo.1, ha, hk⟩, fun n => ?_⟩)
        have hcm : (peekOf o (l.data.take k)).complete = true := rfl
        rw [queueLoop, if_pos hgo, (announced_framed l.max_le hlen ha hk).2]
        dsimp only
        rw [if_pos hcm]
      · refine .inl ⟨.inr ?_, fun n => ?_⟩
        · rw [nextMessage_some hlen ha, if_pos (Nat.not_le.1 hk)]
        · rw [queueLoop, if_pos hgo, peek_announced l.max_le hlen ha]
          dsimp only
          rw [if_neg (by rw [decide_eq_true_iff]; exact hk)]
  · refine .inl ⟨?_, fun n => by rw [queueLoop, if_neg hgo]⟩
    cases hl : l.corrupted with
    | true => exact .inl rfl
    | false => exact .inr (nextMessage_short (Nat.not_le.1 fun h => hgo ⟨hl, h⟩))

theorem queueOne_load (behind : Behind)
    (next : DBusMessageLoader → Alloc Stop (Bool × DBusMessageLoader)) (l : DBusMessageLoader)
    (p : Peek) :
    queueOne native behind next l p .plenty = (loadMessage native behind l p >>= fun (loaded, l) =>
      if loaded then next l else return (l.corrupted, l)) .plenty := by
  rw [queueOne, bind_of_ok (ifMemory_plenty (follows_allocate _) rfl), if_neg nofun]

theorem queueOne_plenty (behind : Behind) (h : Arrived l o k) :
    ((¬ MessageValid o (l.data.take k) ∧ ¬ Judged o (.allocated l.data behind) (l.data.take k)) ∧
      ∀ next, queueOne native behind next l (peekOf o (l.data.take k)) .plenty =
        (.error .assertion, .plenty)) ∨
    (MessageValid o (l.data.take k) ∧
      ∀ next, queueOne native behind next l (peekOf o (l.data.take k)) .plenty =
        next (l.take (messageOf o (l.data.take k)) k) .plenty) ∨
    ((¬ MessageValid o (l.data.take k) ∧ Judged o (.allocated l.data behind) (l.data.take k)) ∧
      ∃ v hv, v ≠ .validityUnknownOomError ∧ ∀ next, queueOne native behind next l (peekOf o (l.data.take k)) .plenty =
        (.ok (true, l.corrupt v hv), .plenty)) := by
  obtain ⟨out, hl, hot⟩ :=
    loadMessage_plenty native behind h.framed (take_append_drop k l.data).symm
  have ho := fun next => queueOne_load native behind next l (peekOf o (l.data.take k))
  rcases hot with ⟨hn, rfl⟩ | ⟨hj, ⟨hv, rfl⟩ | ⟨hnt, v, hv, hne, rfl⟩⟩
  · refine .inl ⟨⟨fun hv => ?_, hn⟩, fun next => (ho next).trans (bind_of_error hl _)⟩
    rw [loadMessage_valid native behind h.framed (take_append_drop k l.data).symm hv] at hl
    cases hl
  · rw [length_take_of_le h.le] at hl
    exact .inr (.inl ⟨hv, fun next => (ho next).trans (bind_of_ok hl _)⟩)
  · exact .inr (.inr ⟨⟨hnt, hj⟩, v, hv, hne, fun next => (ho next).trans (bind_of_ok hl _)⟩)

end

theorem Arrived.length_take (h : Arrived l o k) (msg : DBusMessage) :
    (l.take msg k).data.length < l.data.length := by
  have hk := (announced_eq_some.1 h.announced).2.1 ▸ firstField_le_messageLength
  have hle := h.le
  have hlen : (l.take msg k).data.length = l.data.length - k := length_drop
  have hp : 0 < k := Nat.lt_of_lt_of_le (by decide) hk
  omega

/-- The loader `l'` is what `l` becomes if its buffer is cut as `c` says. -/
structure Queued (l : DBusMessageLoader) (c : Cut UInt8 DBusMessage) (l' : DBusMessageLoader) :
    Prop where
  messages : l'.messages = l.messages ++ c.items
  corrupted : l'.corrupted = c.bad
  data : l'.data = c.rest
  max : l'.maxMessageSize = l.maxMessageSize

theorem queueLoop_plenty (native : ByteOrder) (behind : List UInt8 → Behind)
    (hl : l.corrupted = false) (hn : l.data.length < n) :
    ∃ out, queueLoop native behind n l .plenty = (out, .plenty) ∧
      (out = .error .assertion ∧ ((messageScanner l.maxMessageSize).cut l.data).bad = true ∧
        ¬ Front Judged l.maxMessageSize behind ((messageScanner l.maxMessageSize).cut l.data).rest ∨
      Front Judged l.maxMessageSize behind ((messageScanner l.maxMessageSize).cut l.data).rest ∧
        ∃ l', out = .ok (true, l') ∧ Queued l ((messageScanner l.maxMessageSize).cut l.data) l') := by
  induction n generalizing l with
  | zero => exact absurd hn (Nat.not_lt_zero _)
  | succ n ih =>
    rcases queueLoop_cases native behind l with ⟨hw, hrn⟩ | ⟨hlen, ha, v, hv, -, hrn⟩ |
      ⟨o, k, har, hrn⟩
    · have hw : nextMessage l.maxMessageSize l.data = .wait :=
        hw.resolve_left (by rw [hl]; rintro ⟨⟩)
      rw [cut_wait hw]
      refine ⟨_, by rw [hrn]; rfl, .inr ⟨front_of_wait hw, l, rfl, ?_⟩⟩
      exact ⟨(append_nil _).symm, hl, rfl, rfl⟩
    · rw [cut_bad (nextMessage_none hlen ha), Front, ha]
      refine ⟨_, by rw [hrn]; rfl, .inr ⟨trivial, l.corrupt v hv, rfl, ?_⟩⟩
      exact ⟨(append_nil _).symm, rfl, rfl, rfl⟩
    · have hnx := har.nextMessage
      rw [hrn]
      rcases queueOne_plenty native (behind l.data) har with
        ⟨⟨hnt, hnj⟩, ho⟩ | ⟨hv, ho⟩ | ⟨⟨hnt, hj⟩, v, hv, -, ho⟩
      · rw [if_neg hnt] at hnx
        rw [cut_bad hnx, Front, har.announced]
        exact ⟨_, ho _, .inl ⟨rfl, rfl, fun h => hnj (h har.le)⟩⟩
      · rw [if_pos hv] at hnx
        have hlt := har.length_take (messageOf o (l.data.take k))
        obtain ⟨out, hot, hct⟩ := ih (l := l.take (messageOf o (l.data.take k)) k) hl (by omega)
        rw [cut_item hnx]
        refine ⟨out, (ho _).trans hot, hct.imp id ?_⟩
        rintro ⟨hf, l', rfl, hq⟩
        refine ⟨hf, l', rfl, ?_⟩
        exact ⟨hq.messages.trans (append_assoc ..), hq.corrupted, hq.data, hq.max⟩
      · rw [if_neg hnt] at hnx
        rw [cut_bad hnx, Front, har.announced]
        exact ⟨_, ho _, .inr ⟨fun _ => hj, _, rfl, (append_nil _).symm, rfl, rfl, rfl⟩⟩

theorem queueLoop_corrupted (hl : l.corrupted = true) :
    queueLoop native behind (n + 1) l .plenty = (.ok (true, l), .plenty) := by
  have hgo : ¬ (l.corrupted = false ∧ minimumHeaderSize ≤ l.data.length) := fun h => by
    rw [hl] at h
    exact nomatch h.1
  rw [queueLoop, if_neg hgo]
  rfl

end

/-! ## The stream -/

section
variable {native : ByteOrder} {size : ℕ} {xs : List UInt8} {l0 : DBusMessageLoader}

/-- The loader has cut the stream `xs`. -/
structure Delivers (max : ℕ) (xs : List UInt8) (l : DBusMessageLoader) : Prop where
  /-- the queued messages depend on the stream only -/
  messages : l.messages = ((messageScanner max).cut xs).items
  /-- and so does the corrupted flag -/
  corrupted : l.corrupted = ((messageScanner max).cut xs).bad
  /-- no byte is lost or added -/
  conserved : (l.messages.map bytes).flatten ++ l.data = xs
  /-- messages at the start of the stream are queued -/
  complete : ∀ (parts : List (ByteOrder × List UInt8)) (rest : List UInt8),
    (∀ part ∈ parts, announced max part.2 = some (part.1, part.2.length) ∧
      MessageValid part.1 part.2) → xs = (parts.map Prod.snd).flatten ++ rest →
    parts.map (fun part => messageOf part.1 part.2) <+: l.messages

theorem delivers_of_queued (h0 : l0.messages = [])
    (h : Queued l0 ((messageScanner max).cut xs) l) : Delivers max xs l := by
  have hm : l.messages = ((messageScanner max).cut xs).items := by
    rw [h.messages, h0, nil_append]
  refine ⟨hm, h.corrupted, ?_, fun parts rest hpr hxs => ?_⟩
  · rw [hm, h.data]
    refine flatten_cut (S := messageScanner max) (fun hi => ?_) xs
    obtain ⟨o, -, -, -, rfl⟩ := nextMessage_eq_item.1 hi
    exact bytes_messageOf ..
  · rw [hm, hxs]
    have h := items_prefix_cut (S := messageScanner max)
      (parts.map fun part => (messageOf part.1 part.2, part.2)) (fun part hp => ?_) rest
    · rwa [map_map, map_map] at h
    · obtain ⟨⟨o, bs⟩, hmm, rfl⟩ := mem_map.1 hp
      obtain ⟨ha, hv⟩ := hpr _ hmm
      exact nextMessage_eq_item.2 ⟨o, ha, le_refl _, by rwa [take_length], by rw [take_length]⟩

theorem read_queued (r : Read) (h : Queued l0 ((messageScanner l0.maxMessageSize).cut xs) l) :
    (l.read native r = .error .assertion ∧
      ((messageScanner l0.maxMessageSize).cut (xs ++ r.bytes)).bad = true ∧
      ¬ (((messageScanner l0.maxMessageSize).cut xs).bad = false → Front Judged l0.maxMessageSize
        r.behind ((messageScanner l0.maxMessageSize).cut (xs ++ r.bytes)).rest)) ∨
    (((messageScanner l0.maxMessageSize).cut xs).bad = false → Front Judged l0.maxMessageSize
        r.behind ((messageScanner l0.maxMessageSize).cut (xs ++ r.bytes)).rest) ∧
    ∃ l', l.read native r = .ok l' ∧
      Queued l0 ((messageScanner l0.maxMessageSize).cut (xs ++ r.bytes)) l' := by
  have hfd := feed_cut (S := messageScanner l0.maxMessageSize) xs r.bytes
  rw [DBusMessageLoader.read, queueMessages]
  rw [Cut.feed] at hfd
  cases hb : ((messageScanner l0.maxMessageSize).cut xs).bad with
  | true =>
    have hcr : (l.fill r.bytes).corrupted = true := h.corrupted.trans hb
    rw [queueLoop_corrupted hcr]
    rw [if_pos hb] at hfd
    refine .inr ⟨by rintro ⟨⟩, _, rfl, hfd ▸ ⟨h.messages, h.corrupted, ?_, h.max⟩⟩
    exact congrArg (· ++ r.bytes) h.data
  | false =>
    have hcr : (l.fill r.bytes).corrupted = false := h.corrupted.trans hb
    rw [if_neg (by rw [hb]; rintro ⟨⟩)] at hfd
    obtain ⟨out, hot, hq⟩ := queueLoop_plenty native r.behind hcr (Nat.lt_succ_self _)
    rw [hot]
    have hdt : (l.fill r.bytes).data = ((messageScanner l0.maxMessageSize).cut xs).rest ++ r.bytes :=
      congrArg (· ++ r.bytes) h.data
    have hmax : (l.fill r.bytes).maxMessageSize = l0.maxMessageSize := h.max
    rw [hdt, hmax] at hq
    rw [← hfd]
    rcases hq with ⟨rfl, hbd, hnn⟩ | ⟨hf, l', rfl, hq⟩
    · exact .inl ⟨rfl, hbd, fun h => hnn (h rfl)⟩
    · have ho : (l.fill r.bytes).messages = l0.messages ++ _ := h.messages
      refine .inr ⟨fun _ => hf, l', rfl, ?_, hq.corrupted, hq.data, hq.max.trans hmax⟩
      rw [hq.messages, ho, append_assoc]

/-- An assertion fails exactly if one of the validators fails it, and only where the stream
    is bad. -/
theorem reads_cut (reads : List Read)
    (h : Queued l0 ((messageScanner l0.maxMessageSize).cut xs) l) :
    (reads.foldlM (read native) l = .error .assertion ∧
      ((messageScanner l0.maxMessageSize).cut (xs ++ (reads.map Read.bytes).flatten)).bad = true ∧
      ¬ Fronts Judged l0.maxMessageSize xs reads) ∨
    Fronts Judged l0.maxMessageSize xs reads ∧
      ∃ l', reads.foldlM (read native) l = .ok l' ∧
        Queued l0 ((messageScanner l0.maxMessageSize).cut (xs ++ (reads.map Read.bytes).flatten)) l' := by
  induction reads generalizing xs l with
  | nil => exact .inr ⟨trivial, l, rfl, by rwa [map_nil, flatten_nil, append_nil]⟩
  | cons r reads ih =>
    rw [foldlM_cons, map_cons, flatten_cons, ← append_assoc]
    rcases read_queued r h with ⟨hr, hb, hn⟩ | ⟨hf, l', hr, hq⟩
    · exact .inl ⟨by rw [hr]; rfl, bad_cut_append hb _, fun h => hn h.1⟩
    · rw [hr, ok_bind]
      exact (ih hq).imp (fun ⟨he, hb, hn⟩ => ⟨he, hb, fun h => hn h.2⟩) fun ⟨hfs, h⟩ => ⟨⟨hf, hfs⟩, h⟩

theorem queued_new (size : ℕ) : Queued (new.setMaxMessageSize size)
    ((messageScanner (min size maximumMessageLength)).cut []) (new.setMaxMessageSize size) := by
  rw [cut_wait rfl]
  exact ⟨rfl, rfl, rfl, rfl⟩

/-- **The reads do not matter.**  The loader has in the end cut the stream that the reads
    make up, exactly if the validators fail no assertion on the message where the stream turns
    bad; and they fail none if the brackets nest in the signatures that they meet there. -/
theorem loadStream_delivers_iff (native : ByteOrder) (size : ℕ) (reads : List Read) :
    ((∃ l, loadStream native size reads = .ok l ∧
        Delivers (min size maximumMessageLength) (reads.map Read.bytes).flatten l) ↔
      Fronts Judged (min size maximumMessageLength) [] reads) ∧
    (Fronts Nests (min size maximumMessageLength) [] reads →
      Fronts Judged (min size maximumMessageLength) [] reads) := by
  constructor
  · rcases reads_cut reads (queued_new size) with ⟨he, -, hn⟩ | ⟨hf, l, hl, hq⟩
    · refine iff_of_false ?_ hn
      rintro ⟨l, hl, -⟩
      cases he.symm.trans hl
    · exact iff_of_true ⟨l, hl, delivers_of_queued rfl hq⟩ hf
  · refine fun h => h.mono fun {o n data} b ha hle hn => ?_
    have hfr := announced_framed (Nat.min_le_right ..)
      (((announced_eq_some.1 ha).2.1 ▸ firstField_le_messageLength).trans hle) ha hle
    exact hn.judged (inBuffer_allocated data b n) (hfr.1.peeked.headerLength_le rfl)

/-- A message that is refused for its header.  The validator follows a variant out of the
    message, and meets the signature of a struct. -/
def refusedCall : List UInt8 :=
  [108, 1, 0, 1, 0, 0, 0, 0, 1, 0, 0, 0, 4, 0, 0, 0, 200, 1, 118, 0, 6, 40, 97, 105,
   121, 105, 41, 0, 0, 0, 0, 0, 0, 0, 0, 0, 8, 0, 0, 0, 0, 0, 0, 0, 0, 0, 0, 0]

/-- Two reads: a call with the first bytes of what is refused, and the rest. -/
def refusedReads : List Read :=
  [⟨shortCall ++ refusedCall.take 5, fun _ _ => 0⟩, ⟨refusedCall.drop 5, fun _ _ => 0⟩]

theorem refusedReads_delivered :
    Fronts Nests (min 1000 maximumMessageLength) [] refusedReads ∧
      ∃ l, loadStream .little 1000 refusedReads = .ok l ∧
        Delivers (min 1000 maximumMessageLength) (refusedReads.map Read.bytes).flatten l := by
  have h : Fronts Nests (min 1000 maximumMessageLength) [] refusedReads := by decide +kernel
  obtain ⟨hiff, hn⟩ := loadStream_delivers_iff .little 1000 refusedReads
  exact ⟨h, hiff.2 (hn h)⟩

/-- The first read of a stream whose header has a variant with crossed brackets. -/
def crossedStart : List UInt8 :=
  [108, 1, 0, 1, 0, 0, 0, 0, 1, 0, 0, 0, 4, 0, 0, 0, 200, 1, 118, 0, 6, 40, 97, 123]

def crossedRest : List UInt8 :=
  [41, 105, 125, 0, 0, 0, 0, 0, 8, 0, 0, 0, 0, 0, 0, 0, 0, 0, 0, 0, 0, 0, 0, 0]

theorem crossedStream_not_delivered :
    (loadStream .little 1000 [⟨crossedStart, fun _ _ => 0⟩, ⟨crossedRest, fun _ _ => 0⟩]).map
        (fun l => (l.messages.length, l.corrupted)) = .ok (0, true) ∧
      (loadStream .little 1000 [⟨crossedStart ++ crossedRest, fun _ _ => 0⟩]).map
        (fun l => (l.messages.length, l.corrupted)) = .error .assertion := by
  constructor <;> decide +kernel

end

end DBus
