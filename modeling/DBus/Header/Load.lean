/-
  Loading a header: the length peek, the items before the fields, and all of
  `_dbus_header_load`.

  On a complete message the function returns a header exactly if the bytes start with an
  admissible one (`HeaderValid`) that does not use the reserved interface or path, or one
  that starts like these.
-/
import DBus.Header.Accept

namespace DBus

open Outcome Memory Align Endian Value List DBusHeader

/-! ## Numbers in a byte string -/

/-- The string `s` starts with the bytes `bs`. -/
structure Begins (s : DBusString) (bs : List UInt8) : Prop where
  le : bs.length ≤ s.len
  holds : Holds s.str 0 bs

theorem begins_ofBytes (bs : List UInt8) : Begins (.ofBytes bs) bs :=
  ⟨le_refl _, (holds_append.1 (holds_ofBytes bs)).1⟩

variable {s : DBusString} {h : DBusHeader} {o : ByteOrder} {bs : List UInt8}

section
variable {i : ℕ}

theorem numberAt_lt : numberAt o bs i < 2 ^ 32 := by
  have hlen : ((bs.drop i).take 4).length ≤ 4 := length_take_le ..
  calc numberAt o bs i < 256 ^ ((bs.drop i).take 4).length := fromBytes_lt o _
    _ ≤ 256 ^ 4 := Nat.pow_le_pow_right (by decide) hlen
    _ = 2 ^ 32 := by decide

section
variable (hs : Begins s bs) {n : ℕ}
include hs

theorem Begins.drop (h : i + n ≤ bs.length) : Holds s.str i ((bs.drop i).take n) := by
  intro k hk
  rw [length_take, length_drop] at hk
  have := hs.holds (i + k) (by omega)
  rw [Nat.zero_add] at this
  simpa using this

theorem Begins.readN (h : i + n ≤ bs.length) : Memory.readN s.str i n = some ((bs.drop i).take n) :=
  readN_eq_some.2 ⟨by simp; omega, hs.drop h⟩

theorem Begins.agree {k : ℕ} (hk : k < bs.length) : s.str k = (DBusString.ofBytes bs).str k := by
  have := hs.holds k hk
  rw [Nat.zero_add] at this
  rw [this, ofBytes_str_of_lt hk]

theorem Begins.readable : Readable s.str 0 bs.length := fun i h0 hi => by
  rw [hs.agree hi]
  exact readable_ofBytes bs i h0 hi

theorem Begins.number (h : i + 4 ≤ bs.length) : Holds s.str i (toBytes o 4 (numberAt o bs i)) := by
  rw [numberAt, toBytes_fromBytes o (by simp; omega)]
  exact hs.drop h

theorem Begins.readUint32 (hd : 4 ∣ i) (h : i + 4 ≤ bs.length) :
    marshalReadUint32 s i o = .ok (numberAt o bs i, i + 4) :=
  marshalReadUint32_toBytes (alignUp_of_dvd hd) (h.trans hs.le) numberAt_lt (hs.number h)

theorem Begins.getByte (h : i < bs.length) : s.getByte i = .ok (bs.getD i 0) := by
  refine DBusString.getByte_of (h.le.trans hs.le) ?_
  have := hs.holds i h
  rw [Nat.zero_add] at this
  simp [this, getD_eq_getElem?_getD, getElem?_eq_getElem h]

end

end

/-! ## The length peek -/

/-- What the length peek knows of the bytes `bs`. -/
structure Peeked (bs : List UInt8) (p : Peek) : Prop where
  order : bs.getD byteOrderOffset 0 = orderByte p.byteOrder
  len : firstFieldOffset ≤ bs.length
  fieldsArrayLen : p.fieldsArrayLen = fieldsArrayLen p.byteOrder bs
  bodyLen : p.bodyLen = numberAt p.byteOrder bs bodyLengthOffset
  headerLen : p.headerLen = alignUp (firstFieldOffset + p.fieldsArrayLen) 8
  small : p.headerLen < int32Max / 2
  complete : p.complete = decide (p.bodyLen + p.headerLen ≤ bs.length)

theorem orderOfByte_eq_some {c : UInt8} {o : ByteOrder} (h : orderOfByte c = some o) :
    c = orderByte o := by
  unfold orderOfByte at h
  split at h
  · next hc => cases h; exact hc
  · split at h
    · next hc => cases h; exact hc
    · cases h

theorem headerHaveMessageUntrusted_peeked {max : ℕ} {bs : List UInt8} {p : Peek}
    (h : headerHaveMessageUntrusted max (.ofBytes bs) 0 bs.length = .ok p) : Peeked bs p := by
  simp only [headerHaveMessageUntrusted, bind_eq_ok, assert_eq_ok, exists_const] at h
  obtain ⟨-, -, c, hc, h⟩ := h
  split at h
  · cases h
  · next o ho =>
    simp only [bind_eq_ok, assert_eq_ok, require_eq_ok, exists_const, Prod.exists, pure_eq_ok,
      Except.ok.injEq] at h
    obtain ⟨hlen, len, _, hrd, -, -, body, _, hb, -, hm, hsm, -, -, -, rfl⟩ := h
    have hlen : 16 ≤ bs.length := hlen
    have hin {i : ℕ} (hi : i + 4 ≤ 16) : i + 4 ≤ bs.length := hi.trans hlen
    rw [Nat.zero_add] at hc hrd hb
    have hs := begins_ofBytes bs
    obtain ⟨rfl, -⟩ := Prod.mk.inj (Except.ok.inj
      ((hs.readUint32 (by decide) (hin (by decide))).symm.trans hrd))
    obtain ⟨rfl, -⟩ := Prod.mk.inj (Except.ok.inj
      ((hs.readUint32 (by decide) (hin (by decide))).symm.trans hb))
    obtain rfl := Except.ok.inj
      ((hs.getByte (i := byteOrderOffset) (Nat.lt_of_lt_of_le (by decide) hlen)).symm.trans hc)
    exact ⟨orderOfByte_eq_some ho, hlen, rfl, rfl, rfl, by dsimp only; omega, rfl⟩

/-! ## The items before the fields -/

section
variable {r r' : TypeReader} {f : FixedType} {n : ℕ} {t : TypeCode}

theorem headerItem_eq {offset : ℕ} {more : Bool}
    (ht : r.getCurrentType = .ok (.basic (.fixed f))) (hp : r.valuePos = offset)
    (hv : r.readNumber = .ok n) (hnx : r.next = .ok (more, r')) :
    headerItem f offset r = .ok (n, r') := by
  simp [headerItem, ht, ok_bind, ok_bind, assert_bind hp, hv, ok_bind, hnx]

theorem readNumber_uint32 (hk : r.klass.typesOnly = false)
    (ht : r.getCurrentType = .ok (.basic (.fixed .uint32))) (hn : n < 2 ^ 32)
    (hd : 4 ∣ r.valuePos) (hw : Holds r.valueStr.str r.valuePos (toBytes r.byteOrder 4 n)) :
    r.readNumber = .ok n := by
  simp [TypeReader.readNumber, TypeReader.readBasic, assert_bind hk, ht, ok_bind,
    marshalReadBasic_uint32 hn hd hw]

/-- The reader at the item `i` of a header, whose value is at `p`. -/
def itemReader (o : ByteOrder) (s : DBusString) (i p : ℕ) : TypeReader :=
  .init o (.ofBytes headerSignature) i s p

theorem itemReader_next {i p q : ℕ}
    (ht : (itemReader o s i p).getCurrentType = .ok (.basic (.fixed f)))
    (hq : alignUp p f.size + f.size = q) (ht' : (itemReader o s (i + 1) q).getCurrentType = .ok t)
    (hne : t ≠ .invalid) : (itemReader o s i p).next = .ok (true, itemReader o s (i + 1) q) := by
  subst hq
  rw [TypeReader.next, TypeReader.readerNext, ht, ok_bind, if_neg (by simp)]
  change (Except.ok (itemReader o s (i + 1) (alignUp p f.size + f.size)) >>= _) = _
  simp [ok_bind, ht', ok_bind, bne_iff_ne.2 hne]

theorem headerItem_byte (hs : Begins s bs) {i p : ℕ} (hp : p < bs.length)
    (ht : (itemReader o s i p).getCurrentType = .ok (.basic (.fixed .byte)))
    (ht' : (itemReader o s (i + 1) (p + 1)).getCurrentType = .ok t) (hne : t ≠ .invalid) :
    headerItem .byte p (itemReader o s i p) =
      .ok ((bs.getD p 0).toNat, itemReader o s (i + 1) (p + 1)) := by
  refine headerItem_eq ht rfl (readNumber_byte rfl ht (hs.getByte hp))
    (itemReader_next ht ?_ ht' hne)
  exact congrArg (· + 1) (alignUp_of_dvd (Nat.one_dvd p))

theorem headerItem_uint32 (hs : Begins s bs) {i p : ℕ} (hp : p + 4 ≤ bs.length) (hd : 4 ∣ p)
    (ht : (itemReader o s i p).getCurrentType = .ok (.basic (.fixed .uint32)))
    (ht' : (itemReader o s (i + 1) (p + 4)).getCurrentType = .ok t) (hne : t ≠ .invalid) :
    headerItem .uint32 p (itemReader o s i p) =
      .ok (numberAt o bs p, itemReader o s (i + 1) (p + 4)) := by
  refine headerItem_eq ht rfl (readNumber_uint32 rfl ht numberAt_lt hd (hs.number hp))
    (itemReader_next ht ?_ ht' hne)
  exact congrArg (· + 4) (alignUp_of_dvd hd)

theorem messageType_ne_invalid : messageType bs ≠ .invalid ↔ (bs.getD typeOffset 0).toNat ≠ 0 := by
  rw [messageType]
  generalize (bs.getD typeOffset 0).toNat = n
  match n with
  | 0 | 1 | 2 | 3 | 4 | n + 5 => simp [MessageType.ofNat]

theorem headerItems_eq (hs : Begins s bs) {bodyLen : ℕ} (hlen : firstFieldOffset ≤ bs.length)
    (ho : bs.getD byteOrderOffset 0 = orderByte o)
    (hb : bodyLen = numberAt o bs bodyLengthOffset) :
    headerItems o bodyLen (itemReader o s 0 0) = do
      require ((bs.getD typeOffset 0).toNat ≠ 0) .invalidBadMessageType
      require ((bs.getD versionOffset 0).toNat = majorProtocolVersion) .invalidBadProtocolVersion
      require (numberAt o bs serialOffset ≠ 0) .invalidBadSerial
      return itemReader o s 6 12 := by
  have hlt {p : ℕ} (hp : p < 16) : p < bs.length := hp.trans_le hlen
  have hle {p : ℕ} (hp : p + 4 ≤ 16) : p + 4 ≤ bs.length := hp.trans hlen
  have h0 : headerItem .byte byteOrderOffset (itemReader o s 0 0) =
      .ok ((bs.getD byteOrderOffset 0).toNat, itemReader o s 1 1) :=
    headerItem_byte hs (hlt (by decide)) rfl rfl nofun
  have h1 : headerItem .byte typeOffset (itemReader o s 1 1) =
      .ok ((bs.getD typeOffset 0).toNat, itemReader o s 2 2) :=
    headerItem_byte hs (hlt (by decide)) rfl rfl nofun
  have h2 : headerItem .byte flagsOffset (itemReader o s 2 2) =
      .ok ((bs.getD flagsOffset 0).toNat, itemReader o s 3 3) :=
    headerItem_byte hs (hlt (by decide)) rfl rfl nofun
  have h3 : headerItem .byte versionOffset (itemReader o s 3 3) =
      .ok ((bs.getD versionOffset 0).toNat, itemReader o s 4 4) :=
    headerItem_byte hs (hlt (by decide)) rfl rfl nofun
  have h4 : headerItem .uint32 bodyLengthOffset (itemReader o s 4 4) =
      .ok (numberAt o bs bodyLengthOffset, itemReader o s 5 8) :=
    headerItem_uint32 hs (hle (by decide)) (by decide) rfl rfl nofun
  have h5 : headerItem .uint32 serialOffset (itemReader o s 5 8) =
      .ok (numberAt o bs serialOffset, itemReader o s 6 12) :=
    headerItem_uint32 hs (hle (by decide)) (by decide) rfl rfl nofun
  have h6 : (itemReader o s 6 12).getCurrentType = .ok .array := rfl
  have h7 : (itemReader o s 6 12).valuePos = fieldsArrayLengthOffset := rfl
  simp only [headerItems, h0, h1, h2, h3, h4, h5, h6, h7, ok_bind, ho, assert_of, hb]

end

/-! ## The cache and the mandatory fields -/

section
variable {L : ℕ} {fs : List RawField} {k : HeaderField}

theorem cacheAll_eq (h : DBusHeader) (fs : List RawField) :
    h.cacheAll fs = { h with fields := (h.cacheAll fs).fields } := by
  induction fs generalizing h with
  | nil => rfl
  | cons f fs ih =>
    cases hf : f.field with
    | none => rw [cacheAll_cons_none hf]; exact ih h
    | some field => rw [cacheAll_cons_some hf]; exact ih _

theorem isPos_cacheOne {f : RawField} {field : HeaderField} :
    ((h.cacheOne field f.reader).fields k).isPos = true ↔
      k = field ∨ (h.fields k).isPos = true := by
  unfold cacheOne
  by_cases hk : k = field
  · subst hk
    simp [FieldPos.isPos]
  · simp [hk]

theorem isPos_cacheAll : ((h.cacheAll fs).fields k).isPos = true ↔
      k ∈ fs.filterMap RawField.field ∨ (h.fields k).isPos = true := by
  induction fs generalizing h with
  | nil => simp
  | cons f fs ih =>
    cases hf : f.field with
    | none => rw [cacheAll_cons_none hf, filterMap_cons_none hf, ih]
    | some field =>
      rw [cacheAll_cons_some hf, filterMap_cons_some hf, ih, isPos_cacheOne, mem_cons]
      tauto

theorem isPos_completeCache : (h.completeCache.fields k).isPos = (h.fields k).isPos := by
  unfold completeCache
  dsimp only
  split
  · next hk => rw [hk]; rfl
  · rfl

theorem requireFields_iff {l : List (HeaderField × { v : DBusValidity // v ≠ .valid })} :
    requireFields h l = .ok () ↔ ∀ x ∈ l, (h.fields x.1).isPos = true := by
  induction l with
  | nil => exact iff_of_true rfl nofun
  | cons x l ih =>
    obtain ⟨field, v⟩ := x
    simp only [requireFields, bind_eq_ok, require_eq_ok, exists_const, ih, forall_mem_cons]

theorem forall_requiredFields (t : MessageType) {P : HeaderField → Prop} :
    (∀ x ∈ t.requiredFields, P x.1) ↔ ∀ field ∈ t.mandatory, P field := by
  cases t <;> simp [MessageType.requiredFields, MessageType.mandatory]
  tauto

theorem checkMandatoryFields_iff (hdt : h.data = bs.take L) (hL : L ≤ bs.length)
    (hlen : firstFieldOffset ≤ L) (ht : messageType bs ≠ .invalid) :
    checkMandatoryFields h = .ok () ↔
      ∀ field ∈ (messageType bs).mandatory, (h.fields field).isPos = true := by
  have hlt : typeOffset < L := Nat.lt_of_lt_of_le (by decide) hlen
  have hb : h.str.getByte typeOffset = .ok (bs.getD typeOffset 0) := by
    have hin : typeOffset < (bs.take L).length := by simp; omega
    rw [DBusHeader.str, hdt, (begins_ofBytes _).getByte hin]
    simp [getD_eq_getElem?_getD, hlt]
  have hne : bs.getD typeOffset 0 ≠ 0 := fun h0 => by
    rw [messageType_ne_invalid, h0] at ht
    exact ht rfl
  rw [checkMandatoryFields, getMessageType, hb, ok_bind, assert_bind hne]
  change requireFields h (messageType bs).requiredFields = .ok () ↔ _
  rw [requireFields_iff]
  exact forall_requiredFields _ (P := fun field => (h.fields field).isPos = true)

end

/-! ## Loading a header -/

section
variable {p : Peek} {stop : ℕ} {o' : ByteOrder}

section
variable (o : ByteOrder) (bs : List UInt8)

def headerLength : ℕ :=
  alignUp (firstFieldOffset + fieldsArrayLen o bs) 8

/-- The header with which loading the bytes `bs` ends. -/
def loadedHeader : DBusHeader :=
  (cacheAll ⟨bs.take (headerLength o bs), fun _ => .unknown,
    headerLength o bs - (firstFieldOffset + fieldsArrayLen o bs), o⟩
    (headerFields o bs)).completeCache

end

theorem Peeked.headerLen_eq (hp : Peeked bs p) : p.headerLen = headerLength p.byteOrder bs := by
  rw [hp.headerLen, hp.fieldsArrayLen, headerLength]

theorem Peeked.headerLength_le (hp : Peeked bs p) (hc : p.complete = true) :
    headerLength p.byteOrder bs ≤ bs.length := by
  have hlen := hp.complete
  rw [hc, eq_comm, decide_eq_true_iff] at hlen
  rw [← hp.headerLen_eq]
  omega

def paddingNul (o : ByteOrder) (bs : List UInt8) : Bool :=
  ((bs.drop (firstFieldOffset + fieldsArrayLen o bs)).take
    (headerLength o bs - (firstFieldOffset + fieldsArrayLen o bs))).all (· = 0)

theorem Begins.stringValidateNul (hs : Begins s bs) {start len : ℕ} (h : start + len ≤ bs.length) :
    DBus.stringValidateNul s start len = .ok (((bs.drop start).take len).all (· = 0)) := by
  have := hs.le
  rw [DBus.stringValidateNul, assert_bind (by omega), if_neg (by omega), hs.readN h, valueOr_some]
  rfl

theorem paddingNul_iff (h : headerLength o bs ≤ bs.length) :
    paddingNul o bs = true ↔ ∀ i, firstFieldOffset + fieldsArrayLen o bs ≤ i →
      i < headerLength o bs → bs.getD i 1 = 0 := by
  rw [paddingNul]
  generalize firstFieldOffset + fieldsArrayLen o bs = start
  rw [all_eq_true]
  simp only [decide_eq_true_eq]
  constructor
  · intro hal i hi hi'
    have hm : bs.getD i 1 ∈ (bs.drop start).take (headerLength o bs - start) := by
      rw [mem_take_iff_getElem]
      refine ⟨i - start, by simp; omega, ?_⟩
      rw [getElem_drop, getD_eq_getElem?_getD, getElem?_eq_getElem (by omega)]
      simp [show start + (i - start) = i by omega]
    exact hal _ hm
  · intro hal x hx
    obtain ⟨k, hk, rfl⟩ := mem_take_iff_getElem.1 hx
    rw [length_drop] at hk
    have := hal (start + k) (by omega) (by omega)
    rw [getD_eq_getElem?_getD, getElem?_eq_getElem (by omega)] at this
    rw [getElem_drop]
    exact this

theorem Begins.stringCopyLen (hs : Begins s bs) {i n : ℕ} (h : i + n ≤ bs.length)
    (hn : n ≤ stringMaxMaxLength) :
    DBus.stringCopyLen s i n [] 0 = .ok ((bs.drop i).take n) := by
  have := hs.le
  have hlen : ((bs.drop i).take n).length = n := by
    rw [length_take, length_drop]
    omega
  rw [DBus.stringCopyLen, assert_bind (by omega), assert_bind (Nat.zero_le _),
    assert_bind (by omega), hs.readN h, valueOr_some, ok_bind, openGap, hlen]
  split
  · next h0 => rw [h0]; rfl
  · rw [if_neg (by rw [length_nil]; omega), insertAt, take_nil, drop_nil, nil_append, append_nil]

theorem HeaderAccepted.loadFields_eq {v : TypeReader} (hac : HeaderAccepted o bs stop)
    (hs : Begins s bs) (hv : FieldsReader o s (fieldsArrayLen o bs) firstFieldOffset v) :
    loadFields (s.len + 1) h v = (headerFields o bs).foldlM loadRaw h := by
  obtain ⟨rfl, hle, -, hlt, hfs⟩ := hac.fieldsAt
  have hlen := hs.le
  have hsm : SameBytes (DBusString.ofBytes bs).str s.str bs.length 0 0
      (firstFieldOffset + fieldsArrayLen o bs) :=
    .inPlace hs.readable hle fun k _ hk => hs.agree (by omega)
  have hw : Holds s.str fieldsArrayLengthOffset (toBytes o 4 (fieldsArrayLen o bs)) :=
    hs.number (by unfold fieldsArrayLengthOffset; unfold firstFieldOffset at hle; omega)
  exact DBus.loadFields_eq ⟨hw, hlt, by omega⟩ hs.readable hlen (by omega)
    (hfs.same (readable_ofBytes bs) hsm) hv (by unfold firstFieldOffset at hle ⊢; omega)

theorem loadedHeader_data : (loadedHeader o bs).data = bs.take (headerLength o bs) := by
  rw [loadedHeader, cacheAll_eq]
  rfl

theorem isPos_loadedHeader {k : HeaderField} :
    ((loadedHeader o bs).fields k).isPos = true ↔ k ∈ knownFields o bs := by
  rw [loadedHeader, isPos_completeCache, isPos_cacheAll]
  exact or_iff_left nofun

theorem firstField_le_headerLength :
    firstFieldOffset + fieldsArrayLen o bs ≤ headerLength o bs := le_alignUp (by decide)

theorem checkMandatoryFields_loaded (hle : headerLength o bs ≤ bs.length)
    (ht : messageType bs ≠ .invalid) :
    checkMandatoryFields (loadedHeader o bs) = .ok () ↔
      ∀ field ∈ (messageType bs).mandatory, field ∈ knownFields o bs := by
  have hge : firstFieldOffset ≤ headerLength o bs :=
    (Nat.le_add_right ..).trans firstField_le_headerLength
  rw [checkMandatoryFields_iff loadedHeader_data hle hge ht]
  exact forall₂_congr fun _ _ => isPos_loadedHeader

section
variable (o : ByteOrder) (bs : List UInt8)

def rawHeader : DBusHeader :=
  ⟨bs.take (headerLength o bs), fun _ => .unknown,
    headerLength o bs - (firstFieldOffset + fieldsArrayLen o bs), o⟩

/-- What the function does once the validator has accepted the header. -/
def loadChecked : Res DBusHeader := do
  require (paddingNul o bs = true) .invalidAlignmentPaddingNotNul
  require ((bs.getD typeOffset 0).toNat ≠ 0) .invalidBadMessageType
  require ((bs.getD versionOffset 0).toNat = majorProtocolVersion) .invalidBadProtocolVersion
  require (numberAt o bs serialOffset ≠ 0) .invalidBadSerial
  let h ← (headerFields o bs).foldlM loadRaw (rawHeader o bs)
  checkMandatoryFields h.completeCache
  return h.completeCache

end

theorem headerLoad_copy (o' : ByteOrder) (hs : Begins s bs) (hp : Peeked bs p)
    (hc : p.complete = true) :
    stringCopyLen s 0 p.headerLen (init o').data 0 = .ok (bs.take p.headerLen) := by
  have hle := hp.headerLength_le hc
  have hsm := hp.small
  rw [← hp.headerLen_eq] at hle
  unfold int32Max at hsm
  exact hs.stringCopyLen (by omega) (by unfold stringMaxMaxLength; omega)

/-- **Behind the message nothing is looked at** once the validator has accepted the
    header of the message `bs`, with which the string starts. -/
theorem headerLoad_checked (hs : Begins s bs) (hp : Peeked bs p) (hc : p.complete = true)
    (hac : HeaderAccepted p.byteOrder bs stop)
    (hvl : validateBody (.ofBytes headerSignature) 0 p.byteOrder s 0 s.len = .ok stop) :
    headerLoad (.init o') .dataIsUntrusted p.byteOrder p.fieldsArrayLen p.headerLen p.bodyLen s 0
      s.len = loadChecked p.byteOrder bs := by
  have hcp := headerLoad_copy o' hs hp hc
  have hle := hp.headerLength_le hc
  obtain ⟨o, len, L, body, complete⟩ := p
  obtain ⟨ho, hlen, hfa, hb, hL, hsm, hcm⟩ := hp
  dsimp only at hc ho hfa hb hL hsm hcm hac hvl hcp hle ⊢
  subst hfa
  obtain rfl : headerLength o bs = L := hL.symm
  have hge : firstFieldOffset + fieldsArrayLen o bs ≤ headerLength o bs :=
    firstField_le_headerLength
  have hsl := hs.le
  have hpd : headerLength o bs = firstFieldOffset + fieldsArrayLen o bs +
      (headerLength o bs - (firstFieldOffset + fieldsArrayLen o bs)) := by omega
  obtain ⟨v, hrc, hv⟩ := fieldsReader_recurse o s (fieldsArrayLen o bs)
  obtain ⟨rfl, -⟩ := HeaderAccepted.fieldsAt hac
  have hl : headerLeftover .dataIsUntrusted o (headerLength o bs) body s 0 s.len =
      .ok (s.len - (firstFieldOffset + fieldsArrayLen o bs : ℕ)) := by
    rw [headerLeftover, hvl, ok_bind, Nat.zero_add]
    rfl
  have hlt : (s.len : ℤ) - (firstFieldOffset + fieldsArrayLen o bs : ℕ) < s.len := by
    unfold firstFieldOffset
    omega
  have hfl {h : DBusHeader} := HeaderAccepted.loadFields_eq (h := h) hac hs hv
  have hem : (init o').data.length = 0 := rfl
  rw [headerLoad, assert_bind (by decide), assert_bind (hle.trans hsl),
    assert_bind hem, hcp, ok_bind, hl, ok_bind, headerLoadRest,
    assert_bind hlt]
  dsimp only
  rw [Nat.zero_add, Nat.zero_add, assert_bind hL, assert_bind hpd,
    hs.stringValidateNul (hpd ▸ hle), ok_bind]
  have hi : headerItems o body (.init o (.ofBytes headerSignature) 0 s 0) = _ :=
    headerItems_eq hs hlen ho hb
  rw [hi, bind_assoc, bind_assoc, bind_assoc]
  refine bind_congr fun _ => bind_congr fun _ => bind_congr fun _ => bind_congr fun _ => ?_
  change ((TypeReader.init o (.ofBytes headerSignature) fieldsArraySignatureOffset s
    fieldsArrayLengthOffset).recurse >>= _) = _
  rw [hrc, ok_bind, hfl]
  rfl

theorem loadChecked_eq_ok (hac : HeaderAccepted o bs stop) (hle : headerLength o bs ≤ bs.length) :
    loadChecked o bs = .ok h ↔
      HeaderValid o bs ∧ loadedHeader o bs = h := by
  obtain ⟨rfl, -, -, -, hfs⟩ := hac.fieldsAt
  have hfl {h' : DBusHeader} : (headerFields o bs).foldlM loadRaw (rawHeader o bs) = .ok h' ↔ _ :=
    hfs.foldlM_iff rfl rfl hle firstField_le_headerLength
  have hl : ((rawHeader o bs).cacheAll (headerFields o bs)).completeCache = loadedHeader o bs := rfl
  simp only [loadChecked, bind_eq_ok, require_eq_ok, exists_const, pure_eq_ok, Except.ok.injEq,
    hfl, paddingNul_iff hle, ← messageType_ne_invalid]
  constructor
  · rintro ⟨hz, ht, hvr, hsr, _, ⟨⟨hp, -⟩, rfl⟩, _, hm, rfl⟩
    exact ⟨⟨⟨_, hac⟩, ht, hvr, hsr, hp.codes, hp.once, hp.types, hp.contents,
      (checkMandatoryFields_loaded hle ht).1 hm, hz⟩, hl⟩
  · rintro ⟨⟨-, ht, hvr, hsr, hcd, ho, hty, hcn, hm, hz⟩, rfl⟩
    have hp : FieldsPass o bs (headerFields o bs) := ⟨hcd, ho, hty, hcn⟩
    exact ⟨hz, ht, hvr, hsr, _, ⟨⟨hp, fun _ _ => rfl⟩, rfl⟩, (),
      (checkMandatoryFields_loaded hle ht).2 hm, rfl⟩

/-- **Loading a header.**  It succeeds on the admissible headers. -/
theorem headerLoad_eq_ok (hp : Peeked bs p) (hc : p.complete = true) :
    headerLoad (.init o') .dataIsUntrusted p.byteOrder p.fieldsArrayLen p.headerLen p.bodyLen
        (.ofBytes bs) 0 bs.length = .ok h ↔
      HeaderValid p.byteOrder bs ∧ loadedHeader p.byteOrder bs = h := by
  by_cases hac : ∃ stop, HeaderAccepted p.byteOrder bs stop
  · obtain ⟨stop, hac⟩ := hac
    refine (Eq.congr_left ?_).trans (loadChecked_eq_ok hac (hp.headerLength_le hc))
    exact headerLoad_checked (begins_ofBytes bs) hp hc hac hac
  · refine iff_of_false (fun hl => hac ?_) fun hvl => hac hvl.1.accepted
    simp only [headerLoad, bind_eq_ok, headerLeftover] at hl
    obtain ⟨-, -, -, -, -, -, -, -, -, ⟨stop, hst, -⟩, -⟩ := hl
    exact ⟨stop, hst⟩

/-- **What the function accepts.**  On a message that the peek has found complete, a
    header is loaded exactly if it is admissible. -/
theorem headerLoad_valid_iff (max : ℕ) (o' : ByteOrder) (bs : List UInt8) (p : Peek)
    (hpeek : headerHaveMessageUntrusted max (.ofBytes bs) 0 bs.length = .ok p)
    (hcomplete : p.complete = true) :
    (∃ h, headerLoad (.init o') .dataIsUntrusted p.byteOrder p.fieldsArrayLen p.headerLen p.bodyLen
        (.ofBytes bs) 0 bs.length = .ok h) ↔ HeaderValid p.byteOrder bs := by
  have hp := headerHaveMessageUntrusted_peeked hpeek
  simp only [headerLoad_eq_ok hp hcomplete, exists_and_left, exists_eq', and_true]

end

/-- A method call `A` on the object `/a`. -/
def shortCall : List UInt8 :=
  [108, 1, 0, 1, 0, 0, 0, 0, 1, 0, 0, 0, 26, 0, 0, 0, 1, 1, 111, 0, 2, 0, 0, 0, 47, 97, 0, 0, 0, 0,
    0, 0, 3, 1, 115, 0, 1, 0, 0, 0, 65, 0, 0, 0, 0, 0, 0, 0]

theorem shortCall_valid_iff :
    headerHaveMessageUntrusted 134217728 (.ofBytes shortCall) 0 shortCall.length =
        .ok ⟨.little, 26, 48, 0, true⟩ ∧
      ((∃ h, headerLoad (.init .little) .dataIsUntrusted .little 26 48 0 (.ofBytes shortCall) 0
          shortCall.length = .ok h) ↔ HeaderValid .little shortCall) :=
  have hpeek : headerHaveMessageUntrusted 134217728 (.ofBytes shortCall) 0 shortCall.length =
      .ok ⟨.little, 26, 48, 0, true⟩ := by decide +kernel
  ⟨hpeek, headerLoad_valid_iff _ .little _ _ hpeek rfl⟩

end DBus
