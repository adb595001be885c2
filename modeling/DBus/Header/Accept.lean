/-
  Which headers `_dbus_header_load` accepts.

  `HeaderValid` lists what a header must satisfy, and the function tests the same: what it
  compares with the reserved names ends with the NUL of the text.
-/
import DBus.Header.Scan

namespace DBus

open Outcome Memory Align Endian Value List Function TypeCode DBusHeader DBusString

/-! ## What a header must satisfy -/

/-- The number in the four bytes at `i`. -/
def numberAt (o : ByteOrder) (bs : List UInt8) (i : ℕ) : ℕ := fromBytes o ((bs.drop i).take 4)

namespace RawField

def field (f : RawField) : Option HeaderField := HeaderField.ofCode f.code.toNat

def text (o : ByteOrder) (bs : List UInt8) (f : RawField) : List UInt8 :=
  (bs.drop (f.valuePos + 4)).take (numberAt o bs f.valuePos)

/-- The value of a field is of the type that the field has. -/
def HasType (f : RawField) (field : HeaderField) : Prop :=
  f.sig = [toByte (.basic field.expectedType)]

def ContentsOk (o : ByteOrder) (bs : List UInt8) (f : RawField) : HeaderField → Prop
  | .path => f.text o bs ≠ localPath
  | .interface => NameValid validateInterface (f.text o bs) ∧ f.text o bs ≠ localInterface
  | .member => NameValid validateMember (f.text o bs)
  | .errorName => NameValid validateErrorName (f.text o bs)
  | .replySerial => numberAt o bs f.valuePos ≠ 0
  | .destination => NameValid validateBusName (f.text o bs)
  | .sender => NameValid validateBusName (f.text o bs)
  | .signature => True

end RawField

def MessageType.mandatory : MessageType → List HeaderField
  | .methodCall => [.path, .member]
  | .methodReturn => [.replySerial]
  | .error => [.errorName, .replySerial]
  | .signal => [.path, .interface, .member]
  | _ => []

def knownFields (o : ByteOrder) (bs : List UInt8) : List HeaderField :=
  (headerFields o bs).filterMap RawField.field

/-- The type of the message with the header `bs`. -/
def messageType (bs : List UInt8) : MessageType := .ofNat (bs.getD typeOffset 0).toNat

/-- The bytes `bs` start with an admissible header. -/
structure HeaderValid (o : ByteOrder) (bs : List UInt8) : Prop where
  accepted : ∃ stop, HeaderAccepted o bs stop
  type_ne : messageType bs ≠ .invalid
  version : (bs.getD versionOffset 0).toNat = majorProtocolVersion
  serial : numberAt o bs serialOffset ≠ 0
  codes : ∀ f ∈ headerFields o bs, f.code ≠ 0
  once : (knownFields o bs).Nodup
  types : ∀ f ∈ headerFields o bs, ∀ field, f.field = some field → f.HasType field
  contents : ∀ f ∈ headerFields o bs, ∀ field, f.field = some field → f.ContentsOk o bs field
  mandatory : ∀ field ∈ (messageType bs).mandatory, field ∈ knownFields o bs
  padding : ∀ i, firstFieldOffset + fieldsArrayLen o bs ≤ i →
    i < alignUp (firstFieldOffset + fieldsArrayLen o bs) 8 → bs.getD i 1 = 0

instance (o : ByteOrder) (bs : List UInt8) (f : RawField) :
    (field : HeaderField) → Decidable (f.ContentsOk o bs field)
  | .path => inferInstanceAs (Decidable (_ ≠ _))
  | .interface => inferInstanceAs (Decidable (_ ∧ _))
  | .member | .errorName | .destination | .sender => inferInstanceAs (Decidable (NameValid _ _))
  | .replySerial => inferInstanceAs (Decidable (_ ≠ _))
  | .signature => inferInstanceAs (Decidable True)

instance (f : RawField) (field : HeaderField) : Decidable (f.HasType field) :=
  inferInstanceAs (Decidable (_ = _))

instance (f : RawField) (P : HeaderField → Prop) [DecidablePred P] :
    Decidable (∀ field, f.field = some field → P field) :=
  inferInstanceAs (Decidable (∀ field ∈ f.field, P field))

instance (o : ByteOrder) (bs : List UInt8) : Decidable (∃ stop, HeaderAccepted o bs stop) :=
  match h : validateBody (.ofBytes headerSignature) 0 o (.ofBytes bs) 0 bs.length with
  | .ok stop => isTrue ⟨stop, h⟩
  | .error _ => isFalse fun ⟨_, hacc⟩ => nomatch h.symm.trans hacc

theorem headerValid_iff {o : ByteOrder} {bs : List UInt8} :
    HeaderValid o bs ↔ (∃ stop, HeaderAccepted o bs stop) ∧ messageType bs ≠ .invalid ∧
      (bs.getD versionOffset 0).toNat = majorProtocolVersion ∧ numberAt o bs serialOffset ≠ 0 ∧
      (∀ f ∈ headerFields o bs, f.code ≠ 0) ∧ (knownFields o bs).Nodup ∧
      (∀ f ∈ headerFields o bs, ∀ field, f.field = some field → f.HasType field) ∧
      (∀ f ∈ headerFields o bs, ∀ field, f.field = some field → f.ContentsOk o bs field) ∧
      (∀ field ∈ (messageType bs).mandatory, field ∈ knownFields o bs) ∧
      ∀ i, i < alignUp (firstFieldOffset + fieldsArrayLen o bs) 8 →
        firstFieldOffset + fieldsArrayLen o bs ≤ i → bs.getD i 1 = 0 :=
  ⟨fun ⟨h₁, h₂, h₃, h₄, h₅, h₆, h₇, h₈, h₉, h⟩ =>
    ⟨h₁, h₂, h₃, h₄, h₅, h₆, h₇, h₈, h₉, fun i hlt hle => h i hle hlt⟩,
   fun ⟨h₁, h₂, h₃, h₄, h₅, h₆, h₇, h₈, h₉, h⟩ =>
    ⟨h₁, h₂, h₃, h₄, h₅, h₆, h₇, h₈, h₉, fun i hle hlt => h i hlt hle⟩⟩

instance (o : ByteOrder) (bs : List UInt8) : Decidable (HeaderValid o bs) :=
  decidable_of_iff _ headerValid_iff.symm

/-! ## Comparing with the reserved names -/

variable {p : ℕ} {o : ByteOrder} {N : ℕ} {f : RawField} {bs : List UInt8} {L : ℕ} {h' : DBusHeader}
  {field : HeaderField}

section
variable {b : DBusString} {as text : List UInt8}

section
variable (h₀ : 0 ∉ as) (h₁ : 0 ∉ text) (h : Holds b.str p (text ++ [0]))
include h₀ h₁ h

/-- With its NUL, a name is found only where the text is the name. -/
theorem equalLoop_eq : equalLoop b (as ++ [0]) p = .ok (decide (as = text)) := by
  induction as generalizing p text with
  | nil =>
    cases text with
    | nil => simp [equalLoop, deref_eq_ok.2 (holds_cons.1 h).1]
    | cons c text =>
      rw [mem_cons, not_or] at h₁
      rw [nil_append, equalLoop, deref_eq_ok.2 (holds_cons.1 h).1, ok_bind, if_pos h₁.1]
      simp
  | cons a as ih =>
    rw [mem_cons, not_or] at h₀
    cases text with
    | nil =>
      rw [cons_append, equalLoop, deref_eq_ok.2 (holds_cons.1 h).1, ok_bind, if_pos (Ne.symm h₀.1)]
      simp
    | cons c text =>
      rw [mem_cons, not_or] at h₁
      rw [cons_append, holds_cons] at h
      rw [cons_append, equalLoop, deref_eq_ok.2 h.1, ok_bind]
      split
      · next hne => simp [hne]
      · next hne => rw [ih h₀.2 h₁.2 h.2]; simp [not_not.1 hne]

theorem stringEqualSubstring_eq (hlt : p + text.length < b.len) :
    stringEqualSubstring (as ++ [0]) b p = .ok (decide (as = text)) := by
  rw [stringEqualSubstring, assert_bind (by omega), length_append, length_singleton]
  split
  · have : as ≠ text := by
      rintro rfl
      omega
    simp [this]
  · exact equalLoop_eq h₀ h₁ h

end

end

/-! ## The value of a field -/

section
variable {m : ℕ → Option UInt8} {e : ℕ}

theorem FieldAt.firstType (h : FieldAt o m e N p f) (hm : Readable m 0 e) :
    ∃ t al, firstTypeInSignature (.ofBytes f.sig) 0 = .ok t ∧ t ≠ .invalid ∧
      t.getAlignment = .ok al ∧ al ∣ f.valuePos := by
  obtain ⟨cs, hcs, -, -, t, al, ht, hne, hal, hp, -⟩ :=
    (variantStart_iff (hm.mono (Nat.zero_le _))).1 h.start
  exact ⟨t, al, hcs ▸ ht, hne, hal, hp ▸ dvd_alignUp⟩

theorem firstTypeInSignature_single (b : BasicType) :
    firstTypeInSignature (.ofBytes [toByte (.basic b)]) 0 = .ok (.basic b) := by
  rw [firstTypeInSignature_text (textAt_ofBytes _), ofByte_basic]
  rfl

section
variable (h : FieldAt o m e N p f) {b : BasicType}
include h

/-- The first type of the signature is a basic one exactly if there is nothing else in
    the signature. -/
theorem FieldAt.sig_eq : firstTypeInSignature (.ofBytes f.sig) 0 = .ok (.basic b) ↔
      f.sig = [toByte (.basic b)] := by
  refine ⟨fun ht => ?_, fun hsg => hsg ▸ firstTypeInSignature_single b⟩
  -- the reader is at the end behind the first type
  have hnl : firstTypeInSignature (.ofBytes f.sig) 1 = .ok .invalid := by
    obtain ⟨r, hnx, hend⟩ := h.single
    rw [TypeReader.next, TypeReader.readerNext, getCurrentType_initTypesOnly, ht, ok_bind,
      if_neg (by simp)] at hnx
    obtain ⟨r', hr', hnx⟩ := bind_eq_ok.1 hnx
    obtain ⟨_, -, hnx⟩ := bind_eq_ok.1 hnx
    obtain ⟨-, rfl⟩ := Prod.mk.inj (Except.ok.inj hnx)
    obtain rfl : TypeReader.initTypesOnly (.ofBytes f.sig) 1 = r' := Except.ok.inj hr'
    rwa [getCurrentType_initTypesOnly] at hend
  obtain ⟨c, hc, hmp⟩ := bind_eq_ok.1 hnl
  obtain ⟨hle, hc⟩ := getByte_eq_ok.1 hc
  have hle : 1 ≤ f.sig.length := hle
  have hz : c = 0 := eq_toByte (t := .invalid) <| by
    cases hcd : ofByte c <;> rw [hcd] at hmp <;> cases hmp
  have hlen : f.sig.length = 1 := by
    by_contra hne
    have hlt : 1 < f.sig.length := by omega
    rw [ofBytes_str_of_lt hlt, Option.some.injEq, hz] at hc
    exact h.valid.zero_notMem (hc ▸ getElem_mem hlt)
  obtain ⟨c, hsg⟩ := length_eq_one_iff.1 hlen
  rw [hsg] at ht ⊢
  rw [firstTypeInSignature_text (textAt_ofBytes _)] at ht
  have hcd : ofByte c = .basic b := by
    cases hcd : ofByte c <;> rw [hcd] at ht <;> cases ht
    rfl
  rw [eq_toByte hcd]

section
variable (hm : Readable m 0 e)
include hm

theorem FieldAt.basic (hsg : f.sig = [toByte (.basic b)]) :
    b.alignment ∣ f.valuePos ∧ f.stop ≤ e ∧ ∃ n, validateValue o m e (validateBodyHelper o m e n) n
      (.initTypesOnly (.ofBytes f.sig) 0) f.valuePos (.basic b) = .ok f.stop := by
  have ht := h.sig_eq.2 hsg
  obtain ⟨t, al, ht', -, hal, hdv⟩ := h.firstType hm
  obtain rfl : t = .basic b := Except.ok.inj (ht'.symm.trans ht)
  obtain rfl : b.alignment = al := Except.ok.inj hal
  obtain ⟨n, -, hvl⟩ := h.value
  obtain ⟨n, _, rfl, -⟩ := validateBodyHelper_ok hvl
  rw [← getCurrentType_initTypesOnly] at ht
  obtain ⟨-, q, hq, hle, hstop⟩ := (validateBodyHelper_succ ht (by simp)).1 hvl
  have hstop : f.stop = q := hstop
  subst hstop
  exact ⟨hdv, hle, n, hq⟩

theorem FieldAt.uint32 (hsg : f.sig = [toByte (.basic (.fixed .uint32))]) :
    4 ∣ f.valuePos ∧ f.stop = f.valuePos + 4 ∧ f.stop ≤ e ∧
      ∃ n < 2 ^ 32, Holds m f.valuePos (toBytes o 4 n) := by
  obtain ⟨hdv, hle, n, hvl⟩ := h.basic hm hsg
  have hvl : validateFixed o m e .uint32 f.valuePos = .ok f.stop := hvl
  obtain ⟨k, hk, -, hh, hend, -⟩ := (validateFixed_iff (hm.mono (Nat.zero_le _))).1 ⟨hvl, hle⟩
  rw [add_length_encode_fixed] at hend
  have hh' := holds_fixed hh
  have hp : alignUp f.valuePos (FixedType.size .uint32) = f.valuePos := alignUp_of_dvd hdv
  rw [hp] at hend hh'
  exact ⟨hdv, hend, hle, k, hk, hh'⟩

theorem FieldAt.string {s : StringType} (hs : s ≠ .signature)
    (hsg : f.sig = [toByte (.basic (.str s))]) :
    ∃ text, s.Contents text ∧ 4 ∣ f.valuePos ∧ text.length < 2 ^ 32 ∧
      f.stop = f.valuePos + 4 + text.length + 1 ∧ f.stop ≤ e ∧
      Holds m f.valuePos (toBytes o 4 text.length) ∧ Holds m (f.valuePos + 4) (text ++ [0]) := by
  obtain ⟨hdv, hle, n, hvl⟩ := h.basic hm hsg
  have hdv : 4 ∣ f.valuePos := by cases s <;> first | exact hdv | exact absurd rfl hs
  have hst : validateString o m e s f.valuePos = .ok f.stop := by
    cases s <;> first | exact hvl | exact absurd rfl hs
  obtain ⟨text, hc, hmx, hh, hend, -⟩ := (validateString_iff hs (hm.mono (Nat.zero_le _))).1 hst
  rw [add_length_encode_string hs, alignUp_of_dvd hdv] at hend
  rw [encode_string hs, pad_of_dvd hdv, nil_append, holds_append, length_toBytes] at hh
  exact ⟨text, hc, hdv, hmx.trans_lt (by decide), hend, hle, hh.1, hh.2⟩

end

end

end

/-! ## What the function tests of a field -/

section
variable {h : DBusHeader} {pos : ℕ} {s : StringType}

theorem holds_take {i : ℕ} {xs : List UInt8} (h : Holds (ofBytes bs).str i xs)
    (hL : L ≤ bs.length) (hi : i + xs.length ≤ L) :
    Holds (ofBytes (bs.take L)).str i xs := fun k hk => by
  have hlt : i + k < (bs.take L).length := by rw [length_take]; omega
  have hk' := h k hk
  rw [ofBytes_str_of_lt (by omega)] at hk'
  rw [ofBytes_str_of_lt hlt, getElem_take]
  exact hk'

theorem cacheCheck_at (hp : h.fields field = .at pos) : h.cacheCheck field = .ok (true, h) := by
  have hne : h.fields field ≠ .unknown := by rw [hp]; nofun
  rw [cacheCheck, if_neg hne, ok_bind]
  simp [hp]

theorem cachedPos_at (hp : h.fields field = .at pos) : h.cachedPos field = .ok pos := by
  simp [cachedPos, hp]

theorem fieldContent_str (ht : field.expectedType = .str s) (hp : h.fields field = .at pos) :
    fieldContent h field = .ok (0, pos, alignUp pos 4 + 4) := by
  rw [fieldContent, ht]
  rw [getFieldRaw, cacheCheck_at hp, ok_bind]
  simp [cachedPos_at hp]

theorem marshalReadBasic_uint32 {s : DBusString} {n : ℕ} (hn : n < 2 ^ 32) (hd : 4 ∣ pos)
    (hw : Holds s.str pos (toBytes o 4 n)) :
    marshalReadBasic s pos (.basic (.fixed .uint32)) o = .ok (.num n, pos + 4) := by
  have hb : (basic (.fixed .uint32)).isBasic = true := rfl
  rw [marshalReadBasic, assert_bind hb]
  · dsimp only [FixedType.size]
    rw [alignUp_of_dvd hd, readN_eq_some.2 ⟨length_toBytes .., hw⟩, valueOr_some, ok_bind,
      fromBytes_toBytes _ (by simpa using hn)]
    rfl
  · rintro ⟨⟩

theorem fieldContent_uint32 {n : ℕ} (hn : n < 2 ^ 32) (hd : 4 ∣ pos)
    (hp : h.fields .replySerial = .at pos) (hw : Holds h.str.str pos (toBytes h.byteOrder 4 n)) :
    fieldContent h .replySerial = .ok (n, 0, 0) := by
  rw [fieldContent]
  dsimp only [HeaderField.expectedType]
  rw [getFieldBasic, cacheCheck_at hp, ok_bind]
  dsimp only [HeaderField.expectedType]
  simp [cachedPos_at hp, ok_bind, marshalReadBasic_uint32 hn hd hw]

/-- The text of a field, in the header and in its copy. -/
structure TextIn (o : ByteOrder) (bs : List UInt8) (f : RawField) (h : DBusHeader) : Prop where
  contents : ∃ s : StringType, s.Contents (f.text o bs)
  dvd : 4 ∣ f.valuePos
  lt : (f.text o bs).length < 2 ^ 32
  room : f.valuePos + 4 + (f.text o bs).length < h.str.len
  word : Holds h.str.str f.valuePos (toBytes o 4 (f.text o bs).length)
  text : Holds h.str.str (f.valuePos + 4) (f.text o bs ++ [0])

theorem FieldAt.textIn (hf : FieldAt o (ofBytes bs).str bs.length N p f)
    (hdata : h.data = bs.take L) (hL : L ≤ bs.length) (hstop : f.stop ≤ L) (hs : s ≠ .signature)
    (hsg : f.sig = [toByte (.basic (.str s))]) : TextIn o bs f h := by
  obtain ⟨text, hc, hdv, hlt, hend, -, hw, htx⟩ := hf.string (readable_ofBytes bs) hs hsg
  have hnm : numberAt o bs f.valuePos = text.length := by
    rw [numberAt, holds_drop_take hw (length_toBytes ..) (by omega),
      fromBytes_toBytes o (by simpa using hlt)]
  have heq : f.text o bs = text := by
    rw [RawField.text, hnm]
    exact holds_drop_take (holds_append.1 htx).1 rfl (by omega)
  have hlen : h.str.len = L := by
    rw [DBusHeader.str, hdata]
    exact length_take_of_le hL
  rw [← heq] at hc hlt hend hw htx
  have hst : h.str = .ofBytes (bs.take L) := by rw [DBusHeader.str, hdata]
  refine ⟨⟨s, hc⟩, hdv, hlt, by omega, ?_, ?_⟩
  · rw [hst]
    exact holds_take hw hL (by rw [length_toBytes]; omega)
  · rw [hst]
    exact holds_take htx hL (by rw [length_append, length_singleton]; omega)

section
variable (ht : TextIn o bs f h)
include ht

theorem TextIn.le : f.valuePos + 4 + (f.text o bs).length ≤ h.str.len := ht.room.le

theorem TextIn.read (ho : h.byteOrder = o) : marshalReadUint32 h.str f.valuePos h.byteOrder =
      .ok ((f.text o bs).length, f.valuePos + 4) := by
  have := ht.le
  rw [ho]
  exact marshalReadUint32_toBytes (alignUp_of_dvd ht.dvd) (by omega) ht.lt ht.word

/-- A validator decides whether the bytes of a range are a valid name. -/
abbrev NamesDecided (validate : DBusString → ℕ → ℕ → Res Bool) : Prop :=
  ∀ {s : DBusString} {p : ℕ} {xs : List UInt8}, p + xs.length ≤ s.len → Holds s.str p xs →
    validate s p xs.length = .ok (decide (NameValid validate xs))

theorem TextIn.checkText_iff (ho : h.byteOrder = o) {validate : DBusString → ℕ → ℕ → Res Bool}
    {v : { v : DBusValidity // v ≠ .valid }}
    (hfn : field.stringValidationFunc = some (validate, v))
    (hvr : NamesDecided validate) :
    checkText h field f.valuePos (f.valuePos + 4) = .ok () ↔ NameValid validate (f.text o bs) := by
  rw [checkText, hfn]
  dsimp only
  rw [ht.read ho, ok_bind]
  rw [hvr ht.le (holds_append.1 ht.text).1, ok_bind, require_eq_ok, decide_eq_true_iff]

theorem TextIn.equal_iff {as : List UInt8} (h₀ : 0 ∉ as) {v : DBusValidity} {hv : v ≠ .valid} : (do
      let eq ← stringEqualSubstring (as ++ [0]) h.str (f.valuePos + 4)
      require (eq = false) v hv) = .ok () ↔ f.text o bs ≠ as := by
  obtain ⟨s, hs⟩ := ht.contents
  rw [stringEqualSubstring_eq h₀ hs.zero_notMem ht.text ht.room, ok_bind, require_eq_ok,
    decide_eq_false_iff_not, eq_comm]

end

section
variable (hf : FieldAt o (ofBytes bs).str bs.length N p f)
include hf

section
variable (hdata : h.data = bs.take L) (ho : h.byteOrder = o) (hL : L ≤ bs.length)
  (hstop : f.stop ≤ L)
include hdata ho hL hstop

theorem FieldAt.contentsOk_iff (hty : f.HasType field) (hps : h.fields field = .at f.valuePos) : (do
      let (number, valuePos, strDataPos) ← fieldContent h field
      checkReserved h field number strDataPos
      checkText h field valuePos strDataPos) = .ok () ↔ f.ContentsOk o bs field := by
  have hnm {validate : DBusString → ℕ → ℕ → Res Bool} {v : { v : DBusValidity // v ≠ .valid }}
      (ht : TextIn o bs f h) (hex : field.expectedType = .str .string)
      (hfn : field.stringValidationFunc = some (validate, v))
      (hvr : NamesDecided validate) :
      (do
        let (number, valuePos, strDataPos) ← fieldContent h field
        checkReserved h field number strDataPos
        checkText h field valuePos strDataPos) = .ok () ↔
        checkReserved h field 0 (f.valuePos + 4) = .ok () ∧ NameValid validate (f.text o bs) := by
    rw [fieldContent_str hex hps, ok_bind, alignUp_of_dvd ht.dvd]
    simp only [bind_eq_ok, ht.checkText_iff ho hfn hvr]
    exact ⟨fun ⟨_, hc⟩ => hc, fun hc => ⟨(), hc⟩⟩
  have htx {s : StringType} (hs : s ≠ .signature) (hex : field.expectedType = .str s) :
      TextIn o bs f h := hf.textIn hdata hL hstop hs (by rw [hty, hex])
  cases field with
  | path =>
    have ht := htx (s := .objectPath) nofun rfl
    have hch : checkText h .path f.valuePos (f.valuePos + 4) = .ok () := rfl
    rw [fieldContent_str (s := .objectPath) rfl hps, ok_bind, alignUp_of_dvd ht.dvd]
    have hi : checkReserved h .path 0 (f.valuePos + 4) = .ok () ↔ f.text o bs ≠ localPath :=
      ht.equal_iff (by decide)
    simp only [bind_eq_ok, hch, and_true]
    exact ⟨fun ⟨_, hc⟩ => hi.1 hc, fun hc => ⟨(), hi.2 hc⟩⟩
  | interface =>
    have ht := htx (s := .string) nofun rfl
    rw [hnm ht rfl rfl validateInterface_eq]
    exact (and_congr_left fun _ => ht.equal_iff (by decide)).trans and_comm
  | member =>
    rw [hnm (htx (s := .string) nofun rfl) rfl rfl validateMember_eq]
    exact and_iff_right rfl
  | errorName =>
    rw [hnm (htx (s := .string) nofun rfl) rfl rfl validateInterface_eq]
    exact and_iff_right rfl
  | destination | sender =>
    rw [hnm (htx (s := .string) nofun rfl) rfl rfl validateBusName_eq]
    exact and_iff_right rfl
  | replySerial =>
    obtain ⟨hd, hend, -, n, hn, hw⟩ := hf.uint32 (readable_ofBytes bs) hty
    have hnu : numberAt o bs f.valuePos = n := by
      rw [numberAt, holds_drop_take hw (length_toBytes ..) (by omega),
        fromBytes_toBytes o (by simpa using hn)]
    have hw' : Holds h.str.str f.valuePos (toBytes h.byteOrder 4 n) := by
      rw [DBusHeader.str, hdata, ho]
      exact holds_take hw hL (by rw [length_toBytes]; omega)
    have hsr : checkReserved h .replySerial n 0 = .ok () ↔ n ≠ 0 := require_eq_ok
    have hp : f.ContentsOk o bs .replySerial ↔ numberAt o bs f.valuePos ≠ 0 := Iff.rfl
    rw [fieldContent_uint32 hn hd hps hw', ok_bind, hp, hnu, ← hsr]
    simp only [bind_eq_ok]
    exact ⟨fun ⟨_, hc, _⟩ => hc, fun hc => ⟨(), hc, rfl⟩⟩
  | signature =>
    rw [fieldContent_str (s := .signature) rfl hps, ok_bind]
    exact iff_of_true rfl trivial

/-- A field is stored exactly if its value has its type, it has not appeared before and
    its contents pass the tests. -/
theorem FieldAt.loadAndValidateField_iff : loadAndValidateField h field f.reader = .ok h' ↔
      f.HasType field ∧ (h.fields field).isPos = false ∧ f.ContentsOk o bs field ∧
        h.cacheOne field f.reader = h' := by
  obtain ⟨t, -, ht, -⟩ := hf.firstType (readable_ofBytes bs)
  have htp : t = .basic field.expectedType ↔ f.HasType field := by
    rw [RawField.HasType, ← hf.sig_eq, ht, Except.ok.injEq]
  rw [loadAndValidateField, f.reader_getCurrentType, ht, ok_bind]
  simp only [bind_eq_ok, require_eq_ok, exists_const, htp]
  refine and_congr_right fun hty => and_congr_right fun _ => ?_
  have hp := hf.contentsOk_iff (h := h.cacheOne field f.reader) hdata ho hL hstop hty (update_self ..)
  rw [← hp]
  simp only [bind_eq_ok, Prod.exists, pure_eq_ok, Except.ok.injEq]
  constructor
  · rintro ⟨n, v, t, hc, _, hr, _, ht, rfl⟩
    exact ⟨⟨n, v, t, hc, _, hr, ht⟩, rfl⟩
  · rintro ⟨⟨n, v, t, hc, _, hr, ht⟩, rfl⟩
    exact ⟨n, v, t, hc, _, hr, _, ht, rfl⟩

end

end

end

/-! ## All fields -/

/-- What the function requires of the fields of a header. -/
structure FieldsPass (o : ByteOrder) (bs : List UInt8) (fs : List RawField) : Prop where
  codes : ∀ f ∈ fs, f.code ≠ 0
  once : (fs.filterMap RawField.field).Nodup
  types : ∀ f ∈ fs, ∀ field, f.field = some field → f.HasType field
  contents : ∀ f ∈ fs, ∀ field, f.field = some field → f.ContentsOk o bs field

section
variable {stop : ℕ} {h : DBusHeader} {fs : List RawField}

/-- The header with the positions of the fields in the cache. -/
def DBusHeader.cacheAll (h : DBusHeader) (fs : List RawField) : DBusHeader :=
  fs.foldl (fun h f => match f.field with
    | none => h
    | some field => h.cacheOne field f.reader) h

@[simp] theorem cacheAll_nil (h : DBusHeader) : h.cacheAll [] = h := rfl

theorem cacheAll_cons_none (hf : f.field = none) (fs : List RawField) :
    h.cacheAll (f :: fs) = h.cacheAll fs := by
  simp [cacheAll, foldl_cons, hf]

theorem cacheAll_cons_some (hf : f.field = some field) (fs : List RawField) :
    h.cacheAll (f :: fs) = (h.cacheOne field f.reader).cacheAll fs := by
  simp [cacheAll, foldl_cons, hf]

theorem code_toNat_ne : f.code.toNat ≠ 0 ↔ f.code ≠ 0 := by
  exact not_congr (UInt8.toNat_inj (b := 0))

theorem fieldsPass_nil : FieldsPass o bs [] := ⟨nofun, nodup_nil, nofun, nofun⟩

theorem fieldsPass_cons_none (hf : f.field = none) :
    FieldsPass o bs (f :: fs) ↔ f.code ≠ 0 ∧ FieldsPass o bs fs := by
  have hnn {P : HeaderField → Prop} : ∀ field, f.field = some field → P field := by simp [hf]
  constructor
  · rintro ⟨hcd, hon, hty, hp⟩
    rw [filterMap_cons_none hf] at hon
    rw [forall_mem_cons] at hcd hty hp
    exact ⟨hcd.1, hcd.2, hon, hty.2, hp.2⟩
  · rintro ⟨hco, hcd, hon, hty, hp⟩
    refine ⟨forall_mem_cons.2 ⟨hco, hcd⟩, ?_, forall_mem_cons.2 ⟨hnn, hty⟩,
      forall_mem_cons.2 ⟨hnn, hp⟩⟩
    rwa [filterMap_cons_none hf]

theorem fieldsPass_cons_some (hf : f.field = some field) :
    FieldsPass o bs (f :: fs) ↔ (f.code ≠ 0 ∧ f.HasType field ∧ f.ContentsOk o bs field) ∧
      field ∉ fs.filterMap RawField.field ∧ FieldsPass o bs fs := by
  have hsm {P : HeaderField → Prop} : (∀ field, f.field = some field → P field) ↔ P field := by
    simp [hf]
  constructor
  · rintro ⟨hcd, hon, hty, hp⟩
    rw [filterMap_cons_some hf, nodup_cons] at hon
    rw [forall_mem_cons] at hcd hty hp
    exact ⟨⟨hcd.1, hsm.1 hty.1, hsm.1 hp.1⟩, hon.1, hcd.2, hon.2, hty.2, hp.2⟩
  · rintro ⟨⟨hco, htp, hps⟩, hnt, hcd, hon, hty, hp⟩
    refine ⟨forall_mem_cons.2 ⟨hco, hcd⟩, ?_,
      forall_mem_cons.2 ⟨hsm.2 htp, hty⟩,
      forall_mem_cons.2 ⟨hsm.2 hps, hp⟩⟩
    rw [filterMap_cons_some hf, nodup_cons]
    exact ⟨hnt, hon⟩

theorem forall_cacheOne {ks : List HeaderField} :
    (∀ k ∈ ks, ((h.cacheOne field f.reader).fields k).isPos = false) ↔
      field ∉ ks ∧ ∀ k ∈ ks, (h.fields k).isPos = false := by
  have hot {k : HeaderField} (hk : k ≠ field) :
      (h.cacheOne field f.reader).fields k = h.fields k := update_of_ne hk ..
  have hsl : (h.cacheOne field f.reader).fields field = .at f.valuePos := update_self ..
  constructor
  · intro hal
    have hnt : field ∉ ks := by
      intro hmm
      have := hal field hmm
      rw [hsl] at this
      cases this
    refine ⟨hnt, fun k hk => ?_⟩
    rw [← hot (ne_of_mem_of_not_mem hk hnt)]
    exact hal k hk
  · rintro ⟨hnt, hal⟩ k hk
    rw [hot (ne_of_mem_of_not_mem hk hnt)]
    exact hal k hk

/-- The fields of a header are loaded exactly if they pass the tests and none of them is
    in the cache yet. -/
theorem FieldsAt.foldlM_iff (hfs : FieldsAt o (ofBytes bs).str bs.length N stop p fs)
    (hdata : h.data = bs.take L) (ho : h.byteOrder = o) (hL : L ≤ bs.length) (hstop : stop ≤ L) :
    fs.foldlM loadRaw h = .ok h' ↔ (FieldsPass o bs fs ∧ ∀ field ∈ fs.filterMap RawField.field,
        (h.fields field).isPos = false) ∧ h.cacheAll fs = h' := by
  induction hfs generalizing h with
  | nil =>
    rw [foldlM_nil, pure_eq_ok, Except.ok.injEq]
    exact ⟨fun he => ⟨⟨fieldsPass_nil, nofun⟩, he⟩, fun he => he.2⟩
  | @cons p f fs hlt hf hfs ih =>
    rw [foldlM_cons, bind_eq_ok]
    cases hfl : f.field with
    | none =>
      have hrw (h₁ : DBusHeader) : loadRaw h f = .ok h₁ ↔ f.code ≠ 0 ∧ h = h₁ := by
        have hcd : HeaderField.ofCode f.code.toNat = none := hfl
        rw [loadRaw, hcd]
        simp only [bind_eq_ok, require_eq_ok, exists_const, code_toNat_ne, pure_eq_ok,
          Except.ok.injEq]
      simp only [hrw, cacheAll_cons_none hfl, filterMap_cons_none hfl, fieldsPass_cons_none hfl]
      constructor
      · rintro ⟨_, ⟨hcd, rfl⟩, hrs⟩
        obtain ⟨⟨hp, hnw⟩, he⟩ := (ih hdata ho).1 hrs
        exact ⟨⟨⟨hcd, hp⟩, hnw⟩, he⟩
      · rintro ⟨⟨⟨hcd, hp⟩, hnw⟩, he⟩
        exact ⟨h, ⟨hcd, rfl⟩, (ih hdata ho).2 ⟨⟨hp, hnw⟩, he⟩⟩
    | some field =>
      have hrw (h₁ : DBusHeader) : loadRaw h f = .ok h₁ ↔ f.code ≠ 0 ∧ f.HasType field ∧
          (h.fields field).isPos = false ∧ f.ContentsOk o bs field ∧
          h.cacheOne field f.reader = h₁ := by
        have hcd : HeaderField.ofCode f.code.toNat = some field := hfl
        rw [loadRaw, hcd]
        simp only [bind_eq_ok, require_eq_ok, exists_const, code_toNat_ne,
          hf.loadAndValidateField_iff hdata ho hL (hfs.le.trans hstop)]
      simp only [hrw, cacheAll_cons_some hfl, filterMap_cons_some hfl,
        fieldsPass_cons_some hfl, forall_mem_cons]
      constructor
      · rintro ⟨_, ⟨hcd, hty, hpo, hp, rfl⟩, hrs⟩
        obtain ⟨⟨hps, hnw⟩, he⟩ := (ih (h := h.cacheOne field f.reader) hdata ho).1 hrs
        obtain ⟨hnt, hnw⟩ := forall_cacheOne.1 hnw
        exact ⟨⟨⟨⟨hcd, hty, hp⟩, hnt, hps⟩, hpo, hnw⟩, he⟩
      · rintro ⟨⟨⟨⟨hcd, hty, hp⟩, hnt, hps⟩, hpo, hnw⟩, he⟩
        exact ⟨_, ⟨hcd, hty, hpo, hp, rfl⟩, (ih (h := h.cacheOne field f.reader) hdata ho).2
            ⟨⟨hps, forall_cacheOne.2 ⟨hnt, hnw⟩⟩, he⟩⟩

end

end DBus
