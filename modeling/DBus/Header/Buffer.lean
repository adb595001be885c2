/-
  A header at the start of a buffer.

  The buffer may go on behind the message, and the validator is told the length of the
  buffer.  Still the message alone decides whether its header is loaded, and as what
  (`InBuffer.headerLoad_eq_ok`).
-/
import DBus.Body.Total
import DBus.Header.Load

namespace DBus

open Outcome Memory Align Endian Value

/-! ## Fields that are not loaded -/

variable {o : ByteOrder} {bs : List UInt8} {stop : ℕ}

section
variable {N p L : ℕ} {f : RawField} {h : DBusHeader} {field : HeaderField}

theorem TextIn.checkText_sat (ht : TextIn o bs f h) (ho : h.byteOrder = o) (field : HeaderField) :
    Vets (checkText h field f.valuePos (f.valuePos + 4)) fun _ => True := by
  have hnm {validate : DBusString → ℕ → ℕ → Res Bool} {v : { v : DBusValidity // v ≠ .valid }}
      (hfn : field.stringValidationFunc = some (validate, v))
      (hom : v.1 ≠ .validityUnknownOomError)
      (hvr : NamesDecided validate) :
      Vets (checkText h field f.valuePos (f.valuePos + 4)) fun _ => True := by
    rw [checkText, hfn]
    dsimp only
    rw [ht.read ho, ok_bind]
    rw [hvr ht.le (holds_append.1 ht.text).1, ok_bind]
    exact vets_require_last hom
  cases field with
  | interface => exact hnm rfl (by simp) validateInterface_eq
  | member => exact hnm rfl (by simp) validateMember_eq
  | errorName => exact hnm rfl (by simp) validateInterface_eq
  | destination | sender => exact hnm rfl (by simp) validateBusName_eq
  | _ => exact trivial

theorem TextIn.checkReserved_sat (ht : TextIn o bs f h) (field : HeaderField) (n : ℕ) :
    Vets (checkReserved h field n (f.valuePos + 4)) fun _ => True := by
  cases field with
  | interface | path =>
    obtain ⟨s, hs⟩ := ht.contents
    rw [checkReserved, stringEqualSubstring_eq (by decide) hs.zero_notMem ht.text ht.room, ok_bind]
    exact vets_require_last nofun
  | replySerial => exact vets_require_last nofun
  | _ => exact trivial

theorem TextIn.checks_sat {h1 : DBusHeader} {s : StringType} {P : DBusHeader → Prop}
    (hin : TextIn o bs f h1) (hex : field.expectedType = .str s)
    (hps : h1.fields field = .at f.valuePos) (ho1 : h1.byteOrder = o) (hkp : P h1) :
    Vets (do
      let (number, valuePos, strDataPos) ← fieldContent h1 field
      checkReserved h1 field number strDataPos
      checkText h1 field valuePos strDataPos
      return h1) P := by
  rw [fieldContent_str hex hps, ok_bind, alignUp_of_dvd hin.dvd]
  refine (hin.checkReserved_sat field 0).bind fun _ _ => ?_
  exact (hin.checkText_sat ho1 field).bind fun _ _ => hkp

theorem FieldAt.loadAndValidateField_sat
    (hf : FieldAt o (DBusString.ofBytes bs).str bs.length N p f) (hdt : h.data = bs.take L)
    (ho : h.byteOrder = o) (hL : L ≤ bs.length) (hst : f.stop ≤ L) :
    Vets (loadAndValidateField h field f.reader)
      fun h' => h'.data = h.data ∧ h'.byteOrder = h.byteOrder := by
  obtain ⟨t, -, ht, -⟩ := hf.firstType (readable_ofBytes bs)
  rw [loadAndValidateField, f.reader_getCurrentType, ht, ok_bind]
  refine (vets_require (by decide)).bind fun _ hty => ?_
  refine (vets_require (by decide)).bind fun _ _ => ?_
  have hsg : f.sig = [TypeCode.toByte (.basic field.expectedType)] := hf.sig_eq.1 (hty ▸ ht)
  have hps : (h.cacheOne field f.reader).fields field = .at f.valuePos := Function.update_self ..
  generalize hh : h.cacheOne field f.reader = h1 at hps
  have hdt1 : h1.data = bs.take L := by rw [← hh]; exact hdt
  have ho1 : h1.byteOrder = o := by rw [← hh]; exact ho
  have hkp : h1.data = h.data ∧ h1.byteOrder = h.byteOrder := by rw [← hh]; exact ⟨rfl, rfl⟩
  -- what is looked at is there, whatever the type of the field
  have htx {s : StringType} (hs : s ≠ .signature) (hex : field.expectedType = .str s) :
      TextIn o bs f h1 := hf.textIn hdt1 hL hst hs (by rw [hsg, hex])
  dsimp only
  cases field with
  | path => exact (htx (s := .objectPath) (by simp) rfl).checks_sat rfl hps ho1 hkp
  | signature =>
    rw [fieldContent_str (s := .signature) rfl hps, ok_bind]
    exact hkp
  | replySerial =>
    obtain ⟨hd, hend, -, n, hn, hw⟩ := hf.uint32 (readable_ofBytes bs) hsg
    have hw' : Holds h1.str.str f.valuePos (toBytes h1.byteOrder 4 n) := by
      rw [DBusHeader.str, hdt1, ho1]
      exact holds_take hw hL (by rw [length_toBytes]; omega)
    rw [fieldContent_uint32 hn hd hps hw', ok_bind]
    exact (vets_require (by decide)).bind fun _ _ => hkp
  | _ => exact (htx (s := .string) (by simp) rfl).checks_sat rfl hps ho1 hkp

theorem FieldsAt.foldlM_sat {fs : List RawField}
    (hfs : FieldsAt o (DBusString.ofBytes bs).str bs.length N stop p fs)
    (hdt : h.data = bs.take L) (ho : h.byteOrder = o) (hL : L ≤ bs.length) (hst : stop ≤ L) :
    Vets (fs.foldlM loadRaw h) fun h' => h'.data = bs.take L := by
  induction hfs generalizing h with
  | nil => exact hdt
  | @cons p f fs hlt hf hfs ih =>
    rw [List.foldlM_cons]
    refine Sat.bind (P := fun h' => h'.data = h.data ∧ h'.byteOrder = h.byteOrder) ?_ ?_
    · refine (vets_require (by decide)).bind fun _ _ => ?_
      split
      · exact ⟨rfl, rfl⟩
      · exact hf.loadAndValidateField_sat hdt ho hL (hfs.le.trans hst)
    · rintro h' ⟨hd, ho'⟩
      exact ih (hd.trans hdt) (ho'.trans ho)

theorem requireFields_sat {l : List (HeaderField × { v : DBusValidity // v ≠ .valid })}
    (hl : ∀ x ∈ l, x.2.1 ≠ .validityUnknownOomError) :
    Vets (requireFields h l) fun _ => True := by
  induction l with
  | nil => exact trivial
  | cons x l ih =>
    rw [List.forall_mem_cons] at hl
    exact (vets_require hl.1).bind fun _ _ => ih hl.2

theorem requiredFields_ne_oom (t : MessageType) :
    ∀ x ∈ t.requiredFields, x.2.1 ≠ .validityUnknownOomError := by
  cases t <;> simp [MessageType.requiredFields]

theorem checkMandatoryFields_sat (hdt : h.data = bs.take L) (hL : L ≤ bs.length)
    (hlen : firstFieldOffset ≤ L) (hty : (bs.getD typeOffset 0).toNat ≠ 0) :
    Vets (checkMandatoryFields h) fun _ => True := by
  have hlt : typeOffset < L := Nat.lt_of_lt_of_le (by decide) hlen
  have hin : typeOffset < (bs.take L).length := by rwa [List.length_take_of_le hL]
  have hty : (bs.take L).getD typeOffset 0 ≠ 0 := fun h0 => hty <| by
    rw [List.getD_eq_getElem?_getD, List.getElem?_take_of_lt hlt, ← List.getD_eq_getElem?_getD] at h0
    rw [h0]
    rfl
  have hb : h.str.getByte typeOffset = .ok ((bs.take L).getD typeOffset 0) := by
    rw [DBusHeader.str, hdt]
    exact (begins_ofBytes _).getByte hin
  rw [checkMandatoryFields, DBusHeader.getMessageType, hb, ok_bind, assert_bind hty]
  exact requireFields_sat (requiredFields_ne_oom _)

/-- Behind the validator, a header is loaded or rejected. -/
theorem loadChecked_sat (hac : HeaderAccepted o bs stop) (hle : headerLength o bs ≤ bs.length) :
    Vets (loadChecked o bs) fun _ => True := by
  obtain ⟨rfl, -, -, -, hfs⟩ := hac.fieldsAt
  refine (vets_require (by decide)).bind fun _ _ =>
    (vets_require (by decide)).bind fun _ hty => ?_
  refine (vets_require (by decide)).bind fun _ _ =>
    (vets_require (by decide)).bind fun _ _ => ?_
  refine (hfs.foldlM_sat (h := rawHeader o bs) rfl rfl hle firstField_le_headerLength).bind ?_
  intro h hdt
  refine (checkMandatoryFields_sat (h := h.completeCache) hdt hle ?_ hty).bind fun _ _ => trivial
  exact (Nat.le_add_right ..).trans firstField_le_headerLength

end

/-! ## The header in the buffer and in the message -/

/-- The buffer `s` starts with the message `bs`, and can be read up to three bytes behind
    its end. -/
structure InBuffer (s : DBusString) (bs : List UInt8) : Prop extends Begins s bs where
  readable : Readable s.str 0 (s.len + 3)

section
variable {s : DBusString} {p : Peek} {o' : ByteOrder}

theorem validateBody_header (s : DBusString) :
    validateBody (.ofBytes headerSignature) 0 o s 0 s.len =
      validateBodyHelper o s.str s.len (headerSignature.length + s.len + 1) (itemTypes 0) true 0 := by
  rw [validateBody, assert_bind (by omega), DBusString.getConstDataLen,
    assert_bind (Nat.zero_le _), assert_bind (by omega), Nat.zero_add]
  rfl

/-- The validator accepts the header of the message in the buffer as it accepts it in the
    message alone. -/
theorem InBuffer.accepted_iff (hs : InBuffer s bs) (hst : stop ≤ bs.length) :
    validateBody (.ofBytes headerSignature) 0 o s 0 s.len = .ok stop ↔ HeaderAccepted o bs stop := by
  have hlen := hs.le
  have hsg := validSignature_header
  rw [validateBody_header, headerAccepted_iff]
  constructor
  · intro h
    -- first with the end of the message, then with its fuel, then in the message alone
    have hin : Readable s.str 0 s.len := hs.readable.shrink (Nat.le_add_right ..)
    have hend := (transfers _ hsg (typesOnly_init _ _) hin h).2.2
      (.inPlace hs.toBegins.readable hst fun _ _ _ => rfl) rfl (le_refl _)
    have hfl : validateBodyHelper o s.str bs.length (headerSignature.length + bs.length + 1)
        (itemTypes 0) true 0 = validateBodyHelper o s.str bs.length
        (headerSignature.length + s.len + 1) (itemTypes 0) true 0 :=
      (validateBodyHelper_total hsg (textsAgree_ofBytes headerSignature)
        (hs.readable.shrink (by omega)) (Nat.zero_le bs.length) (by omega) (by omega)).1
    refine (transfers _ hsg (typesOnly_init _ _) hs.toBegins.readable (hfl.trans hend)).2.2
      (.inPlace (readable_ofBytes bs) hst fun k _ hk => (hs.agree (by omega)).symm) rfl (le_refl _)
  · intro h
    refine (transfers _ hsg (typesOnly_init _ _) (readable_ofBytes bs) h).2.2
      (.inPlace (hs.readable.shrink (Nat.le_add_right ..)) (hst.trans hlen) fun k _ hk => ?_) rfl
      (by omega)
    exact hs.agree (by omega)

theorem InBuffer.stop_le (hs : InBuffer s bs) (hlen : firstFieldOffset ≤ bs.length)
    (hle : headerLength o bs ≤ bs.length)
    (h : validateBody (.ofBytes headerSignature) 0 o s 0 s.len = .ok stop) : stop ≤ bs.length := by
  rw [validateBody_header] at h
  obtain ⟨n, hn, hi⟩ := header_items (hs.readable.shrink (Nat.le_add_right ..)) h
  obtain ⟨n', len, -, hlt, hw, rfl, -⟩ := header_array hi
  have hw' := hs.number (o := o) (i := 12) (by unfold firstFieldOffset at hlen; omega)
  have hb := hw.unique hw' (by simp)
  have heq : len = fieldsArrayLen o bs := by
    have := congrArg (fromBytes o) hb
    rwa [fromBytes_toBytes o (by simpa using hlt), fromBytes_toBytes o (by simpa using numberAt_lt)]
      at this
  have hge : firstFieldOffset + fieldsArrayLen o bs ≤ headerLength o bs := firstField_le_headerLength
  unfold firstFieldOffset at hge
  omega

section
variable (hs : InBuffer s bs) (hp : Peeked bs p) (hc : p.complete = true)
include hs hp hc

theorem InBuffer.headerLoad_error {st : Stop}
    (h : validateBody (.ofBytes headerSignature) 0 p.byteOrder s 0 s.len = .error st) :
    headerLoad (.init o') .dataIsUntrusted p.byteOrder p.fieldsArrayLen p.headerLen p.bodyLen s 0
      s.len = .error st := by
  have hle := hp.headerLength_le hc
  rw [← hp.headerLen_eq] at hle
  have hem : (DBusHeader.init o').data.length = 0 := rfl
  rw [headerLoad, assert_bind (by decide), assert_bind (hle.trans hs.le),
    assert_bind hem, headerLoad_copy o' hs.toBegins hp hc, ok_bind, headerLeftover, h]
  rfl

/-- **The message decides** whether its header is loaded, and as what. -/
theorem InBuffer.headerLoad_eq_ok {h : DBusHeader} :
    headerLoad (.init o') .dataIsUntrusted p.byteOrder p.fieldsArrayLen p.headerLen p.bodyLen s 0
        s.len = .ok h ↔
      HeaderValid p.byteOrder bs ∧ loadedHeader p.byteOrder bs = h := by
  have hle := hp.headerLength_le hc
  cases hva : validateBody (.ofBytes headerSignature) 0 p.byteOrder s 0 s.len with
  | ok stop =>
    have hac := (hs.accepted_iff (hs.stop_le hp.len hle hva)).1 hva
    rw [headerLoad_checked hs.toBegins hp hc hac hva, loadChecked_eq_ok hac hle]
  | error st =>
    rw [hs.headerLoad_error hp hc hva]
    refine iff_of_false nofun ?_
    rintro ⟨hvl, -⟩
    obtain ⟨stop, hac⟩ := hvl.accepted
    have := (hs.accepted_iff (hac.fieldsAt.2.1)).2 hac
    simp [hva] at this

/-- The header is loaded or found invalid, and only the validator can fail an assertion. -/
theorem InBuffer.headerLoad_sat {x : Res DBusHeader} (hx : x = headerLoad (.init o')
      .dataIsUntrusted p.byteOrder p.fieldsArrayLen p.headerLen p.bodyLen s 0 s.len) :
    Plainly x ∧ (Avoids .assertion x ↔
      Avoids .assertion (validateBody (.ofBytes headerSignature) 0 p.byteOrder s 0 s.len)) := by
  have hle := hp.headerLength_le hc
  cases hvl : validateBody (.ofBytes headerSignature) 0 p.byteOrder s 0 s.len with
  | ok stop =>
    have hac := (hs.accepted_iff (hs.stop_le hp.len hle hvl)).1 hvl
    rw [headerLoad_checked hs.toBegins hp hc hac hvl] at hx
    have hv := loadChecked_sat hac hle
    rw [hx]
    exact ⟨hv.mono (fun _ h => h) fun _ h => h.plain,
      iff_of_true (fun he => hv.of_error he) (avoids_ok stop)⟩
  | error st =>
    rw [hx, hs.headerLoad_error hp hc hvl]
    refine ⟨?_, avoids_error_iff.trans avoids_error_iff.symm⟩
    rw [validateBody_header] at hvl
    have hfl : headerSignature.length + s.len < headerSignature.length + s.len + 1 + 0 := by omega
    exact (validateBodyHelper_total validSignature_header (textsAgree_ofBytes headerSignature)
      hs.readable (Nat.zero_le s.len) hfl hfl).2.of_error hvl

end

end

end DBus
