/-
  Which bytes are a message.

  A message is an admissible header that does not use the reserved names, followed by a body
  that the validator accepts for the signature in the header.  The loader validates the body
  where it is in its buffer; what it finds is what the message says
  (`InBuffer.validateBody_iff`).
-/
import DBus.Header.Buffer
import DBus.Message.Defs

namespace DBus

open Outcome Memory Align Endian Value List

/-! ## Messages -/

section
variable (o : ByteOrder) (bs : List UInt8)

def bodySignature : List UInt8 :=
  match (headerFields o bs).find? (·.field = some .signature) with
  | some f => (bs.drop (f.valuePos + 1)).take (bs.getD f.valuePos 0).toNat
  | none => []

def bodyOf : List UInt8 := bs.drop (headerLength o bs)

end

/-- The bytes `bs` are a message. -/
@[mk_iff] structure MessageValid (o : ByteOrder) (bs : List UInt8) : Prop where
  header : HeaderValid o bs
  body : BodyAccepted o (bodySignature o bs) (bodyOf o bs)

instance (o : ByteOrder) (bs : List UInt8) : Decidable (MessageValid o bs) :=
  decidable_of_iff _ (messageValid_iff o bs).symm

section
variable (o : ByteOrder) (bs : List UInt8)

/-- The message as which the bytes `bs` are loaded. -/
def messageOf : DBusMessage :=
  ⟨loadedHeader o bs, bodyOf o bs, o, false⟩

theorem bytes_messageOf : (messageOf o bs).bytes = bs := by
  rw [DBusMessage.bytes, messageOf, loadedHeader_data, bodyOf, take_append_drop]

end

/-! ## The signature in the header -/

section
variable {o : ByteOrder} {bs : List UInt8} {h : DBusHeader} {fs : List RawField} {k : HeaderField}
  {f : RawField} {m : ℕ → Option UInt8}

theorem cacheAll_fields (hn : (fs.filterMap RawField.field).Nodup) :
    (h.cacheAll fs).fields k = match fs.find? (·.field = some k) with
      | some f => .at f.valuePos
      | none => h.fields k := by
  induction fs generalizing h with
  | nil => rfl
  | cons f fs ih =>
    cases hf : f.field with
    | none =>
      rw [filterMap_cons_none hf] at hn
      rw [cacheAll_cons_none hf, ih hn, find?_cons_of_neg (by simp [hf])]
    | some field =>
      rw [filterMap_cons_some hf, nodup_cons] at hn
      rw [cacheAll_cons_some hf, ih hn.2]
      by_cases hk : field = k
      · subst hk
        have hnn : fs.find? (·.field = some field) = none := by
          rw [find?_eq_none]
          intro g hg heq
          exact hn.1 (mem_filterMap.2 ⟨g, hg, of_decide_eq_true heq⟩)
        rw [hnn, find?_cons_of_pos (by simp [hf])]
        exact Function.update_self ..
      · rw [find?_cons_of_neg (by simp [hf, hk])]
        have ho : (h.cacheOne field f.reader).fields k = h.fields k :=
          Function.update_of_ne (Ne.symm hk) ..
        rw [ho]

theorem loadedHeader_fields (hn : (knownFields o bs).Nodup) :
    (loadedHeader o bs).fields k = match (headerFields o bs).find? (·.field = some k) with
      | some f => .at f.valuePos
      | none => .nonexistent := by
  rw [loadedHeader, DBusHeader.completeCache]
  dsimp only
  rw [cacheAll_fields hn]
  cases (headerFields o bs).find? (·.field = some k) with
  | some f => rfl
  | none => rfl

theorem FieldAt.signature {e N p : ℕ} (h : FieldAt o m e N p f) (hm : Readable m 0 e)
    (hsg : f.sig = [TypeCode.toByte (.basic (.str .signature))]) :
    ∃ cs, ValidSignature cs ∧ f.stop = f.valuePos + cs.length + 2 ∧ Holds m f.valuePos (sigBytes cs) := by
  obtain ⟨-, -, n, hvl⟩ := h.basic hm hsg
  have hvl : validateSignatureValue m e f.valuePos = .ok f.stop := hvl
  obtain ⟨cs, hv, hh, hend, -⟩ := (validateSignatureValue_iff (o := o) (hm.mono (Nat.zero_le _))).1 hvl
  rw [encode_signature] at hh hend
  rw [length_sigBytes] at hend
  exact ⟨cs, hv, by omega, hh⟩

theorem FieldsAt.fieldAt {e N stop p : ℕ} (h : FieldsAt o m e N stop p fs) (hf : f ∈ fs) :
    ∃ q, FieldAt o m e N q f := by
  induction h with
  | nil => cases hf
  | cons _ hfl _ ih =>
    rcases mem_cons.1 hf with rfl | hf
    · exact ⟨_, hfl⟩
    · exact ih hf

theorem getFieldRaw_loaded (hn : (knownFields o bs).Nodup) : (loadedHeader o bs).getFieldRaw k =
      .ok (((headerFields o bs).find? (·.field = some k)).map RawField.valuePos,
        loadedHeader o bs) := by
  have hfl := loadedHeader_fields (k := k) hn
  rw [DBusHeader.getFieldRaw]
  cases hfn : (headerFields o bs).find? (·.field = some k) with
  | some f =>
    rw [hfn] at hfl
    rw [cacheCheck_at hfl, ok_bind]
    simp [cachedPos_at hfl]
  | none =>
    rw [hfn] at hfl
    have hne : (loadedHeader o bs).fields k ≠ .unknown := by rw [hfl]; rintro ⟨⟩
    rw [DBusHeader.cacheCheck, if_neg hne, ok_bind]
    simp [hfl]

/-- **The signature of the body** is valid, and is found in the loaded header. -/
theorem HeaderValid.getConstSignature (hv : HeaderValid o bs) (hle : headerLength o bs ≤ bs.length) :
    ∃ s d, (loadedHeader o bs).getConstSignature = .ok (s, d, loadedHeader o bs) ∧
      ValidSignature (bodySignature o bs) ∧ TextsAgree (.ofBytes (bodySignature o bs)) s d := by
  rw [DBusHeader.getConstSignature, getFieldRaw_loaded hv.once, ok_bind, bodySignature]
  cases hfn : (headerFields o bs).find? (·.field = some .signature) with
  | none =>
    refine ⟨.ofBytes [], 0, rfl, signatureAccepted_iff.1 ?_, textsAgree_ofBytes []⟩
    exact (by decide : SignatureAccepted [])
  | some f =>
    have hm := mem_of_find?_eq_some hfn
    have hsm := find?_some hfn
    have hfl : f.field = some .signature := of_decide_eq_true hsm
    obtain ⟨stop, hac⟩ := hv.accepted
    obtain ⟨rfl, hst, -, -, hfs⟩ := hac.fieldsAt
    obtain ⟨q, hf⟩ := hfs.fieldAt hm
    obtain ⟨cs, hcs, hend, hh⟩ := hf.signature (readable_ofBytes bs) (hv.types f hm _ hfl)
    have hft := hfs.stop_le hm
    have hin : firstFieldOffset + fieldsArrayLen o bs ≤ headerLength o bs :=
      firstField_le_headerLength
    -- the text that the header says is the one that the validator found
    have hlen : (bs.getD f.valuePos 0).toNat = cs.length := by
      have h0 := (holds_sigBytes.1 hh).1
      rw [ofBytes_str_of_lt (by omega), Option.some.injEq] at h0
      rw [getD_eq_getElem?_getD, getElem?_eq_getElem (by omega), Option.getD_some, h0]
      exact toNat_length hcs.length_le
    have htx : (bs.drop (f.valuePos + 1)).take (bs.getD f.valuePos 0).toNat = cs := by
      rw [hlen]
      exact holds_drop_take (holds_append.1 (holds_sigBytes.1 hh).2).1 rfl (by omega)
    have hsr : (loadedHeader o bs).str = .ofBytes (bs.take (headerLength o bs)) := by
      rw [DBusHeader.str, loadedHeader_data]
    have hsl : (loadedHeader o bs).str.len = headerLength o bs := by
      rw [hsr]
      exact length_take_of_le hle
    dsimp only
    rw [htx]
    refine ⟨_, _, rfl, hcs, textsAgree_of_holds ?_ (by omega)⟩
    rw [hsr]
    exact holds_take (holds_sigBytes.1 hh).2 hle (by rw [length_append, length_singleton]; omega)

end

/-! ## The body in the buffer -/

section
variable {o : ByteOrder} {s str : DBusString} {bs cs : List UInt8} {d : ℕ}

theorem dvd_headerLength (o : ByteOrder) (bs : List UInt8) : 8 ∣ headerLength o bs := dvd_alignUp

theorem length_header_body (hle : headerLength o bs ≤ bs.length) :
    headerLength o bs + (bodyOf o bs).length = bs.length := by
  rw [bodyOf, length_drop]
  omega

section
variable (hs : InBuffer s bs) (hle : headerLength o bs ≤ bs.length)
include hs hle

theorem InBuffer.validateBody_stays (hv : ValidSignature cs) (ht : TextsAgree (.ofBytes cs) str d) :
    Stays (validateBodyHelper o s.str bs.length (cs.length + (bodyOf o bs).length + 1)
        (.initTypesOnly (.ofBytes cs) 0) true (headerLength o bs))
      (validateBody str d o s (headerLength o bs) (bodyOf o bs).length)
      fun q => headerLength o bs ≤ q ∧ q ≤ bs.length := by
  have hlen := hs.le
  have hb := length_header_body hle
  have hst : d + cs.length ≤ str.len := ht.len_le
  rw [validateBody, assert_bind (by omega), DBusString.getConstDataLen,
    assert_bind (by omega), assert_bind (by omega), hb]
  exact validateBodyHelper_total hv ht ((hs.readable.shrink (by omega)).mono (Nat.zero_le _)) hle
    (by omega) (by omega)

section
variable (hmax : (bodyOf o bs).length ≤ stringMaxMaxLength) (hv : ValidSignature cs)
  (ht : TextsAgree (.ofBytes cs) str d)
include hmax hv ht

/-- **The message decides** whether the validator accepts its body. -/
theorem InBuffer.validateBody_iff :
    validateBody str d o s (headerLength o bs) (bodyOf o bs).length = .ok bs.length ↔
      BodyAccepted o cs (bodyOf o bs) := by
  have hb := length_header_body hle
  rw [(hs.validateBody_stays hle hv ht).1, bodyAccepted_iff, and_iff_right hmax]
  -- the block behind the header has the bytes of the body, and starts at a multiple of eight
  have hl : ∀ k k', k < (bodyOf o bs).length → k' = k + headerLength o bs →
      s.str k' = (DBusString.ofBytes (bodyOf o bs)).str k := by
    rintro k _ hk rfl
    rw [hs.agree (by omega), ofBytes_str_of_lt (by omega), ofBytes_str_of_lt hk]
    simp [bodyOf, Nat.add_comm]
  have hal := Nat.mod_eq_zero_of_dvd (dvd_headerLength o bs)
  have hrd := (hs.toBegins.readable).mono (Nat.zero_le (headerLength o bs))
  constructor
  · exact fun h => (transfers _ hv (typesOnly_init _ _) hrd h).2.2
      ⟨hal.symm, readable_ofBytes _, by omega, fun k k' hk hlt heq =>
        (hl k' k (by omega) heq.symm).symm⟩ (by omega) (le_refl _)
  · exact fun h => (transfers _ hv (typesOnly_init _ _) (readable_ofBytes _) h).2.2
      ⟨hal, hrd, by omega, fun k k' _ hlt heq => hl k k' hlt heq⟩ (by omega) (le_refl _)

/-- The run that decides about the body returns if the validator accepts the body, and stops
    only at an assertion or because the body is invalid. -/
theorem InBuffer.bodyRun {x : Res Unit} (hx : x = do
      let p ← validateBody str d o s (headerLength o bs) (bodyOf o bs).length
      require (¬ p < headerLength o bs + (bodyOf o bs).length) .invalidTooMuchData
      assert (p = headerLength o bs + (bodyOf o bs).length)) :
    Sat x (fun _ => BodyAccepted o cs (bodyOf o bs))
      fun st => st.Plain ∧ ¬ BodyAccepted o cs (bodyOf o bs) := by
  have hb := length_header_body hle
  have hi := hs.validateBody_iff hle hmax hv ht
  have hst := (hs.validateBody_stays hle hv ht).sat
  rw [hb] at hx
  subst hx
  cases hvl : validateBody str d o s (headerLength o bs) (bodyOf o bs).length with
  | error st =>
    rw [hvl] at hi hst
    exact ⟨hst, fun hac => by cases hi.2 hac⟩
  | ok q =>
    rw [hvl] at hi hst
    rw [ok_bind]
    by_cases hq : q = bs.length
    · subst hq
      rw [require_of (Nat.lt_irrefl _), ok_bind, assert_of rfl]
      exact hi.1 rfl
    · have hlt : q < bs.length := Nat.lt_of_le_of_ne hst.2 hq
      have hbd : ¬ ¬ q < bs.length := not_not_intro hlt
      rw [require, ensure_not hbd]
      refine ⟨(by rintro ⟨⟩), fun hac => hq ?_⟩
      cases hi.2 hac
      rfl

end

end

end

end DBus
