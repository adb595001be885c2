/-
  A reader over the fields array of a header.

  At each field it can be recursed into as far as the value of the variant
  (`FieldsReader.element`), and `next` takes it to the next field, so that the loop of
  `_dbus_header_load` goes through the fields one after the other (`loadFields_eq`).
-/
import DBus.Header.Fields

namespace DBus

open Outcome Memory Align Endian Value TypeReader

/-- The string `s` has the length word of a fields array of `len` bytes, and all of the array. -/
structure FieldsArray (o : ByteOrder) (s : DBusString) (len : ℕ) : Prop where
  word : Holds s.str fieldsArrayLengthOffset (toBytes o 4 len)
  lt : len < 2 ^ 32
  le : firstFieldOffset + len ≤ s.len

/-- The reader over the fields array of `s`, at the position `p`. -/
structure FieldsReader (o : ByteOrder) (s : DBusString) (len p : ℕ) (v : TypeReader) : Prop where
  klass : v.klass = .array false
  finished : v.finished = false
  typeStr : v.typeStr = .ofBytes headerSignature
  typePos : p < firstFieldOffset + len → v.typePos = 7
  valueStr : v.valueStr = s
  byteOrder : v.byteOrder = o
  startPos : v.startPos = firstFieldOffset
  arrayLenOffset : v.arrayLenOffset = 0
  valuePos : v.valuePos = p
  ge : firstFieldOffset ≤ p
  le : p ≤ firstFieldOffset + len

variable {o : ByteOrder} {s : DBusString} {len p e N : ℕ} {v : TypeReader} {f : RawField}

section
variable {r : TypeReader}

theorem recurse_array_eq {al a l : ℕ} (hk : r.klass.typesOnly = false)
    (ht : firstTypeInSignature r.typeStr r.typePos = .ok .array)
    (hal : elementTypeGetAlignment r.typeStr (r.typePos + 1) = .ok al)
    (hl : alignUp r.valuePos 4 = l) (ha : alignUp (l + 4) al = a) (hlt : a - (l + 4) < 8) :
    r.recurse = .ok { r.arrayTypesOnlyRecurse (.array false) with
      valuePos := a, startPos := a, arrayLenOffset := a - (l + 4) } := by
  subst hl ha
  rw [recurse, ht, ok_bind, hk]
  change (elementTypeGetAlignment r.typeStr (r.typePos + 1) >>= _) = _
  rw [hal, ok_bind]
  exact bind_eq_ok.2 ⟨(), assert_of hlt, rfl⟩

theorem fieldsReader_recurse (o : ByteOrder) (s : DBusString) (len : ℕ) :
    ∃ v, (init o (.ofBytes headerSignature) fieldsArraySignatureOffset s
        fieldsArrayLengthOffset).recurse = .ok v ∧ FieldsReader o s len firstFieldOffset v := by
  have hlen : alignUp 12 4 = 12 := by decide
  have hst : alignUp (12 + 4) 8 = firstFieldOffset := by decide
  refine ⟨_, recurse_array_eq rfl rfl rfl hlen hst (by decide), ?_⟩
  exact ⟨rfl, rfl, rfl, fun _ => rfl, rfl, rfl, rfl, rfl, rfl, le_refl _, Nat.le_add_right ..⟩

section
variable (h : FieldsReader o s len p v)
include h

theorem FieldsReader.arrayLen (har : FieldsArray o s len) :
    v.arrayReaderGetArrayLen = .ok len := by
  have hle := har.le
  unfold firstFieldOffset at hle
  have hg : s.getConstDataLen 12 4 = .ok () := by
    rw [DBusString.getConstDataLen, assert_bind (by omega), assert_of (by omega)]
  have hw : unpackUint32 o s.str 12 = .ok len :=
    unpackUint32_toBytes (by decide) har.lt har.word
  rw [arrayReaderGetArrayLen, h.startPos, h.arrayLenOffset, h.valueStr, h.byteOrder]
  change (assert (alignUp 12 4 = 12) >>= fun _ => s.getConstDataLen 12 4 >>= fun _ =>
    unpackUint32 o s.str 12 >>= fun arrayLen => assert (16 - 12 - 4 < 8) >>= fun _ =>
      pure arrayLen) = _
  rw [assert_bind (by decide), hg, ok_bind, hw, ok_bind, assert_of (by decide)]
  rfl

theorem FieldsReader.getCurrentType (har : FieldsArray o s len) : v.getCurrentType =
      .ok (if p < firstFieldOffset + len then .struct .struct else .invalid) := by
  have hend : v.atEnd = .ok (p == firstFieldOffset + len) := by
    have hle : v.valuePos ≤ v.startPos + len := by rw [h.valuePos, h.startPos]; exact h.le
    have hge : v.valuePos ≥ v.startPos := by rw [h.valuePos, h.startPos]; exact h.ge
    rw [atEnd, h.finished, if_neg (by simp), checkFinished, h.klass]
    rw [arrayReaderCheckFinished, h.arrayLen har, ok_bind]
    dsimp only
    rw [assert_bind hle, assert_bind hge, h.valuePos, h.startPos]
    rfl
  rw [TypeReader.getCurrentType, hend, ok_bind]
  split
  · next hlt =>
    rw [beq_eq_false_iff_ne.2 hlt.ne, cond_false, h.typePos hlt, h.typeStr]
    rfl
  · next hlt =>
    have := h.le
    rw [beq_iff_eq.2 (by omega), cond_true]
    rfl

theorem FieldsReader.beside (hlt : p < firstFieldOffset + len) (he : e ≤ s.len) :
    Beside o s.str e 0 fieldTypes v where
  texts := by
    rw [h.typeStr]
    exact textsAgree_ofBytes headerSignature
  typePos := by
    rw [h.typePos hlt]
    rfl
  typesOnly := rfl
  values := by
    rw [h.klass]
    rfl
  byteOrder := h.byteOrder
  str := by rw [h.valueStr]
  len_le := by
    rw [h.valueStr]
    exact he

end

theorem readNumber_byte {c : UInt8} (hk : r.klass.typesOnly = false)
    (ht : r.getCurrentType = .ok (.basic (.fixed .byte)))
    (hc : r.valueStr.getByte r.valuePos = .ok c) : r.readNumber = .ok c.toNat := by
  have hb : (TypeCode.basic (.fixed .byte)).isBasic = true := rfl
  have hrd : r.readBasic = .ok (.num c.toNat) := by
    simp [readBasic, assert_bind hk, ht, ok_bind, marshalReadBasic,
      assert_bind hb, hc]
  simp [readNumber, hrd]

/-- The readers inside a field: at its code, at its variant and at its value. -/
structure ElementReaders (f : RawField) (v : TypeReader) (sub sub' variant : TypeReader) :
    Prop where
  recurse : v.recurse = .ok sub
  codeType : sub.getCurrentType = .ok (.basic (.fixed .byte))
  code : sub.readNumber = .ok f.code.toNat
  next : sub.next = .ok (true, sub')
  variantType : sub'.getCurrentType = .ok .variant
  recurse_variant : sub'.recurse = .ok variant
  valueType : variant.getCurrentType = firstTypeInSignature (.ofBytes f.sig) 0
  valuePos : variant.valuePos = f.valuePos

theorem FieldsReader.element (h : FieldsReader o s len p v) (hlt : p < firstFieldOffset + len)
    (hm : Readable s.str 0 e) (he : e ≤ s.len) (hf : FieldAt o s.str e N p f) :
    ∃ sub sub' variant, ElementReaders f v sub sub' variant := by
  have hmv := hm.mono (Nat.zero_le (alignUp p 8 + 1))
  obtain ⟨cs, hcs, -, -, t, al, ht, -, -, -, hle, -⟩ := (variantStart_iff hmv).1 hf.start
  rw [length_sigBytes] at hle
  obtain ⟨sub, hsb, htr, hps⟩ := (h.beside hlt he).recurse_struct rfl fieldTypes_recurse
  rw [h.valuePos] at hps
  -- the code is one byte
  have hcd : validateValue o s.str e (validateBodyHelper o s.str e 0) 0 codeTypes sub.valuePos
      (.basic (.fixed .byte)) = .ok (alignUp p 8 + 1) := by rw [hps]; rfl
  have hb : sub.valueStr.getByte sub.valuePos = .ok f.code := by
    refine DBusString.getByte_of ?_ ?_
    · have := htr.len_le; omega
    · rw [htr.str, hps]; exact hf.code
  obtain ⟨sub', hnx, htr', hps'⟩ := skips hm 0 htr rfl nofun hcd (by omega) codeTypes_next
    (sub.typeStr.len + sub.valueStr.len + 1) (by omega)
  have hst := hf.start
  rw [← hps'] at hst
  obtain ⟨variant, hvr, htc, hp⟩ := htr'.recurse_variant hm rfl hst
  refine ⟨sub, sub', variant, hsb, htr.getCurrentType rfl,
    readNumber_byte htr.values (htr.getCurrentType rfl) hb, hnx,
    htr'.getCurrentType rfl, hvr, ?_, hp⟩
  rw [hcs, ht]
  refine htc.getCurrentType ?_
  rw [getCurrentType_initTypesOnly, hcs, ht]

theorem FieldsReader.next (h : FieldsReader o s len p v) (har : FieldsArray o s len)
    (hlt : p < firstFieldOffset + len) (hm : Readable s.str 0 e) (he : e ≤ s.len)
    (hf : FieldAt o s.str e N p f) (hN : N ≤ headerSignature.length + s.len)
    (hst : f.stop ≤ firstFieldOffset + len) :
    ∃ more v', v.next = .ok (more, v') ∧ FieldsReader o s len f.stop v' := by
  have hp := hf.lt hm
  have hal := le_alignUp (n := p) (show 0 < 8 by decide)
  have hge := h.ge
  have hcr := h.getCurrentType har
  rw [if_pos hlt] at hcr
  obtain ⟨n, hn, hvl⟩ := hf.element
  obtain ⟨r, hr⟩ := fieldTypes_skip
  have hvl' : validateStruct s.str e (validateBodyHelper o s.str e n) fieldTypes v.valuePos =
      .ok f.stop := by rw [h.valuePos]; exact hvl
  obtain ⟨w, hsk, -, hw⟩ := (h.beside hlt he).skip_struct (fun i _ => skips hm i)
    (k := headerSignature.length + s.len) rfl hvl' hr (by omega)
  have hvt : v.valuePos < v.startPos + len := by rw [h.valuePos, h.startPos]; exact hlt
  have hvg : v.valuePos ≥ v.startPos := by rw [h.valuePos, h.startPos]; exact hge
  have hend : f.stop ≤ v.startPos + len := by rw [h.startPos]; exact hst
  have hty : firstTypeInSignature v.typeStr v.typePos = .ok (.struct .struct) := by
    rw [h.typeStr, h.typePos hlt]; rfl
  have hnt : typeSignatureNext v.typeStr v.typePos = .ok 11 := by
    rw [h.typeStr, h.typePos hlt]; rfl
  -- the reader behind the element, whatever its type position is
  have hmv : ∀ tp, (f.stop < firstFieldOffset + len → tp = 7) →
      FieldsReader o s len f.stop { v with valuePos := f.stop, typePos := tp } := fun tp htp =>
    { h with typePos := htp, valuePos := rfl, ge := by omega, le := hst }
  obtain ⟨v', hv', hr'⟩ : ∃ v', v.arrayNext
      (readerNext (headerSignature.length + s.len)) (headerSignature.length + s.len)
      (.struct .struct) = .ok v' ∧ FieldsReader o s len f.stop v' := by
    rw [arrayNext, h.arrayLen har, ok_bind]
    dsimp only
    rw [assert_bind hvt, assert_bind hvg, hty, ok_bind, skipElement,
      hsk, ok_bind, pure_eq_ok, ok_bind, hw, assert_bind hend]
    split
    · next heq =>
      rw [hnt, ok_bind]
      exact ⟨_, rfl, hmv 11 fun hlt => by rw [h.startPos] at heq; omega⟩
    · exact ⟨_, rfl, hmv v.typePos fun _ => h.typePos hlt⟩
  have hfl : v.typeStr.len + v.valueStr.len + 1 = headerSignature.length + s.len + 1 := by
    rw [h.typeStr, h.valueStr]; rfl
  refine ⟨(if f.stop < firstFieldOffset + len then TypeCode.struct .struct else .invalid) !=
    .invalid, v', ?_, hr'⟩
  rw [TypeReader.next, hfl, TypeReader.readerNext, hcr, ok_bind, if_neg (by simp),
    classNext, h.klass]
  simp [hv', ok_bind, hr'.getCurrentType har, ok_bind]

end

/-! ## Loading the fields -/

def RawField.reader (f : RawField) : TypeReader :=
  { initTypesOnly (.ofBytes f.sig) 0 with valuePos := f.valuePos }

/-- What the loop of `_dbus_header_load` does with a field. -/
def loadRaw (h : DBusHeader) (f : RawField) : Res DBusHeader := do
  require (f.code.toNat ≠ 0) .invalidHeaderFieldCode
  match HeaderField.ofCode f.code.toNat with
  | none => return h
  | some field => loadAndValidateField h field f.reader

section
variable {h : DBusHeader}

theorem RawField.reader_getCurrentType (f : RawField) :
    f.reader.getCurrentType = firstTypeInSignature (.ofBytes f.sig) 0 :=
  getCurrentType_initTypesOnly _ _

theorem loadAndValidateField_eq {field : HeaderField} {r r' : TypeReader}
    (ht : r.getCurrentType = r'.getCurrentType) (hp : r.valuePos = r'.valuePos) :
    loadAndValidateField h field r = loadAndValidateField h field r' := by
  unfold loadAndValidateField DBusHeader.cacheOne
  rw [ht, hp]

theorem loadField_eq (hv : FieldsReader o s len p v) (har : FieldsArray o s len)
    (hlt : p < firstFieldOffset + len) (hm : Readable s.str 0 e) (he : e ≤ s.len)
    (hf : FieldAt o s.str e N p f) : loadField h v = loadRaw h f := by
  obtain ⟨sub, sub', variant, hel⟩ := hv.element hlt hm he hf
  have hcr := hv.getCurrentType har
  rw [if_pos hlt] at hcr
  rw [loadField, hcr, ok_bind, assert_bind rfl, hel.recurse, ok_bind, hel.codeType, ok_bind,
    assert_bind rfl, hel.code, ok_bind, hel.next, ok_bind]
  dsimp only
  rw [loadRaw]
  refine congrArg _ (funext fun _ => ?_)
  cases HeaderField.ofCode f.code.toNat with
  | none => rfl
  | some field =>
    dsimp only
    rw [hel.variantType, ok_bind, assert_bind rfl, hel.recurse_variant, ok_bind]
    refine loadAndValidateField_eq (hel.valueType.trans f.reader_getCurrentType.symm) ?_
    rw [hel.valuePos]
    rfl

theorem loadFields_eq {fs : List RawField} (har : FieldsArray o s len) (hm : Readable s.str 0 e)
    (he : e ≤ s.len) (hN : N ≤ headerSignature.length + s.len)
    (hfs : FieldsAt o s.str e N (firstFieldOffset + len) p fs) (hv : FieldsReader o s len p v)
    {k : ℕ} (hk : firstFieldOffset + len - p < k) : loadFields k h v = fs.foldlM loadRaw h := by
  induction hfs generalizing v k h with
  | nil =>
    obtain _ | k := k
    · omega
    simp [loadFields, hv.getCurrentType har, ok_bind]
  | @cons p f fs hlt hf hfs ih =>
    obtain _ | k := k
    · omega
    have hcr := hv.getCurrentType har
    rw [if_pos hlt] at hcr
    obtain ⟨more, v', hnx, hv'⟩ := hv.next har hlt hm he hf hN hfs.le
    have hp := hf.lt hm
    have hal := le_alignUp (n := p) (show 0 < 8 by decide)
    rw [loadFields, hcr, ok_bind, if_neg nofun, loadField_eq hv har hlt hm he hf,
      List.foldlM_cons]
    refine congrArg _ (funext fun h' => ?_)
    rw [hnx, ok_bind]
    exact ih hv' (by omega)

end

end DBus
