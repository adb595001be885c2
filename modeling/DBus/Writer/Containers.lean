/-
  Recursing into arrays and variants with the writer.

  Recursing into an array leaves a length word of zero and the padding before the first
  element (`ArrayOpened`).  Unrecursing replaces the length word (`unrecurse_array_eq`),
  wherever the elements came from; `appendArray` opens an array that is already there.
-/
import DBus.Writer.Steps

namespace DBus

open Outcome Memory Align Endian List Value DBusString

namespace TypeWriter

variable {w sub : TypeWriter} {b : Buffers} {e : Ty} {xs cs ys : List UInt8}

theorem containedLen_sig (t : Ty) : containedLen (some (.ofBytes t.sig, 0)) = .ok t.sig.length := by
  simp [containedLen, typeSignatureNext_sig (textAt_ofBytes t.sig), ok_bind]

/-! ## The types of an array -/

theorem equalSubstring_eq {s s' : DBusString} {p p' : ℕ} (h : Holds s.str p cs)
    (hl : p + cs.length ≤ s.len) (h' : Holds s'.str p' cs) (hl' : p' + cs.length ≤ s'.len) :
    equalSubstring s p cs.length s' p' = .ok true := by
  rw [equalSubstring, assert_bind (by omega), assert_bind (by omega),
    assert_bind (by omega), if_neg (by omega), readN_eq_some.2 ⟨rfl, h⟩,
    readN_eq_some.2 ⟨rfl, h'⟩, valueOr_some, ok_bind, ok_bind, beq_self_eq_true]
  rfl

theorem checkElementType_eq (h : TypesReady w b (Ty.array e).sig) :
    w.checkElementType (.ofBytes e.sig) 0 e.sig.length b = .ok () := by
  unfold checkElementType
  split
  · next hc =>
    obtain ⟨hcn, hst⟩ := hc
    cases h with
    | insert str exp pos room level =>
      rw [hcn] at level
      exact absurd level Bool.false_ne_true
    | expect str exp text elem =>
      rw [Ty.sig] at text
      have hlen := length_of_holds text
      rw [length_cons] at hlen
      have hsm : equalSubstring (.ofBytes e.sig) 0 e.sig.length (b.text w.typeStr)
          (w.elementTypePos + 1) = .ok true := by
        rw [Buffers.text_eq hst, elem hcn]
        refine equalSubstring_eq (holds_append.1 (holds_ofBytes e.sig)).1 (by simp [ofBytes])
          (holds_ofList_grow [0] (holds_cons.1 text).2) ?_
        change w.typePos + 1 + e.sig.length ≤ (b.bytes w.typeStr).length
        omega
      rw [hsm, ok_bind, assert_of rfl]
  · rfl

theorem writeArrayType_eq (h : Ready w b (Ty.array e).sig) (hs : sub.typeStr = w.typeStr)
    (hp : sub.elementTypePos = w.typePos + 1) :
    w.writeArrayType sub (.ofBytes e.sig) 0 e.sig.length b =
      .ok { b with types := if w.typePosIsExpectation then b.types
        else b.types ++ (Ty.array e).sig } := by
  have hal := allocTypeSpace_eq h
  rw [Ty.sig, length_cons, Nat.add_comm] at hal
  unfold writeArrayType
  split
  · next hex =>
    cases h.types with
    | insert str exp pos room level =>
      rw [Ty.sig, length_cons] at room
      obtain ⟨types, hi, hap⟩ := exists_of_room
        (stringInsertByte_sat (c := TypeCode.toByte .array) pos (by omega)) (by omega)
      have hcp : Sat (stringCopyLen (.ofBytes e.sig) 0 e.sig.length types sub.elementTypePos)
          _ _ := stringCopyLen_sat (by rw [hp, pos, hap.length]; rfl) hap.2
            (by simp [ofBytes]) (holds_append.1 (holds_ofBytes e.sig)).1 rfl
      obtain ⟨types', hcp, hap'⟩ := exists_of_room hcp (by rw [hap.length, length_singleton]; omega)
      rw [hal hex, ok_bind, hex, if_neg Bool.false_ne_true, insertTypecode, hs, str]
      simp only [hi, ok_bind, pure_eq_ok, preallocated_ok, hcp]
      rw [(hap.trans hap').1, Ty.sig, singleton_append]
    | expect str exp text elem => rw [hex] at exp; exact absurd exp Bool.false_ne_true
  · next hex => rw [Bool.not_eq_false] at hex; rw [hex, if_pos rfl]

/-! ## The values of an array -/

theorem alignUp_le_add_four {n a : ℕ} (h4 : 4 ∣ n) (ha : a ∣ 8) : alignUp n a ≤ n + 4 := by
  have hp : 0 < a := Nat.pos_of_dvd_of_pos ha (by decide)
  by_cases h8 : 8 ∣ n
  · rw [alignUp_of_dvd (Nat.dvd_trans ha h8)]
    omega
  · exact alignUp_le hp (Nat.dvd_trans ha (by omega)) (Nat.le_add_right n 4)

section
variable (sub : TypeWriter) (b : Buffers)

theorem padArray_ok {a : ℕ} (ha : 0 < a) (hp : sub.valuePos = b.values.length)
    (hr : alignUp b.values.length a ≤ stringMaxMaxLength) : ∃ values, sub.padArray a false b =
        .ok ({ sub with valuePos := values.length }, { b with values := values }) ∧
      Appended b.values (pad b.values.length a) values := by
  obtain ⟨values, hi, hap, hlen⟩ := insertPadding_ok b.values ha hr
  refine ⟨values, ?_, hap⟩
  simp only [padArray, hp]
  split
  · rw [if_neg Bool.false_ne_true, hi, preallocated_ok, ok_bind, hlen]
    rfl
  · next heq =>
    -- no padding: the values stay as they are
    have hvl : values = b.values := by
      rw [hap.1, pad, padding, not_not.1 heq, Nat.sub_self]
      simp
    rw [hvl, ← hp]

theorem startArray_ok (e : Ty) (he : sub.enabled = true) (hp : sub.valuePos = b.values.length)
    (hr : b.values.length + 11 ≤ stringMaxMaxLength) :
    ∃ values, sub.startArray (.ofBytes e.sig) 0 false b = .ok ({ sub with
          valuePos := values.length
          lenPos := some (alignUp b.values.length 4)
          startPos := values.length }, { b with values := values }) ∧
      Appended b.values (pad b.values.length 4 ++ (toBytes sub.byteOrder 4 0 ++
        pad (alignUp b.values.length 4 + 4) e.alignment)) values := by
  have hlt := alignUp_lt (n := b.values.length) (show 0 < 4 by decide)
  have hst : Sat (marshalWriteBasic b.values sub.valuePos (.basic (.fixed .uint32)) (.num 0)
      sub.byteOrder) _ _ := marshalWriteBasic_fixed_sat hp (by omega) .uint32
  have hen : (fixed .uint32 0).encode sub.byteOrder b.values.length =
      pad b.values.length 4 ++ toBytes sub.byteOrder 4 0 := rfl
  rw [hen] at hst
  obtain ⟨out, hlen, ho⟩ := exists_of_room hst (by
    rw [length_append, length_pad, length_toBytes, padding]
    omega)
  obtain ⟨values1, rfl, hap1⟩ := ho.exists_eq
  have hln1 : values1.length = alignUp b.values.length 4 + 4 := by
    rw [hap1.length, length_append, length_pad, length_toBytes, ← Nat.add_assoc,
      add_padding (by decide)]
  have hal : alignUp values1.length e.alignment ≤ values1.length + 4 :=
    alignUp_le_add_four (by rw [hln1]; exact (Nat.dvd_add_right dvd_alignUp).2 (Nat.dvd_refl 4))
      e.alignment_dvd_eight
  obtain ⟨values, hpd, hap⟩ := padArray_ok { sub with valuePos := values1.length }
    { b with values := values1 } e.alignment_pos rfl (by simp only; omega)
  change Appended values1 (pad values1.length e.alignment) values at hap
  have hl := hap.length
  have hw : sub.writeArrayLen false b =
      .ok ({ sub with valuePos := values1.length }, { b with values := values1 }) := by
    rw [writeArrayLen, if_neg Bool.false_ne_true, writeBasicNoTypecode, if_pos he, hlen]
    rfl
  refine ⟨values, ?_, ?_⟩
  · simp only [startArray, hw, ok_bind, hp]
    rw [assert_bind hln1.symm, elementTypeGetAlignment_sig (textAt_ofBytes e.sig), ok_bind,
      hpd, ok_bind]
    simp only
    rw [assert_bind (by omega), if_neg Bool.false_ne_true]
    rfl
  · have hap' := hap1.trans hap
    rw [append_assoc, hln1] at hap'
    exact hap'

end

/-- An array was opened at the end of the values. -/
structure ArrayOpened (w : TypeWriter) (b : Buffers) (e : Ty) (w' sub : TypeWriter)
    (b' : Buffers) : Prop where
  parent : Wrote w b (Ty.array e).sig (pad b.values.length 4 ++ (toBytes w.byteOrder 4 0 ++
    pad (alignUp b.values.length 4 + 4) e.alignment))
    { w' with valuePos := b'.values.length } b'
  ready : Ready sub b' e.sig
  containerType : sub.containerType = .array
  expectation : sub.typePosIsExpectation = true
  byteOrder : sub.byteOrder = w.byteOrder
  lenPos : sub.lenPos = some (alignUp b.values.length 4)
  startPos : sub.startPos = b'.values.length

theorem skipArrayType_eq (h : TypesReady w b cs) (n : ℕ) : w.skipArrayType n = .ok { w with
      typePos := if w.containerType = .array then w.typePos else w.typePos + (1 + n) } := by
  rw [skipArrayType, if_neg (h.typeStr_ne_null)]
  by_cases ha : w.containerType = .array
  · have hex : w.typePosIsExpectation = true := by
      cases h with
      | insert str exp pos room level =>
        rw [ha] at level
        exact absurd level Bool.false_ne_true
      | expect str exp text elem => exact exp
    simp [if_neg (not_not.2 ha), if_pos ha, assert_of hex]
  · rw [if_pos ha, if_neg ha]

section
variable (w : TypeWriter)

/-- A sub-writer for an array, at the element type. -/
def elementSub : TypeWriter :=
  { w.subInit .array with typePos := w.typePos + 1, elementTypePos := w.typePos + 1 }

def arrayTypes (b : Buffers) (e : Ty) : Buffers :=
  { b with types := if w.typePosIsExpectation then b.types else b.types ++ (Ty.array e).sig }

theorem elementSub_expectation : w.elementSub.typePosIsExpectation = true := by
  simp [elementSub, subInit]

end

theorem ready_elementSub {values : List UInt8} (h : Ready w b (Ty.array e).sig)
    (hv : Appended b.values xs values) (lenPos : Option ℕ) (startPos : ℕ) :
    Ready { w.elementSub with valuePos := values.length, lenPos := lenPos, startPos := startPos }
      { w.arrayTypes b e with values := values } e.sig := by
  refine ⟨h.enabled, rfl, hv.2, ?_⟩
  have hst : w.typeStr ≠ .null := h.types.typeStr_ne_null
  refine .expect hst w.elementSub_expectation ?_ fun _ => rfl
  cases h.types with
  | insert str exp pos room level =>
    have htx : Holds (ofList (b.types ++ (Ty.array e).sig)) b.types.length
      (TypeCode.toByte .array :: e.sig) := holds_ofList_right
    change Holds (ofList (Buffers.bytes _ w.typeStr)) (w.typePos + 1) e.sig
    rw [str, Buffers.bytes, arrayTypes, exp, if_neg Bool.false_ne_true, pos]
    exact (holds_cons.1 htx).2
  | expect str exp text elem =>
    rw [Ty.sig] at text
    have hg : ∃ zs, Buffers.bytes { w.arrayTypes b e with values := values } w.typeStr =
        b.bytes w.typeStr ++ zs := by
      cases w.typeStr with
      | null => exact ⟨[], rfl⟩
      | types => exact ⟨[], by rw [Buffers.bytes, arrayTypes, exp, if_pos rfl, append_nil]; rfl⟩
      | values => exact ⟨xs, hv.1⟩
    obtain ⟨zs, hzs⟩ := hg
    change Holds (ofList (Buffers.bytes _ w.typeStr)) (w.typePos + 1) e.sig
    rw [hzs]
    exact holds_ofList_grow zs (holds_cons.1 text).2

theorem recurse_array_sat (h : Ready w b (Ty.array e).sig) :
    Sat (w.recurse .array (some (.ofBytes e.sig, 0)) b)
      (fun out => ArrayOpened w b e out.1 out.2.1 out.2.2) (NoRoom (b.values.length + 11)) := by
  have hi : w.recurseInitAndCheck .array b = .ok (w.subInit .array) := recurseInitAndCheck_eq h.types
  have hty : w.writeArrayType w.elementSub (.ofBytes e.sig) 0 e.sig.length b =
      .ok (w.arrayTypes b e) := writeArrayType_eq h rfl rfl
  rw [recurse, containedLen_sig, ok_bind, recurseContainedLen, hi, ok_bind]
  change Sat (w.recurseArray (w.subInit .array) (.ofBytes e.sig) 0 e.sig.length false b) _ _
  rw [recurseArray, checkElementType_eq h.types, ok_bind]
  refine (callIf_sat fun _ => stringAllocSpace_sat h.values_le).bind fun _ hrm => ?_
  simp only [if_pos h.types.typeStr_ne_null]
  change Sat (w.writeArrayType w.elementSub (.ofBytes e.sig) 0 e.sig.length b >>= _) _ _
  rw [hty, ok_bind, skipArrayType_eq h.types, ok_bind, if_pos h.enabled]
  obtain ⟨values, hst, hap⟩ := startArray_ok w.elementSub (w.arrayTypes b e) e h.enabled
    h.valuePos (hrm ⟨h.enabled, rfl⟩)
  change Sat (w.elementSub.startArray (.ofBytes e.sig) 0 false (w.arrayTypes b e) >>= _) _ _
  rw [hst]
  refine ⟨⟨hap, rfl, rfl, fun ha => if_pos ha, fun hs => ?_⟩, ?_, rfl, ?_, rfl, rfl, rfl⟩
  · have ha : w.containerType ≠ .array := fun ha => by
      rw [ha] at hs
      exact absurd hs Bool.false_ne_true
    simp only [if_neg ha, Ty.sig, length_cons, Nat.add_comm 1]
  · exact ready_elementSub h hap _ _
  · exact w.elementSub_expectation

theorem marshalSetUint32_eq {old : List UInt8} {n : ℕ} {o : ByteOrder} (h : old.length = 4) :
    marshalSetUint32 (xs ++ (old ++ ys)) xs.length n o = .ok (xs ++ (toBytes o 4 n ++ ys)) := by
  have hdr : (xs ++ (old ++ ys)).drop (xs.length + 4) = ys := by
    rw [← h, ← length_append, ← append_assoc, drop_left]
  have hlen : (xs ++ (old ++ ys)).length = xs.length + (4 + ys.length) := by
    rw [length_append, length_append, h]
  rw [marshalSetUint32, hdr, take_left, getConstDataLen, ofBytes]
  simp only
  rw [assert_bind (by omega), assert_bind (by omega)]
  rfl

theorem unrecurse_array_eq {old ps : List UInt8} (hc : sub.containerType = .array)
    (hex : sub.typePosIsExpectation = true) (hl : sub.lenPos = some xs.length)
    (ho : old.length = 4) (hs : sub.startPos = (xs ++ (old ++ ps)).length)
    (hv : b.values = xs ++ (old ++ (ps ++ ys))) (hp : sub.valuePos = b.values.length) :
    w.unrecurse sub b = .ok ({ w with valuePos := b.values.length },
      { b with values := xs ++ (toBytes sub.byteOrder 4 ys.length ++ (ps ++ ys)) }) := by
  have hlen : sub.valuePos - sub.startPos = ys.length := by
    rw [hp, hs, hv]
    simp only [length_append]
    omega
  have hcl : sub.closeContainer b =
      .ok (sub, { b with values := xs ++ (toBytes sub.byteOrder 4 ys.length ++ (ps ++ ys)) }) := by
    rw [closeContainer, hc, hl]
    simp only [hlen]
    simp [hv, marshalSetUint32_eq ho]
  have had : w.advancesParent sub = false := by rw [advancesParent, hc]
  have har : w.typePosIsExpectation = false ∨
      w.typePosIsExpectation = true ∧ sub.typePosIsExpectation = true := by
    rw [hex]
    cases w.typePosIsExpectation <;> simp
  rw [unrecurse, assert_bind har, hcl, ok_bind]
  simp only
  rw [if_neg (by rw [had]; exact fun h => absurd h.2 Bool.false_ne_true), hp]
  rfl

theorem ArrayOpened.close {w' sub' : TypeWriter} {b' b'' : Buffers} {ds : List UInt8}
    (h : ArrayOpened w b e w' sub b') (hw : Wrote sub b' ds ys sub' b'') :
    ∃ w'' b3, w'.unrecurse sub' b'' = .ok (w'', b3) ∧
      Wrote w b (Ty.array e).sig (pad b.values.length 4 ++ (toBytes w.byteOrder 4 ys.length ++
        (pad (alignUp b.values.length 4 + 4) e.alignment ++ ys))) w'' b3 := by
  have hvl : b''.values = (b.values ++ pad b.values.length 4) ++ (toBytes w.byteOrder 4 0 ++
      (pad (alignUp b.values.length 4 + 4) e.alignment ++ ys)) := by
    rw [hw.values.1, h.parent.values.1]
    simp only [append_assoc]
  have hst : sub'.startPos = ((b.values ++ pad b.values.length 4) ++ (toBytes w.byteOrder 4 0 ++
        pad (alignUp b.values.length 4 + 4) e.alignment)).length := by
    rw [hw.startPos, h.startPos, h.parent.values.1, append_assoc]
  have hlp : sub'.lenPos = some (b.values ++ pad b.values.length 4).length := by
    rw [hw.lenPos, h.lenPos, length_append, length_pad, add_padding (by decide)]
  have hun := unrecurse_array_eq (w := w') (hw.containerType.trans h.containerType)
    (hw.expectation.trans h.expectation) hlp (length_toBytes ..) hst hvl hw.valuePos
  rw [hw.byteOrder, h.byteOrder, append_assoc] at hun
  refine ⟨_, _, hun, ⟨rfl, ?_⟩, ?_, ?_, h.parent.typePos_element, h.parent.typePos_sequence⟩
  · have hle := hw.values.2
    rw [hvl] at hle
    simpa using hle
  · have hty := hw.types
    rw [h.expectation, if_pos rfl] at hty
    exact hty.trans h.parent.types
  · have hlen : b''.values.length = (b.values ++ (pad b.values.length 4 ++
        (toBytes w.byteOrder 4 ys.length ++
          (pad (alignUp b.values.length 4 + 4) e.alignment ++ ys)))).length := by
      rw [hvl]
      simp
    simp only [← hlen]
    exact congrArg (fun v : TypeWriter => { v with valuePos := b''.values.length }) h.parent.writer

theorem startArray_append_eq (hv : b.values = xs ++ (toBytes sub.byteOrder 4
      ys.length ++ (pad (xs.length + 4) e.alignment ++ ys)))
    (hp : sub.valuePos = xs.length) (h4 : 4 ∣ xs.length) (hys : ys.length < 2 ^ 32) :
    sub.startArray (.ofBytes e.sig) 0 true b = .ok ({ sub with
      valuePos := b.values.length
      lenPos := some xs.length
      startPos := alignUp (xs.length + 4) e.alignment }, b) := by
  have hlt : xs.length + 4 ≤ alignUp (xs.length + 4) e.alignment := le_alignUp e.alignment_pos
  have hlen : b.values.length = alignUp (xs.length + 4) e.alignment + ys.length := by
    rw [hv, ← add_padding e.alignment_pos]
    simp only [length_append, length_toBytes, length_pad]
    omega
  have hpd : padArray { sub with valuePos := xs.length + 4 } e.alignment true b =
      .ok ({ sub with valuePos := alignUp (xs.length + 4) e.alignment }, b) := by
    simp only [padArray]
    split
    · rfl
    · next heq => rw [not_not.1 heq]
  have hw : unpackUint32 sub.byteOrder (ofBytes b.values).str xs.length = .ok ys.length := by
    refine unpackUint32_toBytes h4 hys ?_
    have hh := (holds_append.1 (holds_ofBytes b.values)).1
    rw [hv, holds_append, holds_append, Nat.zero_add] at hh
    rw [hv]
    exact hh.2.1
  have hsk : skipElements { sub with
      valuePos := alignUp (xs.length + 4) e.alignment
      lenPos := some xs.length
      startPos := alignUp (xs.length + 4) e.alignment } xs.length b = .ok { sub with
      valuePos := b.values.length
      lenPos := some xs.length
      startPos := alignUp (xs.length + 4) e.alignment } := by
    have hl : (ofBytes b.values).len = b.values.length := rfl
    rw [skipElements, assert_bind (alignUp_of_dvd h4), getConstDataLen,
      assert_bind (by omega), assert_bind (by omega)]
    simp only [hw, ok_bind, hlen, pure_eq_ok]
  simp only [startArray, writeArrayLen, hp, alignUp_of_dvd h4, if_true, ok_bind, assert_true]
  rw [elementTypeGetAlignment_sig (textAt_ofBytes e.sig), ok_bind, hpd, ok_bind]
  simp only
  rw [assert_bind (by omega), hsk]
  rfl

theorem appendArray_eq (h : TypesReady w b (Ty.array e).sig)
    (hen : w.enabled = true) (hex : w.typePosIsExpectation = true)
    (hv : b.values = xs ++ (toBytes w.byteOrder 4 ys.length ++
      (pad (xs.length + 4) e.alignment ++ ys)))
    (hp : w.valuePos = xs.length) (h4 : 4 ∣ xs.length) (hys : ys.length < 2 ^ 32) :
    ∃ w', w.appendArray (some (.ofBytes e.sig, 0)) b = .ok (w', { w.elementSub with
      valuePos := b.values.length
      lenPos := some xs.length
      startPos := alignUp (xs.length + 4) e.alignment }, b) := by
  have hi : w.recurseInitAndCheck .array b = .ok (w.subInit .array) := recurseInitAndCheck_eq h
  have hst : w.elementSub.startArray (.ofBytes e.sig) 0 true b = _ :=
    startArray_append_eq hv hp h4 hys
  refine ⟨{ w with typePos :=
    if w.containerType = .array then w.typePos else w.typePos + (1 + e.sig.length) }, ?_⟩
  rw [appendArray, containedLen_sig, ok_bind, recurseContainedLen, hi, ok_bind]
  change w.recurseArray (w.subInit .array) (.ofBytes e.sig) 0 e.sig.length true b = _
  rw [recurseArray, checkElementType_eq h, ok_bind, callIf,
    if_neg (fun hc => absurd hc.2 (by simp)), ok_bind]
  simp only [if_pos h.typeStr_ne_null]
  rw [writeArrayType, if_neg (by rw [hex]; rintro ⟨⟩), ok_bind, skipArrayType_eq h, ok_bind]
  simp only
  rw [if_pos hen]
  change w.elementSub.startArray (.ofBytes e.sig) 0 true b >>= _ = _
  simp [hst]

/-! ## Variants -/

/-- A variant was opened at the end of the values. -/
structure VariantOpened (w : TypeWriter) (b : Buffers) (t : Ty) (w' sub : TypeWriter)
    (b' : Buffers) : Prop where
  parent : Wrote w b Ty.variant.sig (sigBytes t.sig ++
    pad (b.values.length + (sigBytes t.sig).length) t.alignment)
    { w' with valuePos := b'.values.length } b'
  ready : Ready sub b' t.sig
  containerType : sub.containerType = .variant
  expectation : sub.typePosIsExpectation = true
  byteOrder : sub.byteOrder = w.byteOrder

theorem writeVariantSignature_ok {bs : List UInt8} (t : Ty)
    (hr : bs.length + (t.sig.length + 9) ≤ stringMaxMaxLength) :
    ∃ new, writeVariantSignature bs bs.length (.ofBytes t.sig) 0 t.sig.length =
        .ok (new, new.length) ∧
      Appended bs (sigBytes t.sig ++
        pad (bs.length + (sigBytes t.sig).length) t.alignment) new := by
  have hb : Sat (stringInsertByte bs bs.length (UInt8.ofNat t.sig.length)) _ _ :=
    stringInsertByte_sat rfl (by omega)
  obtain ⟨v1, h1, a1⟩ := exists_of_room hb (by omega)
  have l1 := a1.length
  rw [length_singleton] at l1
  have hcp := stringCopyLen_sat l1.symm a1.2 (by simp [ofBytes])
    (holds_append.1 (holds_ofBytes t.sig)).1 rfl
  obtain ⟨v2, h2, a2⟩ := exists_of_room hcp (by omega)
  have l2 := a2.length
  rw [l1] at l2
  have hnl : Sat (stringInsertByte v2 (bs.length + 1 + t.sig.length) (TypeCode.toByte .invalid))
      _ _ := stringInsertByte_sat l2.symm a2.2
  obtain ⟨v3, h3, a3⟩ := exists_of_room hnl (by omega)
  have l3 := a3.length
  rw [l2, length_singleton] at l3
  obtain ⟨v4, h4, a4, l4⟩ := insertPadding_ok v3 t.alignment_pos (by
    have := alignUp_lt (n := v3.length) t.alignment_pos
    have := Nat.le_of_dvd (by decide) t.alignment_dvd_eight
    omega)
  rw [l3] at h4 l4
  rw [l4] at h4
  refine ⟨v4, ?_, ?_⟩
  · simp only [writeVariantSignature, h1, h2, h3, preallocated_ok, ok_bind,
      firstTypeInSignature_sig (textAt_ofBytes t.sig), t.getAlignment_code, l4, h4, pure_eq_ok]
  · have hap := ((a1.trans a2).trans a3).trans a4
    have hsg : ([UInt8.ofNat t.sig.length] ++ t.sig) ++ [TypeCode.toByte .invalid] =
        sigBytes t.sig := rfl
    rw [hsg, l3] at hap
    rw [length_sigBytes,
      show bs.length + (t.sig.length + 2) = bs.length + 1 + t.sig.length + 1 by omega]
    exact hap

theorem recurse_variant_sat (t : Ty) (h : Ready w b Ty.variant.sig) :
    Sat (w.recurse .variant (some (.ofBytes t.sig, 0)) b)
      (fun out => VariantOpened w b t out.1 out.2.1 out.2.2)
      (NoRoom (b.values.length + (t.sig.length + 9))) := by
  have hi : w.recurseInitAndCheck .variant b = .ok (w.subInit .variant) :=
    recurseInitAndCheck_eq h.types
  obtain ⟨w1, b1, hcd, hw⟩ := writeOrVerifyTypecode_ok h
  have hvl : b1.values = b.values := by rw [hw.values.1, append_nil]
  have hen : w1.enabled = true := by rw [hw.writer]; exact h.enabled
  have hex : (w.subInit .variant).typePosIsExpectation = true := by simp [subInit]
  rw [recurse, containedLen_sig, ok_bind, recurseContainedLen, hi, ok_bind]
  change Sat (w.recurseVariant (w.subInit .variant) (.ofBytes t.sig) 0 t.sig.length b) _ _
  rw [recurseVariant]
  refine (callIf_sat fun _ => stringAllocSpace_sat h.values_le).bind fun _ hrm => ?_
  obtain ⟨new, hnw, hap⟩ := writeVariantSignature_ok t (hrm h.enabled)
  rw [hcd, ok_bind]
  simp only
  rw [if_pos hen, hvl]
  change Sat (writeVariantSignature b.values w.valuePos _ _ _ >>= _) _ _
  rw [h.valuePos, hnw, ok_bind]
  refine ⟨?_, ⟨h.enabled, rfl, hap.2, .expect (by rintro ⟨⟩) hex ?_ (by rintro ⟨⟩)⟩, rfl, hex, rfl⟩
  · rw [← hvl] at hap
    have hal := hw.trans (wrote_append hap)
    rw [append_nil, nil_append, hvl] at hal
    exact hal
  · change Holds (ofList new) (w.valuePos + 1) t.sig
    have htx : Holds (ofList new) b.values.length (sigBytes t.sig) := by
      rw [hap.1]
      exact holds_ofList_append _
    rw [h.valuePos]
    exact (holds_append.1 (holds_cons.1 htx).2).1

theorem VariantOpened.close {t : Ty} {w' sub' : TypeWriter} {b' b'' : Buffers} {ds : List UInt8}
    (h : VariantOpened w b t w' sub b') (hw : Wrote sub b' ds ys sub' b'') :
    ∃ w'', w'.unrecurse sub' b'' = .ok (w'', b'') ∧ Wrote w b Ty.variant.sig ((sigBytes t.sig ++
        pad (b.values.length + (sigBytes t.sig).length) t.alignment) ++ ys) w'' b'' := by
  have hc := hw.containerType.trans h.containerType
  have hex := hw.expectation.trans h.expectation
  have hcl : sub'.closeContainer b'' = .ok (sub', b'') := by rw [closeContainer, hc]
  have had : w'.advancesParent sub' = false := by rw [advancesParent, hc]
  have har : w'.typePosIsExpectation = false ∨
      w'.typePosIsExpectation = true ∧ sub'.typePosIsExpectation = true := by
    rw [hex]
    cases w'.typePosIsExpectation <;> simp
  rw [unrecurse, assert_bind har, hcl, ok_bind]
  simp only
  rw [if_neg (by rw [had]; exact fun h => absurd h.2 Bool.false_ne_true), hw.valuePos]
  refine ⟨_, rfl, h.parent.values.trans hw.values, ?_, ?_, h.parent.typePos_element,
    h.parent.typePos_sequence⟩
  · have hty := hw.types
    rw [h.expectation, if_pos rfl] at hty
    exact hty.trans h.parent.types
  · exact congrArg (fun v : TypeWriter => { v with valuePos := b''.values.length }) h.parent.writer

end TypeWriter

end DBus
