/-
  Moving a value reader to the next value.

  `_dbus_type_reader_next` skips a container by recursing into it; on an encoding
  this ends where the encoding ends (`baseNext_value`), and leaves the reader with
  the rest of the values before it (`ValuesLeft.next`).
-/
import DBus.Reader.Values

namespace DBus

open Outcome Memory Align Value List TypeReader

/-- The reader behind the value `v`. -/
def TypeReader.behindValue (r : TypeReader) (v : Value) : TypeReader :=
  { r with
    typePos := r.typePos + v.ty.sig.length
    valuePos := r.valuePos + (v.encode r.byteOrder r.valuePos).length }

/-- What stays the same when a reader moves along its level, with the new value position. -/
structure Moved (r r' : TypeReader) (valuePos : ℕ) : Prop where
  byteOrder : r'.byteOrder = r.byteOrder
  typeStr : r'.typeStr = r.typeStr
  valueStr : r'.valueStr = r.valueStr
  klass : r'.klass = r.klass
  startPos : r'.startPos = r.startPos
  arrayLenOffset : r'.arrayLenOffset = r.arrayLenOffset
  valuePos : r'.valuePos = valuePos

section
variable {r r' : TypeReader} {v : Value} {vs : List Value} {n : ℕ}

theorem ValuesAt.behind (h : ValuesAt r (v :: vs))
    (hm : Moved r r' (r.valuePos + (v.encode r.byteOrder r.valuePos).length)) : ValuesAt r' vs := by
  obtain ⟨hwf, hh, hle, hsm⟩ := h
  rw [encodeList_cons] at hh hle
  rw [length_append, ← Nat.add_assoc] at hle
  refine ⟨hwf.2, ?_, ?_, hm.valueStr ▸ hsm⟩
  · rw [hm.valueStr, hm.byteOrder, hm.valuePos]
    exact (holds_append.1 hh).2
  · rwa [hm.valueStr, hm.byteOrder, hm.valuePos]

/-- A call of `next` moves the reader over `v` to the values `vs`. -/
abbrev MovesOver (r : TypeReader) (v : Value) (vs : List Value) (x : Res (Bool × TypeReader)) :
    Prop :=
  ∃ r', x = .ok (!vs.isEmpty, r') ∧ ValuesLeft r' vs ∧
    Moved r r' (r.valuePos + (v.encode r.byteOrder r.valuePos).length)

theorem eq_behindValue {p q : ℕ} (hp : p = r.typePos + v.ty.sig.length)
    (hq : q = r.valuePos + (v.encode r.byteOrder r.valuePos).length) :
    ({ r with typePos := p, valuePos := q } : TypeReader) = r.behindValue v := by
  rw [hp, hq]
  rfl

theorem moved_behindValue :
    Moved r (r.behindValue v) (r.valuePos + (v.encode r.byteOrder r.valuePos).length) :=
  ⟨rfl, rfl, rfl, rfl, rfl, rfl, rfl⟩

theorem readerNext_of_classNext (h : AtValue r v)
    (hc : r.classNext (readerNext n) n v.ty.code = .ok r') (h' : ValuesLeft r' vs) :
    readerNext (n + 1) r = .ok (!vs.isEmpty, r') := by
  rw [readerNext, h.current, ok_bind, if_neg v.ty.code_ne_invalid, hc, ok_bind]
  cases vs with
  | nil => simp [h'.getCurrentType_nil]
  | cons w vs => simp [h'.atValue.current, ok_bind, bne_iff_ne.2 w.ty.code_ne_invalid]

theorem ValuesLeft.readerNext_body (h : ValuesLeft r (v :: vs))
    (hk : r.klass = .body false ∨ r.klass = .variant)
    (hb : r.baseNext (readerNext n) n v.ty.code = .ok (r.behindValue v)) :
    readerNext (n + 1) r = .ok (!vs.isEmpty, r.behindValue v) ∧
      ValuesLeft (r.behindValue v) vs := by
  have hl : ValuesLeft (r.behindValue v) vs := by
    cases h with
    | body _ hf hts htx hv =>
      rw [tyList_cons, Ty.formedList, Bool.and_eq_true] at hts
      rw [tyList_cons, Ty.sigList_cons, append_assoc] at htx
      exact .body hk hf hts.2 htx.right (hv.behind moved_behindValue)
    | fields hk' | elements hk' => rcases hk with hk | hk <;> rw [hk] at hk' <;> cases hk'
  refine ⟨readerNext_of_classNext h.atValue ?_ hl, hl⟩
  rw [classNext]
  rcases hk with hk | hk <;> rw [hk] <;> exact hb

/-- Moving along the fields of a struct; behind the last one the reader steps over the bracket. -/
theorem ValuesLeft.readerNext_fields {k : StructKind} (h : ValuesLeft r (v :: vs))
    (hk : r.klass = .struct k false)
    (hb : r.baseNext (readerNext n) n v.ty.code = .ok (r.behindValue v)) :
    ∃ r', readerNext (n + 1) r = .ok (!vs.isEmpty, r') ∧ ValuesLeft r' vs ∧
      Moved r r' (r.valuePos + (v.encode r.byteOrder r.valuePos).length) ∧
      r'.typePos = r.typePos + v.ty.sig.length + if vs.isEmpty then 1 else 0 := by
  cases h with
  | body hk' => rcases hk' with hk' | hk' <;> rw [hk] at hk' <;> cases hk'
  | elements hk' => rw [hk] at hk'; cases hk'
  | @fields k' _ _ x rest hk' hf hts htx hv =>
    obtain rfl : k = k' := by rw [hk] at hk'; cases hk'; rfl
    have hvl := ValuesLeft.atValue (.fields hk' hf hts htx hv)
    rw [tyList_cons, Ty.formedList, Bool.and_eq_true] at hts
    rw [tyList_cons, Ty.sigList_cons, append_assoc] at htx
    have hnx := htx.right
    have hst : r.classNext (readerNext n) n v.ty.code =
        r.structNext k (readerNext n) n v.ty.code := by
      rw [classNext, hk]
    cases vs with
    | nil =>
      let r' := (r.behindValue v).moveTo ((r.behindValue v).typePos + 1) true
      have hcl : r.classNext (readerNext n) n v.ty.code = .ok r' := by
        rw [hst, structNext_eq hb hnx, if_pos (TypeCode.ofByte_endChar k)]
      have hl : ValuesLeft r' [] := .fieldsEnd hk rfl
      exact ⟨r', readerNext_of_classNext hvl hcl hl, hl, ⟨rfl, rfl, rfl, rfl, rfl, rfl, rfl⟩,
        rfl⟩
    | cons w vs =>
      obtain ⟨c, cs, hsg, hc⟩ := w.ty.sig_eq_cons
      have hfr := hnx
      rw [tyList_cons, Ty.sigList_cons, hsg, append_assoc, cons_append] at hfr
      have hcl : r.classNext (readerNext n) n v.ty.code = .ok (r.behindValue v) := by
        rw [hst, structNext_eq hb hfr, if_neg (hc k)]
      have hl : ValuesLeft (r.behindValue v) (w :: vs) :=
        .fields hk hf hts.2 hnx (hv.behind moved_behindValue)
      exact ⟨_, readerNext_of_classNext hvl hcl hl, hl, moved_behindValue, rfl⟩

mutual
/-- **Skipping a value.**  The reader moves behind the type and the encoding of the value. -/
theorem baseNext_value : ∀ (v : Value) {n : ℕ} {r : TypeReader}, AtValue r v →
    v.ty.sig.length + (v.encode r.byteOrder r.valuePos).length ≤ n →
    r.baseNext (readerNext n) n v.ty.code = .ok (r.behindValue v)
  | .fixed f k, n, r, h, _ => by
    simp only [ty, Ty.code, baseNext, h.typesOnly, marshalSkipBasic_fixed (n := k), ok_bind]
    rfl
  | .str s bs, n, r, h, _ => by
    simp only [ty, Ty.code, baseNext, h.typesOnly,
      marshalSkipBasic_str h.wf.1 h.length_lt h.holds h.le, ok_bind]
    rfl
  | .variant v, n, r, h, hn => by
    obtain ⟨sub, hrc, hsb, hsm, hk, -, hp⟩ := h.recurse_variant
    have hend : sub.valuePos + (v.encode sub.byteOrder sub.valuePos).length =
        r.valuePos + ((Value.variant v).encode r.byteOrder r.valuePos).length := by
      rw [hsm.byteOrder, hp, add_length_encode_variant]
    have hlt : v.ty.sig.length + (v.encode sub.byteOrder sub.valuePos).length < n := by
      have hle := le_alignUp (n := r.valuePos + (sigBytes v.ty.sig).length) v.ty.alignment_pos
      rw [← hp, length_sigBytes] at hle
      simp only [ty, Ty.sig, length_singleton] at hn
      omega
    obtain _ | n := n
    · omega
    obtain ⟨hnx, -⟩ := hsb.readerNext_body (.inr hk)
      (baseNext_value v (n := n) hsb.atValue (by omega))
    simp only [baseNext, h.typesOnly, skipContents, hrc, ok_bind,
      skipRest, hnx, isEmpty_nil, Bool.not_true, Bool.false_eq_true, if_false,
      pure_eq_ok]
    exact congrArg Except.ok (eq_behindValue rfl hend)
  | .array e vs, n, r, h, _ => by
    obtain ⟨x, rest, htx⟩ := h.text
    have hnx := typeSignatureNext_sig htx
    rw [ty, Ty.sig, cons_append] at htx
    simp only [baseNext, h.typesOnly, firstTypeInSignature_sig htx.tail,
      ok_bind, marshalSkipArray_eq h.small h.holds h.le, hnx]
    rfl
  | .struct k vs, n, r, h, hn => by
    obtain ⟨sub, hrc, hsb, hsm, hk, -, htp, hp⟩ := h.recurse_struct
    obtain ⟨inArray, hfr⟩ := h.formed
    have hne : vs ≠ [] := fun hnl => (Ty.formed_fields hfr).1 (by rw [hnl]; rfl)
    have hend : sub.valuePos + (encodeList sub.byteOrder sub.valuePos vs).length =
        r.valuePos + ((Value.struct k vs).encode r.byteOrder r.valuePos).length := by
      rw [hsm.byteOrder, hp, add_length_encode_struct]
    have hle := le_alignUp (n := r.valuePos) (show 0 < 8 by decide)
    have hcn := Ty.length_le_sigList (tyList vs)
    rw [length_tyList] at hcn
    simp only [ty, Ty.sig, length_cons, length_append, length_nil] at hn
    obtain ⟨sub', hsk, hty, hvl⟩ := skipRest_fields vs (n := n) (m := n) hsb hne hk
      (by omega) (by omega)
    simp only [baseNext, h.typesOnly, skipContents, hrc, ok_bind, hsk, pure_eq_ok]
    refine congrArg Except.ok (eq_behindValue ?_ (hvl.trans hend))
    rw [hty, htp]
    simp only [ty, Ty.sig, length_cons, length_append, length_nil]
    omega
theorem skipRest_fields : ∀ (vs : List Value) {n m : ℕ} {r : TypeReader} {k : StructKind},
    ValuesLeft r vs → vs ≠ [] → r.klass = .struct k false →
    (Ty.sigList (tyList vs)).length + (encodeList r.byteOrder r.valuePos vs).length < n →
    vs.length ≤ m →
    ∃ r', skipRest (readerNext n) m r = .ok r' ∧
      r'.typePos = r.typePos + (Ty.sigList (tyList vs)).length + 1 ∧
      r'.valuePos = r.valuePos + (encodeList r.byteOrder r.valuePos vs).length
  | [], _, _, _, _, _, hne, _, _, _ => absurd rfl hne
  | v :: vs, n, m, r, k, h, _, hk, hn, hm => by
    obtain _ | n := n
    · omega
    obtain ⟨m, rfl⟩ : ∃ j, m = j + 1 := ⟨m - 1, by simp at hm; omega⟩
    simp only [tyList_cons, Ty.sigList_cons, encodeList_cons, length_append] at hn ⊢
    obtain ⟨r', hnx, hl, hmv, hty⟩ := h.readerNext_fields hk
      (baseNext_value v (n := n) h.atValue (by omega))
    rw [skipRest, hnx, ok_bind]
    cases vs with
    | nil => exact ⟨r', rfl, by simpa using hty, by simpa using hmv.valuePos⟩
    | cons w vs =>
      obtain ⟨r'', hsk, hty', hvl⟩ := skipRest_fields (w :: vs) (n := n + 1) (m := m)
        hl (cons_ne_nil _ _) (hmv.klass.trans hk)
        (by rw [hmv.byteOrder, hmv.valuePos]; omega) (by simpa using hm)
      refine ⟨r'', hsk, ?_, ?_⟩
      · rw [hty', hty]
        simp only [isEmpty_cons, Bool.false_eq_true, if_false]
        omega
      · rw [hvl, hmv.byteOrder, hmv.valuePos, Nat.add_assoc]
end

theorem skipElement_value (h : AtValue r v)
    (hn : v.ty.sig.length + (v.encode r.byteOrder r.valuePos).length ≤ n) :
    r.skipElement (readerNext n) n v.ty.code v.ty.code =
      .ok (r.valuePos + (v.encode r.byteOrder r.valuePos).length) := by
  have hb := baseNext_value v h hn
  cases v with
  | fixed f k => exact marshalSkipBasic_fixed (s := r.valueStr)
  | str s bs => exact marshalSkipBasic_str h.wf.1 h.length_lt h.holds h.le
  | array e vs =>
    obtain ⟨x, rest, htx⟩ := h.text
    rw [ty, Ty.sig, cons_append] at htx
    change (firstTypeInSignature r.typeStr (r.typePos + 1) >>= _) = _
    rw [firstTypeInSignature_sig htx.tail, ok_bind, marshalSkipArray_eq h.small h.holds h.le]
  | variant v =>
    change r.baseNext _ n .variant = _ at hb
    simp only [baseNext, h.typesOnly, bind_eq_ok, pure_eq_ok, Except.ok.injEq] at hb
    obtain ⟨sub, hsk, hsb⟩ := hb
    change (r.skipContents (readerNext n) n >>= _) = _
    rw [hsk, ok_bind]
    exact congrArg Except.ok (congrArg valuePos hsb)
  | struct k vs =>
    change r.baseNext _ n (.struct k) = _ at hb
    simp only [baseNext, h.typesOnly, bind_eq_ok, pure_eq_ok, Except.ok.injEq] at hb
    obtain ⟨sub, hsk, hsb⟩ := hb
    change (r.skipContents (readerNext n) n >>= _) = _
    rw [hsk, ok_bind]
    exact congrArg Except.ok (congrArg valuePos hsb)

theorem Moved.arrayReaderGetArrayLen {p : ℕ} (h : Moved r r' p) :
    r'.arrayReaderGetArrayLen = r.arrayReaderGetArrayLen := by
  simp [TypeReader.arrayReaderGetArrayLen, h.startPos, h.arrayLenOffset, h.valueStr, h.byteOrder]

section
variable (h : ValuesLeft r (v :: vs))
include h

/-- Moving along the elements of an array; behind the last one the reader moves
    over the element type. -/
theorem ValuesLeft.readerNext_elements (hk : r.klass = .array false)
    (hn : v.ty.sig.length + (v.encode r.byteOrder r.valuePos).length ≤ n) :
    MovesOver r v vs (readerNext (n + 1) r) := by
  have hvl := h.atValue
  cases h with
  | body hk' => rcases hk' with hk' | hk' <;> rw [hk] at hk' <;> cases hk'
  | fields hk' => rw [hk] at hk'; cases hk'
  | @elements e _ len _ hf he hts htx hlen hst hend hv =>
    obtain rfl : v.ty = e := hts _ (mem_cons_self ..)
    obtain ⟨x, rest, hel⟩ := htx (cons_ne_nil _ _)
    have hp := encode_length_pos (o := r.byteOrder) r.valuePos v he
    rw [encodeList_cons, length_append, ← Nat.add_assoc] at hend
    have hb : ∀ r', Moved r r' _ → ValuesAt r' vs := fun _ => hv.behind
    unfold MovesOver
    generalize hq : r.valuePos + (v.encode r.byteOrder r.valuePos).length = q at *
    have hcl : r.classNext (readerNext n) n v.ty.code =
        r.arrayNext (readerNext n) n v.ty.code := by rw [classNext, hk]
    simp only [arrayNext, hlen, ok_bind] at hcl
    rw [assert_bind (by omega), assert_bind hst, hvl.firstType, ok_bind,
      skipElement_value hvl hn, ok_bind, hq, assert_bind (by omega)] at hcl
    cases vs with
    | nil =>
      let r' : TypeReader := { r with valuePos := q, typePos := r.typePos + v.ty.sig.length }
      have hm : Moved r r' q := ⟨rfl, rfl, rfl, rfl, rfl, rfl, rfl⟩
      rw [if_pos (by simpa using hend.symm), typeSignatureNext_sig hel, ok_bind] at hcl
      have hl : ValuesLeft r' [] := .elements (e := v.ty) hk hf he (by simp)
        (fun h => absurd rfl h) (hm.arrayReaderGetArrayLen.trans hlen)
        (show r.startPos ≤ q by omega) hend (hb r' hm)
      exact ⟨r', readerNext_of_classNext hvl hcl hl, hl, hm⟩
    | cons w vs =>
      obtain hw : w.ty = v.ty := hts _ (by simp)
      have hp' := encode_length_pos (o := r.byteOrder) q w (hw ▸ he)
      have hlt : q ≠ r.startPos + len := by
        rw [encodeList_cons, length_append] at hend
        omega
      let r' : TypeReader := { r with valuePos := q }
      have hm : Moved r r' q := ⟨rfl, rfl, rfl, rfl, rfl, rfl, rfl⟩
      rw [if_neg hlt] at hcl
      have hl : ValuesLeft r' (w :: vs) := .elements (e := v.ty) hk hf he
        (fun t ht => hts t (mem_cons_of_mem _ ht)) (fun _ => ⟨x, rest, hel⟩)
        (hm.arrayReaderGetArrayLen.trans hlen) (show r.startPos ≤ q by omega) hend
        (hb r' hm)
      exact ⟨r', readerNext_of_classNext hvl hcl hl, hl, hm⟩

/-- **Moving to the next value.** -/
theorem ValuesLeft.readerNext
    (hn : v.ty.sig.length + (v.encode r.byteOrder r.valuePos).length ≤ n) :
    MovesOver r v vs (readerNext (n + 1) r) := by
  have hb := baseNext_value v h.atValue hn
  cases h with
  | body hk hf hts htx hv =>
    obtain ⟨hnx, hl⟩ := ValuesLeft.readerNext_body (.body hk hf hts htx hv) hk hb
    exact ⟨_, hnx, hl, moved_behindValue⟩
  | fields hk hf hts htx hv =>
    obtain ⟨r', hnx, hl, hm, -⟩ := ValuesLeft.readerNext_fields (.fields hk hf hts htx hv) hk hb
    exact ⟨r', hnx, hl, hm⟩
  | elements hk hf he hts htx hlen hst hend hv =>
    exact ValuesLeft.readerNext_elements (.elements hk hf he hts htx hlen hst hend hv) hk hn

theorem ValuesLeft.next : MovesOver r v vs r.next := by
  obtain ⟨x, rest, htx⟩ := h.atValue.text
  have hle := h.atValue.le
  have htl := htx.le
  rw [length_append, length_cons] at htl
  exact h.readerNext (by omega)

end

theorem ValuesLeft.next_nil (h : ValuesLeft r []) : r.next = .ok (false, r) := by
  simp [TypeReader.next, TypeReader.readerNext, h.getCurrentType_nil, ok_bind]

end

end DBus
