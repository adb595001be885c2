/-
  `DBusTypeReader` on an encoding.

  `AtValue r v` says that a reader stands at the type of the value `v` and at its encoding,
  `ValuesLeft r vs` that it has the values `vs` before it on its level.
-/
import DBus.Body.Accept

namespace DBus

open Outcome Memory Align Endian Value List TypeReader TypeCode

/-- The values `vs` are where the reader reads values. -/
structure ValuesAt (r : TypeReader) (vs : List Value) : Prop where
  wf : WFList vs
  holds : Holds r.valueStr.str r.valuePos (encodeList r.byteOrder r.valuePos vs)
  le : r.valuePos + (encodeList r.byteOrder r.valuePos vs).length ≤ r.valueStr.len
  small : r.valueStr.len ≤ stringMaxMaxLength

/-- The reader is at the type and the encoding of `v`. -/
structure AtValue (r : TypeReader) (v : Value) : Prop where
  typesOnly : r.klass.typesOnly = false
  formed : ∃ inArray, v.ty.formed true inArray = true
  current : r.getCurrentType = .ok v.ty.code
  text : ∃ x rest, TextAt r.typeStr r.typePos (v.ty.sig ++ x :: rest)
  wf : v.WF
  holds : Holds r.valueStr.str r.valuePos (v.encode r.byteOrder r.valuePos)
  le : r.valuePos + (v.encode r.byteOrder r.valuePos).length ≤ r.valueStr.len
  small : r.valueStr.len ≤ stringMaxMaxLength

/-! ## Basic values -/

section
variable {s : DBusString} {p : ℕ} {o : ByteOrder} {f : FixedType} {m : ℕ → Option UInt8} {n : ℕ}
  {t : StringType} {bs : List UInt8} {vs : List Value} {e : Ty}

theorem holds_fixed (h : Holds m p ((Value.fixed f n).encode o p)) :
    Holds m (alignUp p f.size) (toBytes o f.size (f.word n)) :=
  ((holds_padded f.size_pos).1 h).2

theorem add_length_encode_fixed (f : FixedType) (n : ℕ) :
    p + ((Value.fixed f n).encode o p).length = alignUp p f.size + f.size := by
  rw [add_length_encode]
  simp [content, ty, BasicType.alignment]

theorem marshalReadBasic_fixed (hn : n < 256 ^ f.size)
    (h : Holds s.str p ((Value.fixed f n).encode o p))
    (hl : p + ((Value.fixed f n).encode o p).length ≤ s.len) :
    marshalReadBasic s p (.basic (.fixed f)) o =
      .ok (.num (f.word n), p + ((Value.fixed f n).encode o p).length) := by
  have hw := f.word_lt hn
  have hh := holds_fixed h
  rw [add_length_encode_fixed] at hl ⊢
  have hb : (basic (.fixed f)).isBasic = true := rfl
  by_cases hf : f = .byte
  · subst hf
    have hby : toBytes o 1 n = [UInt8.ofNat n] := by cases o <;> rfl
    change Holds s.str (alignUp p 1) (toBytes o 1 n) at hh
    rw [hby, alignUp_one, holds_cons] at hh
    simp only [FixedType.size, alignUp_one] at hl ⊢
    rw [marshalReadBasic, assert_bind hb,
      DBusString.getByte_of (by omega) hh.1, ok_bind, UInt8.toNat_ofNat',
      Nat.mod_eq_of_lt (show n < 2 ^ 8 from hn)]
    rfl
  · rw [marshalReadBasic, assert_bind hb]
    · simp only [readN_eq_some.2 ⟨length_toBytes .., hh⟩, valueOr_some, ok_bind,
        fromBytes_toBytes o hw, pure_eq_ok]
    · exact fun h => hf h

/-- Where the text of a string starts in its encoding. -/
def textPos (s : StringType) (p : ℕ) : ℕ :=
  match s with
  | .signature => p + 1
  | _ => alignUp p 4 + 4

theorem encode_signature (bs : List UInt8) : (Value.str .signature bs).encode o p = sigBytes bs :=
  encode_of_dvd (Nat.one_dvd p)

section
variable (ht : t ≠ .signature) (bs : List UInt8)
include ht

theorem encode_string :
    (Value.str t bs).encode o p = pad p 4 ++ (toBytes o 4 bs.length ++ (bs ++ [0])) := by
  cases t <;> first | rfl | exact absurd rfl ht

theorem add_length_encode_string :
    p + ((Value.str t bs).encode o p).length = alignUp p 4 + 4 + bs.length + 1 := by
  rw [encode_string ht, length_append, length_pad, ← Nat.add_assoc, add_padding (by decide)]
  simp only [length_append, length_toBytes, length_singleton]
  omega

end

theorem marshalReadUint32_string (ht : t ≠ .signature) (hs : bs.length < 2 ^ 32)
    (h : Holds s.str p ((Value.str t bs).encode o p))
    (hl : p + ((Value.str t bs).encode o p).length ≤ s.len) :
    marshalReadUint32 s p o = .ok (bs.length, alignUp p 4 + 4) ∧
      Holds s.str (alignUp p 4 + 4) (bs ++ [0]) := by
  rw [add_length_encode_string ht] at hl
  rw [encode_string ht, holds_padded (by decide), holds_append, length_toBytes] at h
  exact ⟨marshalReadUint32_toBytes rfl (by omega) hs h.2.1, h.2.2⟩

theorem getByte_signature (hc : ValidSignature bs)
    (h : Holds s.str p ((Value.str .signature bs).encode o p))
    (hl : p + ((Value.str .signature bs).encode o p).length ≤ s.len) :
    ∃ c : UInt8, s.getByte p = .ok c ∧ c.toNat = bs.length ∧ Holds s.str (p + 1) (bs ++ [0]) := by
  rw [encode_signature] at h hl
  rw [length_sigBytes] at hl
  obtain ⟨hlen, htx⟩ := holds_sigBytes.1 h
  exact ⟨_, DBusString.getByte_of (by omega) hlen, toNat_length hc.length_le, htx⟩

theorem marshalReadBasic_str (hc : t.Contents bs) (hs : bs.length < 2 ^ 32)
    (h : Holds s.str p ((Value.str t bs).encode o p))
    (hl : p + ((Value.str t bs).encode o p).length ≤ s.len) :
    marshalReadBasic s p (.basic (.str t)) o =
        .ok (.str (textPos t p), p + ((Value.str t bs).encode o p).length) ∧
      Holds s.str (textPos t p) (bs ++ [0]) := by
  have hb : (basic (.str t)).isBasic = true := rfl
  by_cases ht : t = .signature
  · subst ht
    obtain ⟨c, hg, hc, htx⟩ := getByte_signature hc h hl
    refine ⟨?_, htx⟩
    rw [marshalReadBasic, assert_bind hb, hg, ok_bind, hc, encode_signature,
      length_sigBytes, ← Nat.add_assoc p, Nat.add_right_comm p 1]
    rfl
  · obtain ⟨hrd, htx⟩ := marshalReadUint32_string ht hs h hl
    have hp : textPos t p = alignUp p 4 + 4 := by cases t <;> first | rfl | exact absurd rfl ht
    rw [hp, add_length_encode_string ht]
    refine ⟨?_, htx⟩
    rw [marshalReadBasic, assert_bind hb, hrd]
    · rfl
    · exact ht

theorem marshalSkipBasic_fixed : marshalSkipBasic s (.basic (.fixed f)) o p =
      .ok (p + ((Value.fixed f n).encode o p).length) := by
  rw [add_length_encode_fixed]
  rfl

theorem marshalSkipBasic_str (hc : t.Contents bs) (hs : bs.length < 2 ^ 32)
    (h : Holds s.str p ((Value.str t bs).encode o p))
    (hl : p + ((Value.str t bs).encode o p).length ≤ s.len) :
    marshalSkipBasic s (.basic (.str t)) o p = .ok (p + ((Value.str t bs).encode o p).length) := by
  by_cases ht : t = .signature
  · subst ht
    obtain ⟨c, hg, hc, -⟩ := getByte_signature hc h hl
    rw [marshalSkipBasic, hg, ok_bind, hc, encode_signature, length_sigBytes, ← Nat.add_assoc]
    rfl
  · rw [add_length_encode_string ht, marshalSkipBasic, (marshalReadUint32_string ht hs h hl).1]
    · rfl
    · exact ht

theorem holds_arrayLen (h : Holds m p ((Value.array e vs).encode o p)) : Holds m (alignUp p 4)
      (toBytes o 4 (encodeList o (alignUp (alignUp p 4 + 4) e.alignment) vs).length) :=
  ((holds_padded (by decide)).1 (holds_array.1 h).1).2

theorem arrayLen_le {l : ℕ} (hl : p + ((Value.array e vs).encode o p).length ≤ l) :
    alignUp p 4 + 4 + (encodeList o (alignUp (alignUp p 4 + 4) e.alignment) vs).length ≤ l := by
  have := le_alignUp (n := alignUp p 4 + 4) e.alignment_pos
  rw [add_length_encode_array] at hl
  omega

theorem marshalSkipArray_eq (hs : s.len ≤ stringMaxMaxLength)
    (h : Holds s.str p ((Value.array e vs).encode o p))
    (hl : p + ((Value.array e vs).encode o p).length ≤ s.len) :
    marshalSkipArray s e.code o p = .ok (p + ((Value.array e vs).encode o p).length) := by
  have hle := arrayLen_le hl
  unfold stringMaxMaxLength at hs
  simp [marshalSkipArray, marshalReadUint32_toBytes alignUp_alignUp (by omega) (by omega)
    (holds_arrayLen h), ok_bind, add_length_encode_array, e.getAlignment_code]

end

variable {r : TypeReader} {v : Value} {vs : List Value}

namespace AtValue

theorem readBasic_fixed {f : FixedType} {n : ℕ} (h : AtValue r (.fixed f n)) :
    r.readBasic = .ok (.num (f.word n)) := by
  rw [readBasic, assert_bind h.typesOnly, h.current, ok_bind]
  simp only [ty, Ty.code, marshalReadBasic_fixed h.wf h.holds h.le, ok_bind, pure_eq_ok]

section
variable {bs : List UInt8} {t : StringType} (h : AtValue r (.str t bs))
include h

theorem length_lt : bs.length < 2 ^ 32 := h.wf.2.trans (by decide)

theorem readBasic_str : r.readBasic = .ok (.str (textPos t r.valuePos)) ∧
      Holds r.valueStr.str (textPos t r.valuePos) (bs ++ [0]) := by
  obtain ⟨hrd, htx⟩ := marshalReadBasic_str h.wf.1 h.length_lt h.holds h.le
  refine ⟨?_, htx⟩
  rw [readBasic, assert_bind h.typesOnly, h.current, ok_bind]
  simp only [ty, Ty.code, hrd, ok_bind, pure_eq_ok]

end

end AtValue

/-! ## Levels -/

/-- A reader with the values `vs` before it on its level. -/
inductive ValuesLeft (r : TypeReader) : List Value → Prop
  /-- the body, or the value of a variant -/
  | body {vs : List Value} {rest : List UInt8} (hk : r.klass = .body false ∨ r.klass = .variant)
    (hf : r.finished = false) (hts : Ty.formedList true (tyList vs) = true)
    (htext : TextAt r.typeStr r.typePos (Ty.sigList (tyList vs) ++ 0 :: rest))
    (hv : ValuesAt r vs) : ValuesLeft r vs
  | fields {k : StructKind} {v : Value} {vs : List Value} {x : UInt8} {rest : List UInt8}
    (hk : r.klass = .struct k false) (hf : r.finished = false)
    (hts : Ty.formedList true (tyList (v :: vs)) = true)
    (htext : TextAt r.typeStr r.typePos
      (Ty.sigList (tyList (v :: vs)) ++ toByte (.endChar k) :: x :: rest))
    (hv : ValuesAt r (v :: vs)) : ValuesLeft r (v :: vs)
  | fieldsEnd {k : StructKind} (hk : r.klass = .struct k false) (hf : r.finished = true) :
    ValuesLeft r []
  | elements {e : Ty} {vs : List Value} {len : ℕ}
    (hk : r.klass = .array false) (hf : r.finished = false) (he : e.formed true true = true)
    (hts : ∀ t ∈ tyList vs, t = e)
    (htext : vs ≠ [] → ∃ x rest, TextAt r.typeStr r.typePos (e.sig ++ x :: rest))
    (hlen : r.arrayReaderGetArrayLen = .ok len) (hstart : r.startPos ≤ r.valuePos)
    (hend : r.startPos + len = r.valuePos + (encodeList r.byteOrder r.valuePos vs).length)
    (hv : ValuesAt r vs) : ValuesLeft r vs

theorem ValuesAt.head {r : TypeReader} {v : Value} {vs : List Value} (h : ValuesAt r (v :: vs)) :
    v.WF ∧ Holds r.valueStr.str r.valuePos (v.encode r.byteOrder r.valuePos) ∧
      r.valuePos + (v.encode r.byteOrder r.valuePos).length ≤ r.valueStr.len := by
  have hle := h.le
  rw [encodeList_cons, length_append] at hle
  exact ⟨h.wf.1, (holds_append.1 h.holds).1, by omega⟩

namespace ValuesLeft

theorem checkFinished_eq {len : ℕ} (hk : r.klass = .array false) (hf : r.finished = false)
    (hlen : r.arrayReaderGetArrayLen = .ok len) (hst : r.startPos ≤ r.valuePos)
    (hle : r.valuePos ≤ r.startPos + len) :
    r.atEnd = .ok (r.valuePos == r.startPos + len) := by
  rw [atEnd, hf, if_neg Bool.false_ne_true, checkFinished, hk]
  simp only [arrayReaderCheckFinished, hlen, ok_bind]
  simp [assert_bind hle, assert_of hst]

theorem getCurrentType_nil (h : ValuesLeft r []) : r.getCurrentType = .ok .invalid := by
  cases h with
  | body hk hf _ htx _ =>
    refine getCurrentType_nul ?_ hf htx
    rcases hk with hk | hk <;> rw [hk] <;> rintro ⟨⟩
  | fieldsEnd _ hf => exact getCurrentType_finished hf
  | elements hk hf _ _ _ hlen hst hend _ =>
    rw [encodeList_nil, length_nil, Nat.add_zero] at hend
    rw [getCurrentType, checkFinished_eq hk hf hlen hst (by omega), ok_bind, hend,
      beq_self_eq_true, cond_true, ok_bind, assert_of fun _ _ => ⟨(by simp), (by simp)⟩]
    rfl

theorem atValue (h : ValuesLeft r (v :: vs)) : AtValue r v := by
  cases h with
  | @body _ rest hk hf hts htx hv =>
    obtain ⟨hwf, hh, hle⟩ := hv.head
    rw [tyList_cons, Ty.sigList_cons, append_assoc] at htx
    obtain ⟨x, rest', hx⟩ : ∃ x rest', Ty.sigList (tyList vs) ++ 0 :: rest = x :: rest' :=
      exists_cons_of_ne_nil (by simp)
    rw [hx] at htx
    rw [tyList_cons, Ty.formedList, Bool.and_eq_true] at hts
    have hna : r.klass ≠ .array false := by rcases hk with hk | hk <;> rw [hk] <;> rintro ⟨⟩
    refine ⟨?_, ⟨_, hts.1⟩, getCurrentType_sig hna hf htx, ⟨x, rest', htx⟩, hwf, hh, hle, hv.small⟩
    rcases hk with hk | hk <;> rw [hk] <;> rfl
  | @fields k _ _ y rest hk hf hts htx hv =>
    obtain ⟨hwf, hh, hle⟩ := hv.head
    rw [tyList_cons, Ty.sigList_cons, append_assoc] at htx
    obtain ⟨x, rest', hx⟩ : ∃ x rest', Ty.sigList (tyList vs) ++
        toByte (.endChar k) :: y :: rest = x :: rest' :=
      exists_cons_of_ne_nil (by simp)
    rw [hx] at htx
    rw [tyList_cons, Ty.formedList, Bool.and_eq_true] at hts
    exact ⟨by rw [hk]; rfl, ⟨_, hts.1⟩,
      getCurrentType_sig (by rw [hk]; rintro ⟨⟩) hf htx, ⟨x, rest', htx⟩, hwf, hh,
      hle, hv.small⟩
  | @elements e _ len hk hf he hts htx hlen hst hend hv =>
    obtain ⟨hwf, hh, hle⟩ := hv.head
    obtain rfl : v.ty = e := hts _ (mem_cons_self ..)
    obtain ⟨x, rest, htx⟩ := htx (cons_ne_nil _ _)
    have hp := encode_length_pos (o := r.byteOrder) r.valuePos v he
    rw [encodeList_cons, length_append] at hend
    refine ⟨by rw [hk]; rfl, ⟨_, he⟩, ?_, ⟨x, rest, htx⟩, hwf, hh, hle, hv.small⟩
    have hne : (r.valuePos == r.startPos + len) = false := beq_false_of_ne (by omega)
    rw [getCurrentType, checkFinished_eq hk hf hlen hst (by omega), ok_bind, hne,
      cond_false, firstTypeInSignature_sig htx, ok_bind, assert_of]
    · rfl
    · intro k _
      cases v.ty <;> exact ⟨(by rintro ⟨⟩), (by rintro ⟨⟩)⟩

end ValuesLeft

/-! ## Recursing into a container -/

/-- A sub-reader of the same strings. -/
structure SubReader (r sub : TypeReader) : Prop where
  byteOrder : sub.byteOrder = r.byteOrder
  valueStr : sub.valueStr = r.valueStr

namespace AtValue

theorem firstType (h : AtValue r v) : firstTypeInSignature r.typeStr r.typePos = .ok v.ty.code := by
  obtain ⟨x, rest, htx⟩ := h.text
  exact firstTypeInSignature_sig htx

theorem recurse_struct {k : StructKind} (h : AtValue r (.struct k vs)) :
    ∃ sub, r.recurse = .ok sub ∧ ValuesLeft sub vs ∧ SubReader r sub ∧
      sub.klass = .struct k false ∧ sub.typeStr = r.typeStr ∧ sub.typePos = r.typePos + 1 ∧
      sub.valuePos = alignUp r.valuePos 8 := by
  obtain ⟨x, rest, htx⟩ := h.text
  obtain ⟨inArray, hfr⟩ := h.formed
  obtain ⟨hne, hfs⟩ := Ty.formed_fields hfr
  obtain ⟨v, vs, rfl⟩ : ∃ v vs', vs = v :: vs' := by
    cases vs with
    | nil => exact absurd rfl hne
    | cons v vs => exact ⟨v, vs, rfl⟩
  rw [ty, Ty.sig, cons_append, append_assoc] at htx
  have hb : ofByte (toByte (.beginChar k)) = .beginChar .struct ∨
      ofByte (toByte (.beginChar k)) = .beginChar .dictEntry := by
    cases k
    exacts [.inl rfl, .inr rfl]
  refine ⟨{ r.baseRecurse (.struct k false) with
    typePos := r.typePos + 1
    valuePos := alignUp r.valuePos 8 }, ?_, ?_, ⟨rfl, rfl⟩, rfl, rfl, rfl, rfl⟩
  · have hg : (r.baseRecurse (.struct k false)).typeStr.getByte
        (r.baseRecurse (.struct k false)).typePos = .ok (toByte (.beginChar k)) :=
      htx.getByte
    rw [recurse, h.firstType, ok_bind, h.typesOnly]
    simp only [ty, Ty.code, structRecurse, structTypesOnlyRecurse, hg,
      ok_bind, assert_of hb, pure_eq_ok]
    rfl
  · have hend := h.le
    rw [add_length_encode_struct] at hend
    exact .fields rfl rfl hfs htx.tail ⟨h.wf, (holds_struct.1 h.holds).2, hend, h.small⟩

theorem recurse_variant (h : AtValue r (.variant v)) :
    ∃ sub, r.recurse = .ok sub ∧ ValuesLeft sub [v] ∧ SubReader r sub ∧ sub.klass = .variant ∧
      sub.typeStr = r.valueStr ∧
      sub.valuePos = alignUp (r.valuePos + (sigBytes v.ty.sig).length) v.ty.alignment := by
  obtain ⟨hc, hv⟩ := h.wf
  have hh := h.holds
  have hle := h.le
  rw [encode_variant, holds_append, holds_sigBytes] at hh
  rw [encode_variant, length_append, ← Nat.add_assoc] at hle
  obtain ⟨⟨hlen, hsg⟩, hva⟩ := hh
  have htx : TextAt r.valueStr (r.valuePos + 1) (v.ty.sig ++ 0 :: []) := by
    refine ⟨hsg, ?_⟩
    rw [length_sigBytes] at hle
    simp only [length_append, length_cons, length_nil]
    omega
  have hg := DBusString.getByte_of (by omega) hlen
  have hp : r.valuePos + 1 + (UInt8.ofNat v.ty.sig.length).toNat + 1 =
      r.valuePos + (sigBytes v.ty.sig).length := by
    rw [toNat_length hc.valid.length_le, length_sigBytes]
    omega
  refine ⟨{ r.baseRecurse .variant with
    typeStr := r.valueStr
    typePos := r.valuePos + 1
    valuePos := alignUp (r.valuePos + (sigBytes v.ty.sig).length) v.ty.alignment }, ?_, ?_,
    ⟨rfl, rfl⟩, rfl, rfl, rfl⟩
  · rw [recurse, h.firstType, ok_bind, h.typesOnly]
    simp only [ty, Ty.code, variantRecurse]
    change (r.valueStr.getByte r.valuePos >>= _) = _
    rw [hg, ok_bind]
    change (firstTypeInSignature r.valueStr (r.valuePos + 1) >>= _) = _
    rw [firstTypeInSignature_sig htx, ok_bind, Ty.getAlignment_code, ok_bind, ← hp]
    rfl
  · have hvl := ((holds_padded v.ty.alignment_pos).1 hva).2
    have hen : encodeList r.byteOrder
        (alignUp (r.valuePos + (sigBytes v.ty.sig).length) v.ty.alignment) [v] =
        v.content r.byteOrder
          (alignUp (r.valuePos + (sigBytes v.ty.sig).length) v.ty.alignment) := by
      rw [encodeList_cons, encodeList_nil, append_nil, encode_of_dvd dvd_alignUp]
    rw [add_length_encode, ← hen] at hle
    rw [← hen] at hvl
    exact .body (.inr rfl) rfl (by simp [Ty.formedList, hc.formed]) (by simpa using htx)
      ⟨⟨hv, trivial⟩, hvl, hle, h.small⟩

theorem recurse_array {e : Ty} (h : AtValue r (.array e vs)) :
    ∃ sub, r.recurse = .ok sub ∧ ValuesLeft sub vs ∧ SubReader r sub ∧
      sub.klass = .array false ∧ sub.typeStr = r.typeStr ∧ sub.typePos = r.typePos + 1 ∧
      sub.valuePos = alignUp (alignUp r.valuePos 4 + 4) e.alignment ∧
      sub.startPos = sub.valuePos ∧
      ∃ x rest, TextAt sub.typeStr sub.typePos (e.sig ++ x :: rest) := by
  obtain ⟨x, rest, htx⟩ := h.text
  obtain ⟨inArray, hfr⟩ := h.formed
  obtain ⟨-, -, hel⟩ := holds_array.1 h.holds
  have hw := holds_arrayLen h.holds
  have hsm := h.small
  have hend := h.le
  rw [add_length_encode_array] at hend
  rw [ty, Ty.sig, cons_append] at htx
  generalize hlp : alignUp r.valuePos 4 = lenPos at *
  have h4 : 4 ∣ lenPos := hlp ▸ dvd_alignUp
  generalize hst : alignUp (lenPos + 4) e.alignment = start at *
  have hle1 : lenPos + 4 ≤ start := hst ▸ le_alignUp e.alignment_pos
  have hlt : start < lenPos + 4 + 8 := by
    have := Nat.le_of_dvd (by decide) e.alignment_dvd_eight
    have := alignUp_lt (n := lenPos + 4) e.alignment_pos
    omega
  refine ⟨{ r.arrayTypesOnlyRecurse (.array false) with
    valuePos := start
    startPos := start
    arrayLenOffset := start - (lenPos + 4) }, ?_, ?_, ⟨rfl, rfl⟩, rfl, rfl, rfl, rfl, rfl, x, rest,
    htx.tail⟩
  · have hal : elementTypeGetAlignment (r.arrayTypesOnlyRecurse (.array false)).typeStr
        (r.arrayTypesOnlyRecurse (.array false)).typePos = .ok e.alignment :=
      elementTypeGetAlignment_sig htx.tail
    have hvl : (r.arrayTypesOnlyRecurse (.array false)).valuePos = r.valuePos := rfl
    rw [recurse, h.firstType, ok_bind, h.typesOnly]
    simp only [ty, Ty.code, arrayRecurse, hal, ok_bind, hvl, hlp, hst]
    rw [assert_of (by omega)]
    rfl
  · refine .elements rfl rfl hfr h.wf.1 (fun _ => ⟨x, rest, htx.tail⟩) ?_ (le_refl _) rfl
      ⟨h.wf.2, hel, hend, h.small⟩
    have hb : start - (start - (lenPos + 4)) - 4 = lenPos := by omega
    unfold stringMaxMaxLength at hsm
    simp only [arrayReaderGetArrayLen, hb, DBusString.getConstDataLen]
    change (assert (alignUp lenPos 4 = lenPos) >>= fun _ => (do
      assert (lenPos ≤ r.valueStr.len)
      assert (4 ≤ r.valueStr.len - lenPos)) >>= fun _ =>
        unpackUint32 r.byteOrder r.valueStr.str lenPos >>= fun arrayLen => _) = _
    rw [assert_bind (alignUp_of_dvd h4), assert_bind (by omega),
      assert_bind (by omega), unpackUint32_toBytes h4 (by omega) hw, ok_bind,
      assert_of (by omega)]
    rfl

end AtValue

end DBus
