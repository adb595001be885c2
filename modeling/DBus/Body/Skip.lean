/-
  Stepping over what the validator accepted.

  `Tracks` relates the types-only reader of the validator to the reader of a client of the
  block: they stand at the same place of the same text.  Where the validator gets over a
  value, the `next` of the other reader gets over it and ends where the validator does
  (`skips`), whatever the signatures of the variants inside look like.
-/
import DBus.Reader.Values
import DBus.Reader.TypesOnly

namespace DBus

open Outcome Memory Align Endian Value TypeReader DBusString

/-! ## More fuel -/

namespace TypeReader

/-- A step function that returns wherever another one does, and the same. -/
def Beyond (next next' : TypeReader → Res (Bool × TypeReader)) : Prop :=
  ∀ r, Leads (next r) (next' r) Eq

variable {next next' : TypeReader → Res (Bool × TypeReader)} {n n' : ℕ} {r : TypeReader}

section
variable (h : Beyond next next') (hn : n ≤ n')
include h hn

theorem Beyond.skipRest : Leads (skipRest next n r) (skipRest next' n' r) Eq := by
  induction n generalizing n' r with
  | zero => exact leads_error _
  | succ n ih =>
    obtain _ | n' := n'
    · omega
    refine (h r).bind ?_
    rintro ⟨more, sub⟩ _ rfl
    exact .ite (ih (by omega)) (leads_refl _)

theorem Beyond.skipContents : Leads (skipContents next n r) (skipContents next' n' r) Eq :=
  (leads_refl _).bind fun _ _ hr => hr ▸ h.skipRest hn

theorem Beyond.baseNext (t : TypeCode) :
    Leads (r.baseNext next n t) (r.baseNext next' n' t) Eq := by
  unfold TypeReader.baseNext
  split
  case h_1 | h_2 | h_4 => exact (h.skipContents hn).bind fun _ _ hr => hr ▸ leads_refl _
  all_goals exact leads_refl _

theorem Beyond.skipElement (c t : TypeCode) :
    Leads (r.skipElement next n c t) (r.skipElement next' n' c t) Eq := by
  unfold TypeReader.skipElement
  split
  case h_1 | h_2 => exact (h.skipContents hn).bind fun _ _ hr => hr ▸ leads_refl _
  all_goals exact leads_refl _

theorem Beyond.classNext (t : TypeCode) :
    Leads (r.classNext next n t) (r.classNext next' n' t) Eq := by
  unfold TypeReader.classNext
  split
  · exact h.baseNext hn t
  · exact h.baseNext hn t
  · exact (h.baseNext hn t).bind fun _ _ hr => hr ▸ leads_refl _
  · exact leads_refl _
  · refine (leads_refl _).bind fun _ _ ha => ha ▸ (leads_refl _).bind fun _ _ _ => ?_
    refine (leads_refl _).bind fun _ _ _ => (leads_refl _).bind fun _ _ ht => ht ▸ ?_
    exact (h.skipElement hn _ _).bind fun _ _ hp => hp ▸ leads_refl _

end

theorem readerNext_beyond (h : n ≤ n') : Beyond (readerNext n) (readerNext n') := by
  induction n generalizing n' with
  | zero => exact fun _ => leads_error _
  | succ n ih =>
    intro r
    obtain _ | n' := n'
    · omega
    refine (leads_refl _).bind fun t _ ht => ht ▸ .ite (leads_refl _) ?_
    exact ((ih (by omega)).classNext (by omega) t).bind fun _ _ hr => hr ▸ leads_refl _

theorem readerNext_unique {x y : Bool × TypeReader} (hx : readerNext n r = .ok x)
    (hy : readerNext n' r = .ok y) : x = y := by
  obtain ⟨_, h, rfl⟩ := readerNext_beyond (Nat.le_max_left n n') r x hx
  obtain ⟨_, h', rfl⟩ := readerNext_beyond (Nat.le_max_right n n') r y hy
  exact Except.ok.inj (h.symm.trans h')

end TypeReader

/-! ## Two readers side by side -/

/-- What can be read of the text `s` is the text `s'` from `d` on. -/
structure TextsAgree (s s' : DBusString) (d : ℕ) : Prop where
  len_le : d + s.len ≤ s'.len
  agree : ∀ i c, s.str i = some c → i ≤ s.len ∧ s'.str (d + i) = some c

section
variable {s s' : DBusString} {d p q n n' : ℕ} {c : UInt8} {t : TypeCode}

theorem textsAgree_window {m : ℕ → Option UInt8} {l : ℕ} (h : d + n ≤ l) :
    TextsAgree ⟨window m d n, n⟩ ⟨m, l⟩ d := by
  refine ⟨h, fun i c hc => ?_⟩
  change (if i ≤ n then m (d + i) else none) = some c at hc
  split at hc
  · next hi => exact ⟨hi, hc⟩
  · cases hc

theorem textsAgree_of_holds {cs : List UInt8} (h : Holds s'.str d (cs ++ [0]))
    (hle : d + cs.length ≤ s'.len) : TextsAgree (.ofBytes cs) s' d := by
  refine ⟨hle, fun i c hc => ?_⟩
  have hi : i < (cs ++ [0]).length := by
    by_contra hi
    have hnn : (ofBytes cs).str i = none := ofList_eq_none (not_lt.1 hi)
    simp [hnn] at hc
  have hc' : (ofBytes cs).str i = some (cs ++ [0])[i] := ofList_of_lt hi
  rw [hc', Option.some.injEq] at hc
  subst hc
  refine ⟨?_, h i hi⟩
  rw [List.length_append] at hi
  exact Nat.le_of_lt_succ hi

theorem textsAgree_ofBytes (bs : List UInt8) : TextsAgree (.ofBytes bs) (.ofBytes bs) 0 :=
  textsAgree_of_holds (holds_ofBytes bs) (by rw [Nat.zero_add]; exact le_refl _)

section
variable (h : TextsAgree s s' d)
include h

theorem TextsAgree.deref (hc : s.deref p = .ok c) : p ≤ s.len ∧ s'.deref (d + p) = .ok c := by
  obtain ⟨hp, hc⟩ := h.agree p c (deref_eq_ok.1 hc)
  exact ⟨hp, deref_eq_ok.2 hc⟩

theorem TextsAgree.getByte (hc : s.getByte p = .ok c) : s'.getByte (d + p) = .ok c := by
  obtain ⟨hp, hc⟩ := getByte_eq_ok.1 hc
  have := h.len_le
  exact getByte_of (by omega) (h.agree p c hc).2

theorem TextsAgree.firstTypeInSignature (ht : firstTypeInSignature s p = .ok t) :
    DBus.firstTypeInSignature s' (d + p) = .ok t := by
  obtain ⟨c, hc, ht⟩ := bind_eq_ok.1 ht
  exact bind_eq_ok.2 ⟨c, h.getByte hc, ht⟩

theorem TextsAgree.skipArrayCodes (hn : n ≤ n') (hq : skipArrayCodes s n p = .ok q) :
    DBus.skipArrayCodes s' n' (d + p) = .ok (d + q) := by
  induction n generalizing n' p with
  | zero => cases hq
  | succ n ih =>
    obtain _ | n' := n'
    · omega
    obtain ⟨c, hc, hq⟩ := bind_eq_ok.1 hq
    rw [DBus.skipArrayCodes, (h.deref hc).2, ok_bind]
    split at hq
    · next ht => rw [if_pos ht]; exact ih (by omega) hq
    · next ht => rw [if_neg ht]; cases hq; rfl

theorem TextsAgree.skipBrackets {k : StructKind} {depth : ℕ} (hn : n ≤ n')
    (hq : skipBrackets s k n depth p = .ok q) :
    DBus.skipBrackets s' k n' depth (d + p) = .ok (d + q) := by
  induction n generalizing n' p depth with
  | zero => cases hq
  | succ n ih =>
    obtain _ | n' := n'
    · omega
    simp only [DBus.skipBrackets, bind_eq_ok, assert_eq_ok, exists_const] at hq
    obtain ⟨c, hc, hc0, c', hc', hc'₀, hq⟩ := hq
    rw [DBus.skipBrackets, (h.deref hc).2, ok_bind, assert_bind hc0, Nat.add_assoc,
      (h.deref hc').2, ok_bind, assert_bind hc'₀]
    split at hq
    · next hb => rw [if_pos hb]; exact ih (by omega) hq
    · next hb =>
      rw [if_neg hb]
      split at hq
      · next he =>
        rw [if_pos he]
        split at hq
        · next h0 => rw [if_pos h0]; cases hq; rfl
        · next h0 => rw [if_neg h0]; exact ih (by omega) hq
      · next he => rw [if_neg he]; exact ih (by omega) hq

theorem TextsAgree.typeSignatureNext (hq : typeSignatureNext s p = .ok q) :
    DBus.typeSignatureNext s' (d + p) = .ok (d + q) := by
  simp only [DBus.typeSignatureNext, bind_eq_ok, assert_eq_ok, exists_const] at hq
  obtain ⟨c, hc, hc0, p', hp', c', hc', hc'₀, hq⟩ := hq
  have hlen : s.len + 1 ≤ s'.len + 1 := by have := h.len_le; omega
  rw [DBus.typeSignatureNext, (h.deref hc).2, ok_bind, assert_bind hc0,
    h.skipArrayCodes hlen hp', ok_bind, (h.deref hc').2, ok_bind, assert_bind hc'₀]
  split at hq
  · exact h.skipBrackets hlen hq
  · cases hq; rfl

end

end

/-- The types-only reader `r` and the reader `v` over the memory `m` up to `e` stand
    at the same type of the same text, which `v` finds at `d`. -/
structure Beside (o : ByteOrder) (m : ℕ → Option UInt8) (e d : ℕ) (r v : TypeReader) : Prop where
  texts : TextsAgree r.typeStr v.typeStr d
  typePos : v.typePos = d + r.typePos
  typesOnly : r.klass.typesOnly = true
  values : v.klass.typesOnly = false
  byteOrder : v.byteOrder = o
  str : v.valueStr.str = m
  len_le : e ≤ v.valueStr.len

/-- The class of a reader over values and that of the types-only reader it follows. -/
inductive SameShape : ReaderClass → ReaderClass → Prop where
  | body : SameShape (.body true) (.body false)
  | variant : SameShape (.body true) .variant
  | struct (k : StructKind) : SameShape (.struct k true) (.struct k false)

/-- The reader `v` follows the types-only reader `r`. -/
structure Tracks (o : ByteOrder) (m : ℕ → Option UInt8) (e d : ℕ) (r v : TypeReader) : Prop
    extends Beside o m e d r v where
  shape : SameShape r.klass v.klass
  finished : v.finished = r.finished

section
variable {o : ByteOrder} {m : ℕ → Option UInt8} {e d p q n k : ℕ} {r r' v : TypeReader}
  {t : TypeCode} {sub : TypeReader} {j : ℕ}

theorem getCurrentType_open (h : r.getCurrentType = .ok t) (ht : t ≠ .invalid) :
    r.atEnd = .ok false ∧ firstTypeInSignature r.typeStr r.typePos = .ok t := by
  simp only [getCurrentType, bind_eq_ok, assert_eq_ok, exists_const, pure_eq_ok,
    Except.ok.injEq] at h
  obtain ⟨b, hb, t, hf, -, rfl⟩ := h
  cases b with
  | true => cases hf; exact absurd rfl ht
  | false => exact ⟨hb, hf⟩

theorem SameShape.ne_array {c c' : ReaderClass} (h : SameShape c c') :
    c ≠ .array false ∧ c' ≠ .array false := by
  cases h <;> exact ⟨nofun, nofun⟩

theorem Tracks.atEnd (h : Tracks o m e d r v) : v.atEnd = r.atEnd := by
  obtain ⟨hr, hv⟩ := h.shape.ne_array
  cases hf : r.finished with
  | false => rw [TypeReader.atEnd_eq hr hf, TypeReader.atEnd_eq hv (h.finished.trans hf)]
  | true => rw [TypeReader.atEnd, TypeReader.atEnd, h.finished, hf, if_pos rfl, if_pos rfl]

theorem Tracks.getCurrentType (h : Tracks o m e d r v) (ht : r.getCurrentType = .ok t) :
    v.getCurrentType = .ok t := by
  obtain ⟨b, hb, ht⟩ := bind_eq_ok.1 ht
  obtain ⟨t', ht', ht⟩ := bind_eq_ok.1 ht
  refine bind_eq_ok.2 ⟨b, h.atEnd.trans hb, bind_eq_ok.2 ⟨t', ?_, ht⟩⟩
  cases b with
  | true => exact ht'
  | false => rw [h.typePos]; exact h.texts.firstTypeInSignature ht'

/-! ## Recursing into containers -/

theorem recurse_types {k : StructKind} (hr : r.klass.typesOnly = true)
    (ht : firstTypeInSignature r.typeStr r.typePos = .ok (.struct k)) (hsb : r.recurse = .ok sub) :
    ∃ c, r.typeStr.getByte r.typePos = .ok c ∧
      (TypeCode.ofByte c = .beginChar .struct ∨ TypeCode.ofByte c = .beginChar .dictEntry) ∧
      sub = { r.baseRecurse (.struct k true) with typePos := r.typePos + 1 } := by
  rw [recurse, ht, ok_bind, hr] at hsb
  simp only [structTypesOnlyRecurse, bind_eq_ok, assert_eq_ok, exists_const, pure_eq_ok,
    Except.ok.injEq] at hsb
  obtain ⟨c, hc, hb, rfl⟩ := hsb
  exact ⟨c, hc, hb, rfl⟩

theorem Beside.recurse_struct (h : Beside o m e d r v) {k : StructKind}
    (ht : firstTypeInSignature r.typeStr r.typePos = .ok (.struct k)) (hsb : r.recurse = .ok sub) :
    ∃ w, v.recurse = .ok w ∧ Tracks o m e d sub w ∧ w.valuePos = alignUp v.valuePos 8 := by
  obtain ⟨c, hc, hb, rfl⟩ := recurse_types h.typesOnly ht hsb
  have hvt : firstTypeInSignature v.typeStr v.typePos = .ok (.struct k) := by
    rw [h.typePos]; exact h.texts.firstTypeInSignature ht
  have hvc : v.typeStr.getByte v.typePos = .ok c := by rw [h.typePos]; exact h.texts.getByte hc
  refine ⟨{ v.baseRecurse (.struct k false) with
      typePos := v.typePos + 1, valuePos := alignUp v.valuePos 8 }, ?_, ?_, rfl⟩
  · rw [recurse, hvt, ok_bind, h.values]
    change (v.structTypesOnlyRecurse _ >>= _) = _
    have hrc : v.structTypesOnlyRecurse (.struct k false) =
        .ok { v.baseRecurse (.struct k false) with typePos := v.typePos + 1 } := by
      rw [structTypesOnlyRecurse]
      change (v.typeStr.getByte v.typePos >>= _) = _
      rw [hvc, ok_bind, assert_of hb]
      rfl
    rw [hrc]
    rfl
  · exact {
      texts := h.texts
      typePos := by rw [h.typePos]; rfl
      typesOnly := rfl
      values := rfl
      byteOrder := h.byteOrder
      str := h.str
      len_le := h.len_le
      shape := .struct k
      finished := rfl }

theorem Beside.recurse_variant (h : Beside o m e d r v) (hm : Readable m 0 e) {sig : DBusString}
    {a : ℕ} (ht : firstTypeInSignature r.typeStr r.typePos = .ok .variant)
    (hst : variantStart m e v.valuePos = .ok (sig, a)) :
    ∃ w, v.recurse = .ok w ∧ Tracks o m e (v.valuePos + 1) (.initTypesOnly sig 0) w ∧
      w.valuePos = a := by
  obtain ⟨cs, rfl, hv, hsg, t, al, hfr, -, hal, rfl, hle, -, -⟩ :=
    (variantStart_eq_ok (hm.mono (Nat.zero_le _))).1 hst
  have hlen := h.len_le
  have hcs := toNat_length hv.length_le
  rw [length_sigBytes] at hle
  have hvt : firstTypeInSignature v.typeStr v.typePos = .ok .variant := by
    rw [h.typePos]; exact h.texts.firstTypeInSignature ht
  have htx : TextsAgree ⟨window m (v.valuePos + 1) cs.length, cs.length⟩ v.valueStr
      (v.valuePos + 1) := by
    have := textsAgree_window (m := m) (d := v.valuePos + 1) (n := cs.length)
      (l := v.valueStr.len) (by omega)
    rwa [← h.str] at this ⊢
  have hb : v.valueStr.getByte v.valuePos = .ok (UInt8.ofNat cs.length) :=
    getByte_of (by omega) (by rw [h.str]; exact (holds_sigBytes.1 hsg).1)
  have hvf := htx.firstTypeInSignature hfr
  refine ⟨{ v.baseRecurse .variant with
      typeStr := v.valueStr, typePos := v.valuePos + 1,
      valuePos := alignUp (v.valuePos + 1 + (UInt8.ofNat cs.length).toNat + 1) al }, ?_, ?_, ?_⟩
  · rw [recurse, hvt, ok_bind, h.values]
    change (v.valueStr.getByte v.valuePos >>= _) = _
    rw [hb, ok_bind]
    change (firstTypeInSignature v.valueStr (v.valuePos + 1) >>= _) = _
    rw [Nat.add_zero] at hvf
    rw [hvf, ok_bind, hal]
    rfl
  · exact {
      texts := htx
      typePos := rfl
      typesOnly := rfl
      values := rfl
      byteOrder := h.byteOrder
      str := h.str
      len_le := h.len_le
      shape := .variant
      finished := rfl }
  · change alignUp (v.valuePos + 1 + (UInt8.ofNat cs.length).toNat + 1) al = _
    rw [hcs, length_sigBytes]
    congr 1
    omega

/-! ## Basic values and arrays -/

theorem Beside.skip_basic (h : Beside o m e d r v) (hm : Readable m 0 e) (hq : q ≤ e)
    {b : BasicType}
    (hvl : validateValue o m e (validateBodyHelper o m e n) n r v.valuePos (.basic b) = .ok q) :
    marshalSkipBasic v.valueStr (.basic b) o v.valuePos = .ok q := by
  have hmp := hm.mono (Nat.zero_le v.valuePos)
  have hlen := h.len_le
  rw [← h.str] at hmp hvl
  have hst {s : StringType} {bs : List UInt8} (hc : s.Contents bs)
      (hmx : bs.length ≤ stringMaxMaxLength)
      (hh : Holds v.valueStr.str v.valuePos ((Value.str s bs).encode o v.valuePos))
      (hend : q = v.valuePos + ((Value.str s bs).encode o v.valuePos).length) :
      marshalSkipBasic v.valueStr (.basic (.str s)) o v.valuePos = .ok q := by
    rw [hend]
    exact marshalSkipBasic_str hc (hmx.trans_lt (by decide)) hh (by omega)
  match b with
  | .fixed f =>
    obtain ⟨k, -, -, -, hend, -⟩ := (validateFixed_iff hmp).1 ⟨hvl, hq⟩
    rw [hend]
    exact marshalSkipBasic_fixed
  | .str .string | .str .objectPath =>
    obtain ⟨bs, hc, hmx, hh, hend, -⟩ := (validateString_iff (by decide) hmp).1 hvl
    exact hst hc hmx hh hend
  | .str .signature =>
    obtain ⟨bs, hc, hh, hend, -⟩ := (validateSignatureValue_iff (o := o) hmp).1 hvl
    exact hst hc (ValidSignature.length_le hc |>.trans (by decide)) hh hend

theorem Beside.skip_array (h : Beside o m e d r v) {hel : TypeReader → Bool → ℕ → Res ℕ}
    (hvl : validateArray o m e hel n r v.valuePos = .ok q) :
    ∃ t, firstTypeInSignature v.typeStr (v.typePos + 1) = .ok t ∧
      marshalSkipArray v.valueStr t o v.valuePos = .ok q := by
  obtain ⟨t, len, a, hst, rfl, -⟩ := validateArray_eq_ok.1 hvl
  obtain ⟨ht, -, hlen, -, hw, hae, al, hal, rfl, -⟩ := arrayStart_eq_ok.1 hst
  have hle := h.len_le
  have hal' : alignUp v.valuePos 4 + 4 ≤ _ := le_alignUp (t.getAlignment_pos hal)
  have hfr : firstTypeInSignature r.typeStr (r.typePos + 1) = .ok t := by
    simp only [getElementType, bind_eq_ok, assert_eq_ok, exists_const] at ht
    obtain ⟨_, -, -, ht⟩ := ht
    exact ht
  refine ⟨t, ?_, ?_⟩
  · rw [h.typePos, Nat.add_assoc]
    exact h.texts.firstTypeInSignature hfr
  · rw [holds_padded (by decide), ← h.str] at hw
    simp [marshalSkipArray, marshalReadUint32_toBytes alignUp_alignUp (by omega) hlen hw.2,
      ok_bind, hal]

/-! ## Values -/

/-- Where the validator, with fuel `n`, gets over a value and its reader over the type,
    a reader that follows it gets over the value. -/
def Skips (o : ByteOrder) (m : ℕ → Option UInt8) (e n : ℕ) : Prop :=
  ∀ {d q : ℕ} {r v : TypeReader} {j : ℕ} {more : Bool} {r' : TypeReader} {t : TypeCode},
    Tracks o m e d r v → r.getCurrentType = .ok t → t ≠ .invalid →
    validateValue o m e (validateBodyHelper o m e n) n r v.valuePos t = .ok q → q ≤ e →
    readerNext j r = .ok (more, r') → ∀ k, n < k →
    ∃ v', readerNext k v = .ok (more, v') ∧ Tracks o m e d r' v' ∧ v'.valuePos = q

section
variable (ih : ∀ i < n, Skips o m e i)
include ih

theorem Tracks.skip_fields (h : Tracks o m e d r v)
    (hvl : validateBodyHelper o m e n r true v.valuePos = .ok q) {i : ℕ}
    (hsk : skipRest (readerNext i) j r = .ok r') {k k' : ℕ} (hk : n ≤ k)
    (hk' : n ≤ k') : ∃ v', skipRest (readerNext k) k' v = .ok v' ∧
      Tracks o m e d r' v' ∧ v'.valuePos = q := by
  induction n generalizing r v j k' with
  | zero => cases hvl
  | succ n ihn =>
    obtain _ | k' := k'
    · omega
    obtain _ | k := k
    · omega
    obtain ⟨_, t, -, ht⟩ := validateBodyHelper_ok hvl
    cases j with
    | zero => cases hsk
    | succ j =>
      obtain ⟨⟨more, r1⟩, hnx, hrs⟩ := bind_eq_ok.1 hsk
      by_cases hin : t = .invalid
      · -- no field is left: both readers stay where they are
        subst hin
        obtain rfl : v.valuePos = q := Except.ok.inj ((validateBodyHelper_invalid ht).symm.trans hvl)
        have hst {w : TypeReader} {l : ℕ} (hw : w.getCurrentType = .ok .invalid) :
            readerNext (l + 1) w = .ok (false, w) := by
          simp [readerNext, hw, ok_bind]
        obtain ⟨rfl, rfl⟩ : more = false ∧ r1 = r :=
          Prod.mk.inj (readerNext_unique hnx (hst (l := 0) ht))
        obtain rfl : r1 = r' := Except.ok.inj hrs
        refine ⟨v, ?_, h, rfl⟩
        simp [skipRest, hst (h.getCurrentType ht), ok_bind]
      · obtain ⟨-, p, hp, hpe, more', r2, hnx', hvl⟩ := (validateBodyHelper_succ ht hin).1 hvl
        obtain ⟨rfl, rfl⟩ : more = more' ∧ r1 = r2 := Prod.mk.inj (readerNext_unique hnx hnx')
        obtain ⟨v1, hv1, htr, rfl⟩ := ih n (by omega) h ht hin hp hpe hnx (k + 1) (by omega)
        rw [skipRest, hv1, ok_bind]
        cases more with
        | true => exact ihn (fun i hi => ih i (by omega)) htr hvl hrs (by omega) (by omega)
        | false =>
          obtain rfl : r1 = r' := Except.ok.inj hrs
          refine ⟨v1, rfl, htr, ?_⟩
          -- the reader is at its end, so the validator stops here as well
          have hend : r1.getCurrentType = .ok .invalid := by
            cases i with
            | zero => cases hnx
            | succ i =>
              rw [readerNext, ht, ok_bind, if_neg hin] at hnx
              obtain ⟨_, -, hnx⟩ := bind_eq_ok.1 hnx
              obtain ⟨t', ht', hnx⟩ := bind_eq_ok.1 hnx
              simp only [pure_eq_ok, Except.ok.injEq, Prod.mk.injEq, bne_eq_false_iff_eq] at hnx
              rw [← hnx.2, ht', hnx.1]
          cases n with
          | zero => cases hvl
          | succ n => exact Except.ok.inj ((validateBodyHelper_invalid hend).symm.trans hvl)

theorem Beside.skip_struct (h : Beside o m e d r v) {kind : StructKind}
    (ht : firstTypeInSignature r.typeStr r.typePos = .ok (.struct kind))
    (hvl : validateStruct m e (validateBodyHelper o m e n) r v.valuePos = .ok q) {j j' : ℕ}
    (hsk : skipContents (readerNext j) j' r = .ok r') (hk : n ≤ k) :
    ∃ v', skipContents (readerNext k) k v = .ok v' ∧ Tracks o m e d r' v' ∧ v'.valuePos = q := by
  obtain ⟨sub, a, hst, hvl⟩ := validateStruct_eq_ok.1 hvl
  obtain ⟨hrc, rfl, -, -⟩ := structStart_eq_ok.1 hst
  obtain ⟨w, hw, htr, hp⟩ := h.recurse_struct ht hrc
  rw [skipContents, hrc, ok_bind] at hsk
  rw [skipContents, hw, ok_bind]
  exact htr.skip_fields ih (hp ▸ hvl) hsk hk hk

theorem Beside.skip_variant (h : Beside o m e d r v) (hm : Readable m 0 e)
    (ht : firstTypeInSignature r.typeStr r.typePos = .ok .variant)
    (hvl : validateVariant m e (validateBodyHelper o m e n) v.valuePos = .ok q) (hk : n ≤ k) :
    ∃ v', skipContents (readerNext k) k v = .ok v' ∧ v'.valuePos = q := by
  obtain ⟨sig, a, hst, hvl, sub, hnx, -⟩ := validateVariant_eq_ok.1 hvl
  obtain ⟨w, hw, htr, rfl⟩ := h.recurse_variant hm ht hst
  obtain ⟨n, t, rfl, hcr⟩ := validateBodyHelper_ok hvl
  obtain _ | k := k
  · omega
  have hi : t ≠ .invalid := by
    obtain ⟨_, _, _, _, t', _, hfr, hne, _⟩ := (variantStart_eq_ok (hm.mono (Nat.zero_le _))).1 hst
    rw [getCurrentType_initTypesOnly, hfr, Except.ok.injEq] at hcr
    rwa [← hcr]
  obtain ⟨-, p, hp, hpe, rfl⟩ := (validateBodyHelper_succ hcr hi).1 hvl
  obtain ⟨v', hv', -, hps⟩ := ih n (by omega) htr hcr hi hp hpe hnx (k + 1) (by omega)
  refine ⟨v', ?_, hps⟩
  simp [skipContents, hw, ok_bind, skipRest, hv', ok_bind]

/-- The `next` of a reader of the body, a variant or a struct, without the test for the
    end of a struct. -/
theorem Tracks.baseNext (hm : Readable m 0 e) (h : Tracks o m e d r v)
    (ht : firstTypeInSignature r.typeStr r.typePos = .ok t)
    (hvl : validateValue o m e (validateBodyHelper o m e n) n r v.valuePos t = .ok q)
    (hq : q ≤ e) {j : ℕ} (hnx : r.baseNext (readerNext j) j t = .ok r') (hk : n ≤ k) :
    ∃ v', v.baseNext (readerNext k) k t = .ok v' ∧ Tracks o m e d r' v' ∧ v'.valuePos = q := by
  have hmv {p : ℕ} :
      Tracks o m e d { r with typePos := p } { v with typePos := d + p, valuePos := q } :=
    { h with typePos := rfl }
  have ho : v.typePos + 1 = d + (r.typePos + 1) := by rw [h.typePos]; rfl
  match t with
  | .basic b =>
    simp only [TypeReader.baseNext, h.typesOnly] at hnx
    cases hnx
    refine ⟨{ v with typePos := d + (r.typePos + 1), valuePos := q }, ?_, hmv, rfl⟩
    simp only [baseNext, h.values, h.byteOrder, h.skip_basic hm hq hvl, ok_bind, ho]
    rfl
  | .array =>
    simp only [TypeReader.baseNext, h.typesOnly] at hnx
    obtain ⟨p, hp, hnx⟩ := bind_eq_ok.1 hnx
    cases hnx
    obtain ⟨t, ht, hsk⟩ := h.skip_array hvl
    refine ⟨{ v with typePos := d + p, valuePos := q }, ?_, hmv, rfl⟩
    have hnx := h.texts.typeSignatureNext hp
    rw [← h.typePos] at hnx
    simp only [baseNext, h.values, ht, ok_bind, h.byteOrder, hsk, hnx]
    rfl
  | .variant =>
    simp only [TypeReader.baseNext, h.typesOnly] at hnx
    cases hnx
    obtain ⟨w, hw, hps⟩ := h.skip_variant ih hm ht hvl hk
    refine ⟨{ v with typePos := d + (r.typePos + 1), valuePos := q }, ?_, hmv, rfl⟩
    simp only [baseNext, h.values, hw, ok_bind, hps, ho]
    rfl
  | .struct kind =>
    simp only [TypeReader.baseNext, h.typesOnly] at hnx
    obtain ⟨sub, hsb, hnx⟩ := bind_eq_ok.1 hnx
    cases hnx
    obtain ⟨w, hw, htr, hps⟩ := h.skip_struct ih ht hvl hsb hk
    refine ⟨{ v with typePos := d + sub.typePos, valuePos := q }, ?_, hmv, rfl⟩
    simp only [baseNext, h.values, hw, ok_bind, hps, htr.typePos]
    rfl
  | .invalid | .unknown _ | .beginChar _ | .endChar _ => cases hvl

end

theorem Tracks.structNext {kind : StructKind} {v1 r1 : TypeReader} (h : Tracks o m e d r1 v1)
    (hr : r.baseNext (readerNext j) j t = .ok r1) (hv : v.baseNext (readerNext k) k t = .ok v1)
    (hnx : r.structNext kind (readerNext j) j t = .ok r') :
    ∃ v', v.structNext kind (readerNext k) k t = .ok v' ∧ Tracks o m e d r' v' ∧
      v'.valuePos = v1.valuePos := by
  rw [TypeReader.structNext, hr, ok_bind] at hnx
  obtain ⟨c, hc, hnx⟩ := bind_eq_ok.1 hnx
  have hvc : v1.typeStr.getByte v1.typePos = .ok c := by rw [h.typePos]; exact h.texts.getByte hc
  rw [TypeReader.structNext, hv, ok_bind, hvc, ok_bind]
  split at hnx
  · next hend =>
    rw [if_pos hend]
    cases hnx
    refine ⟨_, rfl, { h with typePos := ?_, finished := rfl }, rfl⟩
    rw [h.typePos]
    rfl
  · next hend =>
    rw [if_neg hend]
    cases hnx
    exact ⟨v1, rfl, h, rfl⟩

theorem Tracks.classNext (ih : ∀ i < n, Skips o m e i) (hm : Readable m 0 e)
    (h : Tracks o m e d r v) (ht : firstTypeInSignature r.typeStr r.typePos = .ok t)
    (hvl : validateValue o m e (validateBodyHelper o m e n) n r v.valuePos t = .ok q)
    (hq : q ≤ e) (hnx : r.classNext (readerNext j) j t = .ok r') (hk : n ≤ k) :
    ∃ v', v.classNext (readerNext k) k t = .ok v' ∧ Tracks o m e d r' v' ∧ v'.valuePos = q := by
  have hb {r1 : TypeReader} (hr1 : r.baseNext (readerNext j) j t = .ok r1) :=
    h.baseNext ih hm ht hvl hq hr1 hk
  have hsh := h.shape
  unfold TypeReader.classNext at hnx ⊢
  cases hr : r.klass <;> cases hv : v.klass <;> rw [hr, hv] at hsh <;> cases hsh
  · rw [hr] at hnx
    exact hb hnx
  · rw [hr] at hnx
    exact hb hnx
  · rw [hr] at hnx
    obtain ⟨r1, hr1, -⟩ := bind_eq_ok.1 hnx
    obtain ⟨v1, hv1, htr, rfl⟩ := hb hr1
    exact htr.structNext hr1 hv1 hnx

/-- **Readers follow the validator.** -/
theorem skips (hm : Readable m 0 e) (n : ℕ) : Skips o m e n := by
  induction n using Nat.strong_induction_on with
  | _ n ih =>
    intro d q r v j more r' t h ht hi hvl hq hnx k hk
    obtain _ | k := k
    · omega
    cases j with
    | zero => cases hnx
    | succ j =>
      rw [readerNext, ht, ok_bind, if_neg hi] at hnx
      obtain ⟨r1, hr1, hnx⟩ := bind_eq_ok.1 hnx
      obtain ⟨t', ht', hnx⟩ := bind_eq_ok.1 hnx
      cases hnx
      obtain ⟨v1, hv1, htr, hp⟩ := h.classNext ih hm (getCurrentType_open ht hi).2 hvl hq
        hr1 (k := k) (by omega)
      refine ⟨v1, ?_, htr, hp⟩
      simp [readerNext, h.getCurrentType ht, ok_bind, if_neg hi, hv1, ok_bind,
        htr.getCurrentType ht', ok_bind]

end

end DBus
