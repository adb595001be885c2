/-
  Encodings are accepted by the body validator.

  By induction over the value trees, at every offset: the validator accepts the
  bytes of a value and ends where they end (`validateValue_encode`), given as much
  fuel as the value and its signature have bytes.
-/
import DBus.Body.Containers
import DBus.Reader.Iterate

namespace DBus

open Outcome Memory Align Endian Value List

theorem Ty.code_isValid (t : Ty) : t.code.isValid = true := by cases t <;> rfl

theorem Ty.code_ne_invalid (t : Ty) : t.code ≠ .invalid := by cases t <;> rintro ⟨⟩

variable {f : FixedType}

theorem TypeCode.eq_of_fixed {t : TypeCode} (h : t.fixed? = some f) : t = .basic (.fixed f) := by
  cases t with
  | basic b =>
    cases b with
    | fixed g => cases h; rfl
    | str s => cases h
  | _ => cases h

theorem Ty.eq_fixed_of_code {t : Ty} (h : t.code.fixed? = some f) : t = .basic (.fixed f) := by
  have hcd := TypeCode.eq_of_fixed h
  cases t <;> cases hcd
  rfl

section
variable {o : ByteOrder} {m : ℕ → Option UInt8} {e p : ℕ} {t : Ty} {vs : List Value} {ts : List Ty}
  {r : TypeReader}

theorem textAt_window {cs : List UInt8} (h : Holds m p (cs ++ [0])) :
    TextAt ⟨window m p cs.length, cs.length⟩ 0 (cs ++ [0]) :=
  ⟨(holds_window (by simp)).2 h, by simp⟩

theorem typesLeft_window (ht : t.formed true false = true) (h : Holds m p (t.sig ++ [0])) :
    TypesLeft (.initTypesOnly ⟨window m p t.sig.length, t.sig.length⟩ 0) [t] t.sig.length := by
  have htx : TextAt ⟨window m p t.sig.length, t.sig.length⟩ 0 (Ty.sigList [t] ++ 0 :: []) := by
    simpa using textAt_window h
  exact .body rfl rfl (by simp [Ty.formedList, ht]) htx (by simp [TypeReader.initTypesOnly])

/-! ## Positions in a container -/

theorem add_length_encode_array (el : Ty) (vs : List Value) (p : ℕ) :
    p + ((Value.array el vs).encode o p).length = alignUp (alignUp p 4 + 4) el.alignment +
        (encodeList o (alignUp (alignUp p 4 + 4) el.alignment) vs).length := by
  have := add_padding (n := alignUp p 4 + 4) el.alignment_pos
  rw [add_length_encode, content]
  simp only [ty, Ty.alignment_array, length_append, length_toBytes, length_pad]
  omega

theorem holds_array {el : Ty} : Holds m p ((Value.array el vs).encode o p) ↔
      Holds m p (pad p 4 ++ toBytes o 4
        (encodeList o (alignUp (alignUp p 4 + 4) el.alignment) vs).length) ∧
      Holds m (alignUp p 4 + 4) (pad (alignUp p 4 + 4) el.alignment) ∧
      Holds m (alignUp (alignUp p 4 + 4) el.alignment)
        (encodeList o (alignUp (alignUp p 4 + 4) el.alignment) vs) := by
  have h1 := add_padding (n := p) (a := 4) (by decide)
  have h2 := add_padding (n := alignUp p 4 + 4) el.alignment_pos
  rw [encode, content]
  simp only [ty, Ty.alignment_array, holds_append, length_pad, length_toBytes, h1, h2, and_assoc]

theorem add_length_encode_struct (k : StructKind) (vs : List Value) (p : ℕ) :
    p + ((Value.struct k vs).encode o p).length =
      alignUp p 8 + (encodeList o (alignUp p 8) vs).length :=
  add_length_encode _

theorem holds_struct {k : StructKind} : Holds m p ((Value.struct k vs).encode o p) ↔
      Holds m p (pad p 8) ∧ Holds m (alignUp p 8) (encodeList o (alignUp p 8) vs) :=
  holds_padded (Ty.alignment_pos _)

theorem encode_variant (v : Value) (p : ℕ) : (Value.variant v).encode o p =
      sigBytes v.ty.sig ++ v.encode o (p + (sigBytes v.ty.sig).length) := by
  rw [encode_of_dvd (Nat.one_dvd p), content_variant]

theorem add_length_encode_variant (v : Value) (p : ℕ) : p + ((Value.variant v).encode o p).length =
      alignUp (p + (sigBytes v.ty.sig).length) v.ty.alignment +
        (v.encode o (alignUp (p + (sigBytes v.ty.sig).length) v.ty.alignment)).length := by
  rw [encode_of_dvd dvd_alignUp, encode_variant, length_append, ← Nat.add_assoc, add_length_encode]

/-! ## Elements -/

theorem eq_fixed {v : Value} (h : v.ty = .basic (.fixed f)) : ∃ n, v = .fixed f n := by
  cases v with
  | fixed g n => cases h; exact ⟨n, rfl⟩
  | _ => cases h

theorem encode_fixed_of_dvd (n : ℕ) (h : f.size ∣ p) :
    (Value.fixed f n).encode o p = toBytes o f.size (f.word n) := by
  rw [encode_of_dvd h, content]

theorem length_encodeList_fixed :
    ∀ (vs : List Value) {p : ℕ}, (∀ t ∈ tyList vs, t = .basic (.fixed f)) → f.size ∣ p →
    (encodeList o p vs).length = vs.length * f.size
  | [], _, _, _ => by simp
  | v :: vs, p, ht, hd => by
    obtain ⟨n, rfl⟩ := eq_fixed (ht _ (mem_cons_self ..))
    rw [encodeList_cons, encode_fixed_of_dvd n hd, length_append, length_toBytes,
      length_encodeList_fixed vs (fun t hm => ht t (mem_cons_of_mem _ hm))
        ((Nat.dvd_add_right hd).2 (Nat.dvd_refl _)), length_cons, Nat.add_mul, Nat.one_mul,
      Nat.add_comm]

theorem booleansLoop_encode : ∀ (vs : List Value) {k p : ℕ},
    (∀ t ∈ tyList vs, t = .basic (.fixed .boolean)) → 4 ∣ p → vs.length < k →
    Holds m p (encodeList o p vs) →
    booleansLoop o m (p + (encodeList o p vs).length) k p = .ok (p + (encodeList o p vs).length)
  | [], k, p, _, _, hk, _ => by
    obtain _ | k := k
    · omega
    rw [booleansLoop, encodeList_nil, if_neg (by simp)]
    rfl
  | v :: vs, k, p, ht, hp, hk, h => by
    obtain _ | k := k
    · omega
    obtain ⟨n, rfl⟩ := eq_fixed (ht _ (mem_cons_self ..))
    have hen := encode_fixed_of_dvd (o := o) (f := .boolean) n hp
    have hlen : ((Value.fixed .boolean n).encode o p).length = 4 := by rw [hen, length_toBytes]; rfl
    rw [encodeList_cons, hlen, holds_append, hen, length_toBytes] at h
    have hch : checkBoolean o m p = .ok () := by
      refine checkBoolean_eq_ok.2 ⟨hp, _, ?_, h.1⟩
      by_cases hn : n = 0
      · exact .inl (by simp [FixedType.word, hn])
      · exact .inr (by simp [FixedType.word, hn])
    have hrs := booleansLoop_encode vs (k := k) (p := p + 4)
      (fun t hm => ht t (mem_cons_of_mem _ hm)) (by omega) (by simpa using hk) h.2
    rw [encodeList_cons, length_append, hlen, ← Nat.add_assoc, booleansLoop,
      if_pos (by omega), hch, ok_bind]
    exact hrs

/-! ## Values -/

theorem length_le_encodeList : ∀ (vs : List Value) (p : ℕ) {el : Ty} {inArray : Bool},
    (∀ t ∈ tyList vs, t = el) → el.formed true inArray = true →
    vs.length ≤ (encodeList o p vs).length
  | [], _, _, _, _, _ => Nat.zero_le _
  | v :: vs, p, el, inArray, ht, hf => by
    have hv : v.ty = el := ht _ (mem_cons_self ..)
    have hp := encode_length_pos (o := o) p v (hv ▸ hf)
    have := length_le_encodeList vs (p + (v.encode o p).length)
      (fun t hm => ht t (mem_cons_of_mem _ hm)) hf
    rw [encodeList_cons, length_append, length_cons]
    omega

theorem variantStart_encode {s : ℕ} (hs : s = p + (sigBytes t.sig).length) (hc : t.Complete)
    (hm : Readable m p e) (hsg : Holds m p (sigBytes t.sig))
    (hp : Holds m s (pad s t.alignment)) (he : alignUp s t.alignment ≤ e) :
    variantStart m e p = .ok (⟨window m (p + 1) t.sig.length, t.sig.length⟩, alignUp s t.alignment) := by
  have hl := typesLeft_window hc.formed (holds_sigBytes.1 hsg).2
  have hfr := hl.getCurrentType_cons
  rw [getCurrentType_initTypesOnly] at hfr
  subst hs
  exact (variantStart_eq_ok hm).2 ⟨_, rfl, hc.valid, hsg, t.code, t.alignment, hfr,
    t.code_ne_invalid, t.getAlignment_code, rfl, le_trans (le_alignUp t.alignment_pos) he, he, hp⟩

theorem arrayStart_encode {el : Ty} {d : ℕ} (hl : TypesLeft r (.array el :: ts) d)
    (hft : (Value.array el vs).fits o (alignUp p 4))
    (h : Holds m p ((Value.array el vs).encode o p))
    (he : p + ((Value.array el vs).encode o p).length ≤ e) : arrayStart o m e r p = .ok (el.code,
      (encodeList o (alignUp (alignUp p 4 + 4) el.alignment) vs).length,
      alignUp (alignUp p 4 + 4) el.alignment) := by
  obtain ⟨hlen, hp, -⟩ := holds_array.1 h
  rw [add_length_encode_array] at he
  have hm := hft.1
  refine arrayStart_eq_ok.2 ⟨hl.getElementType, el.code_isValid, ?_, hm, hlen, he,
    el.alignment, el.getAlignment_code, rfl, hp⟩
  unfold maximumArrayLength at hm
  omega

theorem validateBodyHelper_one {n q d : ℕ} (hl : TypesLeft r (t :: ts) d) (hp : p < q)
    (he : q ≤ e) (h : validateValue o m e (validateBodyHelper o m e n) n r p t.code = .ok q) :
    validateBodyHelper o m e (n + 1) r false p = .ok q :=
  (validateBodyHelper_succ hl.getCurrentType_cons t.code_ne_invalid).2 ⟨by omega, q, h, he, rfl⟩

mutual
/-- **Encodings are accepted.**  On the encoding of a value of the current type
    the validator ends where the encoding ends. -/
theorem validateValue_encode : ∀ (v : Value) {n p d : ℕ}
    {r : TypeReader} {ts : List Ty}, TypesLeft r (v.ty :: ts) d → v.WF →
    v.fits o (alignUp p v.ty.alignment) → Readable m p e → Holds m p (v.encode o p) →
    p + (v.encode o p).length ≤ e → v.ty.sig.length + (v.encode o p).length ≤ n →
    validateValue o m e (validateBodyHelper o m e n) n r p v.ty.code =
      .ok (p + (v.encode o p).length)
  | .fixed f k, n, p, d, r, ts, _, hwf, _, hm, h, he, _ => by
    -- a boolean is stored as its normalised word
    have hnr : (Value.fixed f k).encode o p = (Value.fixed f (f.word k)).encode o p := by
      simp [encode, content, ty]
    rw [hnr] at h he ⊢
    exact ((validateFixed_iff hm).2 ⟨f.word k, f.word_lt hwf, f.word_word k, h, rfl, he⟩).1
  | .str s bs, n, p, d, r, ts, _, hwf, _, hm, h, he, _ => by
    by_cases hs : s = .signature
    · subst hs
      exact (validateSignatureValue_iff hm).2 ⟨bs, hwf.1, h, rfl, he⟩
    · have hvl := (validateString_iff hs hm).2 ⟨bs, hwf.1, hwf.2.le, h, rfl, he⟩
      cases s <;> first | exact hvl | exact absurd rfl hs
  | .variant v, n, p, d, r, ts, _, hwf, hft, hm, h, he, hn => by
    obtain ⟨hc, hv⟩ := hwf
    rw [encode_variant] at h he hn ⊢
    obtain ⟨hsg, hvl⟩ := holds_append.1 h
    have hl := typesLeft_window hc.formed (holds_sigBytes.1 hsg).2
    obtain ⟨sub, hnx, hend, -⟩ := hl.next
    rw [length_append, ← Nat.add_assoc] at he ⊢
    rw [length_append] at hn
    generalize hs : p + (sigBytes v.ty.sig).length = s at hvl he hn ⊢
    -- the padding of the value is checked before the validator goes into it
    obtain ⟨hp, hcn⟩ := (holds_padded v.ty.alignment_pos).1 hvl
    have hle : s ≤ alignUp s v.ty.alignment := le_alignUp v.ty.alignment_pos
    have hen := encode_of_dvd (o := o) (v := v) (dvd_alignUp (n := s))
    have hps := content_length_pos (o := o) v (alignUp s v.ty.alignment) hc.formed
    have hlen : (v.content o (alignUp s v.ty.alignment)).length ≤ (v.encode o s).length := by
      rw [encode, length_append]; omega
    have hft' : v.fits o (alignUp (alignUp s v.ty.alignment) v.ty.alignment) := by
      rw [alignUp_alignUp, ← hs]
      simpa only [fits, everyArray, ty, Ty.alignment_variant, alignUp_one] using hft
    rw [add_length_encode] at he ⊢
    rw [length_sigBytes] at hn hs
    obtain _ | n := n
    · omega
    have hrc := validateValue_encode v (n := n) (p := alignUp s v.ty.alignment) hl hv hft'
      (hm.mono (by omega)) (by rwa [hen]) (by rwa [hen]) (by rw [hen]; omega)
    rw [hen] at hrc
    exact validateVariant_eq_ok.2 ⟨_, _,
      variantStart_encode (by rw [length_sigBytes]; exact hs.symm) hc hm hsg hp (by omega),
      validateBodyHelper_one hl (by omega) he hrc, sub, hnx, hend.getCurrentType_nil⟩
  | .array el vs, n, p, d, r, ts, hl, hwf, hft, hm, h, he, hn => by
    have hst := arrayStart_encode hl hft h he
    obtain ⟨sub, hrc, hsb, -⟩ := hl.recurse_array
    obtain ⟨-, -, hel⟩ := holds_array.1 h
    rw [add_length_encode_array] at he ⊢
    have hlen : 4 + (encodeList o (alignUp (alignUp p 4 + 4) el.alignment) vs).length ≤
        ((Value.array el vs).encode o p).length := by
      rw [encode, content]
      simp only [ty, Ty.alignment_array, length_append, length_toBytes, length_pad]
      omega
    simp only [ty, Ty.sig, length_cons] at hn
    refine validateArray_eq_ok.2 ⟨_, _, _, hst, rfl, fun _ => ?_⟩
    have hle : p ≤ alignUp (alignUp p 4 + 4) el.alignment := by
      have := le_alignUp (n := p) (a := 4) (by decide)
      have := le_alignUp (n := alignUp p 4 + 4) el.alignment_pos
      omega
    obtain ⟨_, hf⟩ := hl.formed
    simp only [ty, Ty.formed] at hf
    have hco := length_le_encodeList (o := o) vs (alignUp (alignUp p 4 + 4) el.alignment) hwf.1 hf
    rw [validateElements_eq hl.getElementType hrc]
    have hlp := elementsLoop_encode vs (n := n) (k := n)
      (p := alignUp (alignUp p 4 + 4) el.alignment) hsb hwf.1 hwf.2 hft.2 (hm.mono hle) hel he
      (by omega) (by omega)
    cases hcd : el.code.fixed? with
    | none => exact hlp
    | some f =>
      obtain rfl := Ty.eq_fixed_of_code hcd
      cases f with
      | boolean => exact booleansLoop_encode vs hwf.1 dvd_alignUp (by omega) hel
      | _ => rfl
  | .struct k vs, n, p, d, r, ts, hl, hwf, hft, hm, h, he, hn => by
    obtain ⟨sub, hrc, hsb, -⟩ := hl.recurse_struct
    obtain ⟨hp, hfs⟩ := holds_struct.1 h
    have hlen : (encodeList o (alignUp p 8) vs).length ≤ ((Value.struct k vs).encode o p).length := by
      rw [encode, length_append]; exact Nat.le_add_left _ _
    rw [add_length_encode_struct] at he ⊢
    simp only [ty, Ty.sig, length_cons, length_append, length_nil] at hn
    have hle : p ≤ alignUp p 8 := le_alignUp (by decide)
    have hal := validateBodyHelper_encode vs (n := n) (p := alignUp p 8) hsb hwf hft
      (hm.mono hle) hfs he (by omega)
    exact validateStruct_eq_ok.2 ⟨_, _, structStart_eq_ok.2 ⟨hrc, rfl, by omega, hp⟩, hal⟩
theorem elementsLoop_encode : ∀ (vs : List Value) {n k p d : ℕ}
    {sub : TypeReader} {el : Ty}, TypesLeft sub [el] d → (∀ t ∈ tyList vs, t = el) → WFList vs →
    fitsList o p vs → Readable m p e → Holds m p (encodeList o p vs) →
    p + (encodeList o p vs).length ≤ e → vs.length < k →
    el.sig.length + (encodeList o p vs).length < n →
    elementsLoop (validateBodyHelper o m e n sub false) (p + (encodeList o p vs).length) k p =
      .ok (p + (encodeList o p vs).length)
  | [], n, k, p, d, sub, el, _, _, _, _, _, _, _, hk, _ => by
    obtain _ | k := k
    · omega
    rw [elementsLoop, encodeList_nil, if_neg (by simp)]
    rfl
  | v :: vs, n, k, p, d, sub, el, hl, ht, hwf, hft, hm, h, he, hk, hn => by
    obtain _ | k := k
    · omega
    obtain _ | n := n
    · omega
    obtain rfl : v.ty = el := ht _ (mem_cons_self ..)
    obtain ⟨_, hf⟩ := hl.formed
    have hp := encode_length_pos (o := o) p v hf
    rw [encodeList_cons, holds_append] at h
    rw [encodeList_cons, length_append, ← Nat.add_assoc] at he ⊢
    rw [encodeList_cons, length_append] at hn
    have hvl := validateValue_encode v (n := n) hl hwf.1 hft.1 hm h.1 (by omega) (by omega)
    have hrs := elementsLoop_encode vs (n := n + 1) (k := k) hl
      (fun t hmm => ht t (mem_cons_of_mem _ hmm)) hwf.2 hft.2 (hm.mono (by omega)) h.2 he
      (by simpa using hk) (by omega)
    rw [elementsLoop, if_pos (by omega), validateBodyHelper_one hl (by omega) (by omega) hvl,
      ok_bind]
    exact hrs
theorem validateBodyHelper_encode : ∀ (vs : List Value) {n p d : ℕ}
    {r : TypeReader}, TypesLeft r (tyList vs) d → WFList vs → fitsList o p vs → Readable m p e →
    Holds m p (encodeList o p vs) → p + (encodeList o p vs).length ≤ e →
    (Ty.sigList (tyList vs)).length + (encodeList o p vs).length < n →
    validateBodyHelper o m e n r true p = .ok (p + (encodeList o p vs).length)
  | [], n, p, d, r, hl, _, _, _, _, _, hn => by
    obtain _ | n := n
    · omega
    exact validateBodyHelper_invalid hl.getCurrentType_nil
  | v :: vs, n, p, d, r, hl, hwf, hft, hm, h, he, hn => by
    obtain _ | n := n
    · omega
    obtain ⟨_, hf⟩ := hl.formed
    obtain ⟨r', hnx, hl', -⟩ := hl.next
    have hp := encode_length_pos (o := o) p v hf
    rw [encodeList_cons, holds_append] at h
    rw [encodeList_cons, length_append, ← Nat.add_assoc] at he ⊢
    rw [encodeList_cons, tyList_cons, Ty.sigList_cons, length_append, length_append] at hn
    have hvl := validateValue_encode v (n := n) hl hwf.1 hft.1 hm h.1 (by omega) (by omega)
    have hrs := validateBodyHelper_encode vs (n := n) hl' hwf.2 hft.2 (hm.mono (by omega))
      h.2 he (by omega)
    exact (validateBodyHelper_succ hl.getCurrentType_cons v.ty.code_ne_invalid).2
      ⟨by omega, _, hvl, by omega, _, r', hnx, hrs⟩
end

/-- **Encodings of well-formed values are accepted as bodies.** -/
theorem bodyAccepted_encode (hf : Ty.formedList true (tyList vs) = true) (hwf : WFList vs)
    (hft : fitsList o 0 vs) (hlen : (encodeList o 0 vs).length ≤ stringMaxMaxLength) :
    BodyAccepted o (Ty.sigList (tyList vs)) (encodeList o 0 vs) := by
  have hh := (holds_append.1 (holds_ofBytes (encodeList o 0 vs))).1
  have hrd : Readable (DBusString.ofBytes (encodeList o 0 vs)).str 0 (encodeList o 0 vs).length :=
    fun i _ hi => by rw [ofBytes_str_of_lt hi]; rfl
  have hrn := validateBodyHelper_encode vs (.init hf) hwf hft hrd hh
    (by rw [Nat.zero_add]) (Nat.lt_succ_self _)
  rw [Nat.zero_add] at hrn
  exact bodyAccepted_iff.2 ⟨hlen, hrn⟩

end

end DBus
