/-
  What the body validator accepts is the encoding of a value tree.

  By induction over its run, whatever it accepts denotes values of the types it was asked
  for, if the body is regular: an array of fixed-size elements holds whole elements, and the
  brackets of the signature in a variant nest, neither of which is checked.
-/
import DBus.Body.Trace
import DBus.Reader.Values

namespace DBus

open Outcome Memory Align Endian Value Traced List

/-- What the validator leaves open: an array of fixed-size elements is made of
    whole elements, and the brackets in the signature of a variant nest. -/
def Part.regular : Part → Bool
  | .boolean _ => true
  | .array t len =>
    match t.fixed? with
    | some f => len % f.size == 0
    | none => true
  | .variant sig => bracketsNest sig

theorem Part.regular_array {t : TypeCode} {len : ℕ} :
    (Part.array t len).regular = true ↔ ∀ f, t.fixed? = some f → f.size ∣ len := by
  rw [regular]
  cases t.fixed? with
  | none => simp
  | some f => simp [Nat.dvd_iff_mod_eq_zero]

/-- The bytes from `p` to `q` are the encoding of `vs`. -/
structure Denotes (o : ByteOrder) (m : ℕ → Option UInt8) (p q : ℕ) (vs : List Value) : Prop where
  wf : WFList vs
  fits : fitsList o p vs
  normal : normaliseList vs = vs
  holds : Holds m p (encodeList o p vs)
  end_eq : q = p + (encodeList o p vs).length

section
variable {o : ByteOrder} {m : ℕ → Option UInt8} {e p q : ℕ} {v : Value} {vs : List Value}
  {f : FixedType} {n : ℕ} {r : TypeReader}

theorem Denotes.le (h : Denotes o m p q vs) : p ≤ q := h.end_eq ▸ Nat.le_add_right ..

theorem Denotes.nil : Denotes o m p p [] := ⟨trivial, trivial, rfl, holds_nil, rfl⟩

theorem denotes_singleton : Denotes o m p q [v] ↔
      v.WF ∧ v.fits o (alignUp p v.ty.alignment) ∧ v.normalise = v ∧ Holds m p (v.encode o p) ∧
        q = p + (v.encode o p).length := by
  have hen : encodeList o p [v] = v.encode o p := by simp
  constructor
  · rintro ⟨hwf, hft, hn, h, hq⟩
    rw [hen] at h hq
    exact ⟨hwf.1, hft.1, (List.cons.inj hn).1, h, hq⟩
  · rintro ⟨hwf, hft, hn, h, hq⟩
    rw [← hen] at h hq
    exact ⟨⟨hwf, trivial⟩, ⟨hft, trivial⟩, by rw [normaliseList, normaliseList, hn], h, hq⟩

theorem Denotes.cons {q' : ℕ} (hv : Denotes o m p q [v]) (hvs : Denotes o m q q' vs) :
    Denotes o m p q' (v :: vs) := by
  obtain ⟨hwf, hft, hn, h, rfl⟩ := denotes_singleton.1 hv
  obtain ⟨hwf', hft', hn', h', rfl⟩ := hvs
  refine ⟨⟨hwf, hwf'⟩, ⟨hft, hft'⟩, by rw [normaliseList, hn, hn'], ?_, ?_⟩
  · rw [encodeList_cons, holds_append]
    exact ⟨h, h'⟩
  · rw [encodeList_cons, length_append, Nat.add_assoc]

/-! ## Basic values -/

theorem denotes_fixed (hm : Readable m p e) (h : validateFixed o m e f p = .ok q) (hq : q ≤ e) :
    ∃ v, v.ty = .basic (.fixed f) ∧ Denotes o m p q [v] := by
  obtain ⟨n, hn, hw, hh, hend, -⟩ := (validateFixed_iff hm).1 ⟨h, hq⟩
  exact ⟨.fixed f n, rfl, denotes_singleton.2 ⟨hn, trivial, by rw [normalise, hw], hh, hend⟩⟩

theorem denotes_string {s : StringType} (hs : s ≠ .signature) (hm : Readable m p e)
    (he : e ≤ stringMaxMaxLength) (h : validateString o m e s p = .ok q) :
    ∃ v, v.ty = .basic (.str s) ∧ Denotes o m p q [v] := by
  obtain ⟨bs, hc, -, hh, hend, hq⟩ := (validateString_iff hs hm).1 h
  refine ⟨.str s bs, rfl, denotes_singleton.2 ⟨⟨hc, ?_⟩, trivial, rfl, hh, hend⟩⟩
  rw [add_length_encode_string hs] at hend
  omega

theorem denotes_signature (hm : Readable m p e) (h : validateSignatureValue m e p = .ok q) :
    ∃ v, v.ty = .basic (.str .signature) ∧ Denotes o m p q [v] := by
  obtain ⟨cs, hc, hh, hend, -⟩ := (validateSignatureValue_iff (o := o) hm).1 h
  refine ⟨.str .signature cs, rfl, denotes_singleton.2 ⟨⟨hc, ?_⟩, trivial, rfl, hh, hend⟩⟩
  exact hc.length_le.trans_lt (by decide)

/-! ## Containers -/

theorem Denotes.array {el : Ty} {len : ℕ} (ht : ∀ t ∈ tyList vs, t = el)
    (hw : Holds m p (pad p 4 ++ toBytes o 4 len)) (hm : len ≤ maximumArrayLength)
    (hp : Holds m (alignUp p 4 + 4) (pad (alignUp p 4 + 4) el.alignment))
    (h : Denotes o m (alignUp (alignUp p 4 + 4) el.alignment)
      (alignUp (alignUp p 4 + 4) el.alignment + len) vs) :
    Denotes o m p (alignUp (alignUp p 4 + 4) el.alignment + len) [.array el vs] := by
  have hlen := Nat.add_left_cancel h.end_eq
  refine denotes_singleton.2 ⟨⟨ht, h.wf⟩, ⟨?_, h.fits⟩, by rw [normalise, h.normal], ?_, ?_⟩
  · exact hlen ▸ hm
  · exact holds_array.2 ⟨hlen ▸ hw, hp, h.holds⟩
  · rw [add_length_encode_array, ← hlen]

theorem Denotes.struct {k : StructKind} (hp : Holds m p (pad p 8))
    (h : Denotes o m (alignUp p 8) q vs) : Denotes o m p q [.struct k vs] := by
  refine denotes_singleton.2 ⟨h.wf, h.fits, by rw [normalise, h.normal],
    holds_struct.2 ⟨hp, h.holds⟩, ?_⟩
  rw [add_length_encode_struct, h.end_eq]

theorem Denotes.variant (hc : v.ty.Complete) (hsg : Holds m p (sigBytes v.ty.sig))
    (hp : Holds m (p + (sigBytes v.ty.sig).length)
      (pad (p + (sigBytes v.ty.sig).length) v.ty.alignment))
    (h : Denotes o m (alignUp (p + (sigBytes v.ty.sig).length) v.ty.alignment) q [v]) :
    Denotes o m p q [.variant v] := by
  obtain ⟨hwf, hft, hn, hh, hq⟩ := denotes_singleton.1 h
  have hen : _ = v.encode o (p + (sigBytes v.ty.sig).length) := pad_encode v
  rw [alignUp_of_dvd dvd_alignUp] at hft
  refine denotes_singleton.2 ⟨⟨hc, hwf⟩, ?_, by rw [normalise, hn], ?_, ?_⟩
  · rwa [Value.fits, ty, Ty.alignment_variant, alignUp_one]
  · rw [encode_variant, holds_append, ← hen, holds_append, length_pad,
      add_padding v.ty.alignment_pos]
    exact ⟨hsg, hp, hh⟩
  · rw [encode_variant, length_append, ← hen, length_append, length_pad, hq]
    have := add_padding (n := p + (sigBytes v.ty.sig).length) v.ty.alignment_pos
    omega

/-! ## Elements -/

theorem denotes_booleans {arrayEnd k : ℕ} (h : booleansLoop o m arrayEnd k p = .ok q) :
    ∃ vs, (∀ t ∈ tyList vs, t = .basic (.fixed .boolean)) ∧ Denotes o m p q vs := by
  induction k generalizing p with
  | zero => cases h
  | succ k ih =>
    rw [booleansLoop] at h
    split at h
    · obtain ⟨_, hc, h⟩ := bind_eq_ok.1 h
      obtain ⟨vs, ht, hvs⟩ := ih h
      obtain ⟨hd, n, hn, hh⟩ := checkBoolean_eq_ok.1 hc
      have hw : FixedType.word .boolean n = n := by rcases hn with rfl | rfl <;> rfl
      have hen := encode_fixed_of_dvd (o := o) (f := .boolean) n hd
      refine ⟨.fixed .boolean n :: vs, forall_mem_cons.2 ⟨rfl, ht⟩, Denotes.cons ?_ hvs⟩
      refine denotes_singleton.2 ⟨?_, trivial, by rw [normalise, hw], ?_, ?_⟩
      · change n < 256 ^ 4
        omega
      · rw [hen, hw]
        exact hh
      · rw [hen, length_toBytes]
    · cases h
      exact ⟨[], by simp, .nil⟩

theorem denotes_block (hb : f ≠ .boolean) (hd : f.size ∣ p) (hm : Readable m p e)
    (he : p + n * f.size ≤ e) :
    ∃ vs, (∀ t ∈ tyList vs, t = .basic (.fixed f)) ∧ Denotes o m p (p + n * f.size) vs := by
  induction n generalizing p with
  | zero => exact ⟨[], by simp, by simpa using Denotes.nil⟩
  | succ n ih =>
    rw [Nat.succ_mul, Nat.add_comm (n * f.size), ← Nat.add_assoc] at he ⊢
    obtain ⟨vs, ht, hvs⟩ := ih (Nat.dvd_add_self_right.2 hd) (hm.mono (Nat.le_add_right ..)) he
    obtain ⟨k, hk, hw, hh⟩ := exists_fixed (o := o) hb hm (le_trans (Nat.le_add_right ..) he)
    have hen := encode_fixed_of_dvd (o := o) k hd
    refine ⟨.fixed f k :: vs, forall_mem_cons.2 ⟨rfl, ht⟩, Denotes.cons ?_ hvs⟩
    refine denotes_singleton.2 ⟨hk, trivial, by rw [normalise, hw], ?_, ?_⟩
    · rw [hen, hw]
      exact hh
    · rw [hen, length_toBytes]

/-! ## The run of the validator -/

/-- The signature of a variant is the text of types, if its brackets nest. -/
theorem variantStart_types {sig : DBusString} {a : ℕ} (hm : Readable m p e)
    (hs : variantStart m e p = .ok (sig, a)) (hn : bracketsNest sig.bytes = true) :
    ∃ u us, TypesLeft (.initTypesOnly sig 0) (u :: us) (Ty.sigList (u :: us)).length ∧
      Ty.formedList true (u :: us) = true ∧ ValidSignature (Ty.sigList (u :: us)) ∧
      Holds m p (sigBytes (Ty.sigList (u :: us))) ∧
      a = alignUp (p + (sigBytes (Ty.sigList (u :: us))).length) u.alignment ∧
      Holds m (p + (sigBytes (Ty.sigList (u :: us))).length)
        (pad (p + (sigBytes (Ty.sigList (u :: us))).length) u.alignment) := by
  obtain ⟨cs, rfl, hv, hsg, t, al, hfr, hne, hal, rfl, -, -, hp⟩ := (variantStart_eq_ok hm).1 hs
  have htx := (holds_sigBytes.1 hsg).2
  have hb : DBusString.bytes ⟨window m (p + 1) cs.length, cs.length⟩ = cs :=
    DBusString.bytes_eq rfl ((holds_window (Nat.le_succ _)).2 (holds_append.1 htx).1)
  rw [hb] at hn
  obtain ⟨us, rfl, hf, -⟩ := hv.exists_types hn
  have hl : TypesLeft (.initTypesOnly ⟨window m (p + 1) (Ty.sigList us).length, (Ty.sigList us).length⟩ 0) us
      (Ty.sigList us).length :=
    .body rfl rfl hf (textAt_window htx) (by simp [TypeReader.initTypesOnly])
  cases us with
  | nil =>
    have := hl.getCurrentType_nil
    rw [getCurrentType_initTypesOnly, hfr, Except.ok.injEq] at this
    exact absurd this hne
  | cons u us =>
    obtain rfl : u.code = t := by
      have := hl.getCurrentType_cons
      rw [getCurrentType_initTypesOnly, hfr, Except.ok.injEq] at this
      exact this.symm
    obtain rfl : u.alignment = al := by
      rw [Ty.getAlignment_code] at hal
      exact Except.ok.inj hal
    exact ⟨u, us, hl, hf, hv, hsg, rfl, hp⟩

/-- With fuel `n`, what the validator accepts denotes values. -/
structure Decodes (o : ByteOrder) (m : ℕ → Option UInt8) (e n : ℕ) : Prop where
  all : ∀ {r : TypeReader} {ts : List Ty} {d p q : ℕ}, TypesLeft r ts d → Readable m p e →
    Ends (·.regular = true) (traceHelper o m e n r true p) q →
    ∃ vs, tyList vs = ts ∧ Denotes o m p q vs
  one : ∀ {r : TypeReader} {t : Ty} {ts : List Ty} {d p q : ℕ}, TypesLeft r (t :: ts) d →
    Readable m p e → Ends (·.regular = true) (traceHelper o m e n r false p) q →
    ∃ v, v.ty = t ∧ Denotes o m p q [v]

section
variable (ih : Decodes o m e n) {d : ℕ} {ts : List Ty}
include ih

theorem Decodes.loop {sub : TypeReader} {el : Ty} {k arrayEnd : ℕ} (hsb : TypesLeft sub [el] d)
    (hm : Readable m p e) (h : Ends (·.regular = true)
      (traceLoop (traceHelper o m e n sub false) arrayEnd k p) q) :
    ∃ vs, (∀ t ∈ tyList vs, t = el) ∧ Denotes o m p q vs := by
  induction k generalizing p with
  | zero => exact absurd (ends_lift.1 h) nofun
  | succ k ihk =>
    rw [ends_traceLoop_succ] at h
    split at h
    · obtain ⟨p', h1, h2⟩ := h
      obtain ⟨v, hv, hd⟩ := ih.one hsb hm h1
      obtain ⟨vs, ht, hvs⟩ := ihk (hm.mono hd.le) h2
      exact ⟨v :: vs, forall_mem_cons.2 ⟨hv, ht⟩, hd.cons hvs⟩
    · subst h
      exact ⟨[], by simp, .nil⟩

theorem Decodes.array {el : Ty} (hl : TypesLeft r (.array el :: ts) d) (hm : Readable m p e)
    (h : Ends (·.regular = true) (traceArray o m e (traceHelper o m e n) n r p) q) :
    ∃ v, v.ty = .array el ∧ Denotes o m p q [v] := by
  obtain ⟨t, len, a, hs, hrg, rfl, hel⟩ := ends_traceArray.1 h
  obtain ⟨ht, -, -, hmx, hw, hle, al, hal, rfl, hp⟩ := arrayStart_eq_ok.1 hs
  obtain ⟨sub, hrc, hsb, -⟩ := hl.recurse_array
  obtain rfl : el.code = t := by
    rw [hl.getElementType] at ht
    exact Except.ok.inj ht
  obtain rfl : el.alignment = al := by
    rw [Ty.getAlignment_code] at hal
    exact Except.ok.inj hal
  have hm' : Readable m (alignUp (alignUp p 4 + 4) el.alignment) e := by
    refine hm.mono (le_trans ?_ (le_alignUp el.alignment_pos))
    exact le_trans (le_alignUp (by decide)) (Nat.le_add_right ..)
  obtain ⟨vs, hvs, hd⟩ : ∃ vs, (∀ t ∈ tyList vs, t = el) ∧
      Denotes o m (alignUp (alignUp p 4 + 4) el.alignment)
        (alignUp (alignUp p 4 + 4) el.alignment + len) vs := by
    rcases Nat.eq_zero_or_pos len with rfl | hps
    · exact ⟨[], by simp, .nil⟩
    · have hel := (ends_traceElements ht hrc).1 (hel hps)
      cases hfx : el.code.fixed? with
      | none =>
        rw [hfx] at hel
        exact ih.loop hsb hm' hel
      | some f =>
        obtain rfl := Ty.eq_fixed_of_code hfx
        by_cases hb : f = .boolean
        · subst hb
          exact denotes_booleans ((out_traceBooleans ..).symm.trans hel.1)
        · obtain ⟨k, rfl⟩ := Part.regular_array.1 hrg f rfl
          rw [Nat.mul_comm] at hle ⊢
          exact denotes_block hb dvd_alignUp hm' hle
  exact ⟨.array el vs, rfl, Denotes.array hvs hw hmx hp hd⟩

theorem Decodes.variant (hm : Readable m p e)
    (h : Ends (·.regular = true) (traceVariant m e (traceHelper o m e n) p) q) :
    ∃ v, v.ty = .variant ∧ Denotes o m p q [v] := by
  obtain ⟨sig, a, hs, hrg, hvl, sub, hnx, -⟩ := ends_traceVariant.1 h
  obtain ⟨u, us, hl, hf, hv, hsg, rfl, hp⟩ := variantStart_types hm hs hrg
  obtain rfl : us = [] := by
    obtain ⟨r', hn, -⟩ := hl.next
    rw [hnx, Except.ok.injEq, Prod.mk.injEq] at hn
    simpa using hn.1
  have hm' := hm.mono ((Nat.le_add_right p _).trans
    (le_alignUp (n := p + (sigBytes (Ty.sigList [u])).length) u.alignment_pos))
  obtain ⟨v, rfl, hd⟩ := ih.one hl hm' hvl
  have ho : Ty.sigList [v.ty] = v.ty.sig := by simp
  rw [ho] at hsg hp hd hv
  refine ⟨.variant v, rfl, Denotes.variant ⟨?_, hv⟩ hsg hp hd⟩
  simpa [Ty.formedList] using hf

theorem Decodes.struct {k : StructKind} {fs : List Ty}
    (hl : TypesLeft r (.struct k fs :: ts) d) (hm : Readable m p e)
    (h : Ends (·.regular = true) (traceStruct m e (traceHelper o m e n) r p) q) :
    ∃ v, v.ty = .struct k fs ∧ Denotes o m p q [v] := by
  obtain ⟨sub, a, hs, hal⟩ := ends_traceStruct.1 h
  obtain ⟨hrc, rfl, -, hp⟩ := structStart_eq_ok.1 hs
  obtain ⟨sub', hrc', hsb, -⟩ := hl.recurse_struct
  obtain rfl : sub' = sub := Except.ok.inj (hrc'.symm.trans hrc)
  obtain ⟨vs, rfl, hd⟩ := ih.all hsb (hm.mono (le_alignUp (by decide))) hal
  exact ⟨.struct k vs, rfl, hd.struct hp⟩

theorem Decodes.value {t : Ty} (hl : TypesLeft r (t :: ts) d) (hm : Readable m p e)
    (he : e ≤ stringMaxMaxLength)
    (h : Ends (·.regular = true) (traceValue o m e (traceHelper o m e n) n r p t.code) q)
    (hq : q ≤ e) : ∃ v, v.ty = t ∧ Denotes o m p q [v] := by
  match t with
  | .basic (.fixed f) => exact denotes_fixed hm ((out_traceFixed f p).symm.trans h.1) hq
  | .basic (.str .string) | .basic (.str .objectPath) => exact denotes_string nofun hm he h.1
  | .basic (.str .signature) => exact denotes_signature hm h.1
  | .variant => exact ih.variant hm h
  | .array el => exact ih.array hl hm h
  | .struct k fs => exact ih.struct hl hm h

end

theorem decodes (he : e ≤ stringMaxMaxLength) (n : ℕ) : Decodes o m e n := by
  induction n with
  | zero => exact ⟨fun _ _ h => absurd h not_ends_traceHelper_zero,
      fun _ _ h => absurd h not_ends_traceHelper_zero⟩
  | succ n ih =>
    -- both kinds of calls validate the value at the reader first
    have hst : ∀ {r : TypeReader} {t : Ty} {ts : List Ty} {d p q : ℕ} {walk : Bool},
        TypesLeft r (t :: ts) d → Readable m p e →
        Ends (·.regular = true) (traceHelper o m e (n + 1) r walk p) q →
        ∃ v p', v.ty = t ∧ Denotes o m p p' [v] ∧
          if walk then ∃ more r', r.next = .ok (more, r') ∧
            Ends (·.regular = true) (traceHelper o m e n r' walk p') q
          else q = p' := by
      intro r t ts d p q walk hl hm h
      obtain ⟨c, hc, h⟩ := ends_traceHelper_succ.1 h
      obtain rfl : t.code = c := by
        rw [hl.getCurrentType_cons] at hc
        exact Except.ok.inj hc
      rw [if_neg t.code_ne_invalid] at h
      obtain ⟨-, p', hvl, hle, hrs⟩ := h
      obtain ⟨v, hv, hd⟩ := ih.value hl hm he hvl hle
      exact ⟨v, p', hv, hd, hrs⟩
    refine ⟨fun {r ts d p q} hl hm h => ?_, fun {r t ts d p q} hl hm h => ?_⟩
    · cases ts with
      | nil =>
        obtain ⟨c, hc, h⟩ := ends_traceHelper_succ.1 h
        rw [hl.getCurrentType_nil, Except.ok.injEq] at hc
        rw [if_pos hc.symm] at h
        exact ⟨[], rfl, h ▸ .nil⟩
      | cons t ts =>
        obtain ⟨v, p', rfl, hd, more, r', hnx, hrs⟩ := hst hl hm h
        obtain ⟨r'', hnx', hl', -⟩ := hl.next
        rw [hnx, Except.ok.injEq, Prod.mk.injEq] at hnx'
        obtain ⟨vs, rfl, hds⟩ := ih.all (hnx'.2 ▸ hl') (hm.mono hd.le) hrs
        exact ⟨v :: vs, rfl, hd.cons hds⟩
    · obtain ⟨v, p', hv, hd, rfl⟩ := hst hl hm h
      exact ⟨v, hv, hd⟩

end

/-- **Accepted bodies are encodings.**  A regular body that is accepted for the
    types `ts` is the encoding of values of these types. -/
theorem BodyAccepted.exists_values {o : ByteOrder} {ts : List Ty} {body : List UInt8}
    (h : BodyAccepted o (Ty.sigList ts) body) (hf : Ty.formedList true ts = true)
    (hrg : ∀ part ∈ bodyParts o (Ty.sigList ts) body, part.regular = true) :
    ∃ vs, tyList vs = ts ∧ WFList vs ∧ fitsList o 0 vs ∧ normaliseList vs = vs ∧
      body = encodeList o 0 vs := by
  have hm : Readable (DBusString.ofBytes body).str 0 body.length :=
    fun i _ hi => by rw [ofBytes_str_of_lt hi]; rfl
  obtain ⟨vs, hvs, hd⟩ := (decodes h.1 _).all (.init hf) hm (ends_bodyTrace h hrg)
  refine ⟨vs, hvs, hd.wf, hd.fits, hd.normal, ?_⟩
  have hb := (holds_append.1 (holds_ofBytes body)).1
  exact hb.unique hd.holds (by have := hd.end_eq; omega)

/-- The types `aiv`. -/
def bodyTypes : List Ty := [.array (.basic (.fixed .int32)), .variant]

/-- The integers 1 and 2 in an array, and a variant that holds a boolean. -/
def sampleBody : List UInt8 := [8, 0, 0, 0, 1, 0, 0, 0, 2, 0, 0, 0, 1, 98, 0, 0, 1, 0, 0, 0]

theorem bodyTypes_grammatical : Grammatical bodyTypes := by constructor <;> decide

theorem sampleBody_accepted : BodyAccepted .little (Ty.sigList bodyTypes) sampleBody := by
  decide +kernel

theorem sampleBody_regular :
    ∀ part ∈ bodyParts .little (Ty.sigList bodyTypes) sampleBody, part.regular = true := by
  decide +kernel

end DBus
