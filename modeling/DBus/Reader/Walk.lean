/-
  Any walk over a validated body.

  `Walk` are the readers a client can obtain from the reader of a body by `recurse` and
  `next`, in any order.  A regular body that was accepted is an encoding, and `ValuesLeft`
  holds of every reader that can be reached, over a memory in which nothing but the body can
  be read.

  `Visit` follows a walk in the value trees: skipping a value and walking into it end at the
  same position (`visited_skipsAsWalked`).
-/
import DBus.Body.Decode
import DBus.Reader.ReadBack

namespace DBus

open Outcome Memory Align Endian Value List

/-- The type of the elements of the array at the reader, if they have a fixed size. -/
def TypeReader.blockType (r : TypeReader) : Option FixedType :=
  match r.getElementType with
  | .ok t => t.fixed?
  | .error _ => none

/-- The readers a client can obtain from `r₀`.  The first index is `some f` for a
    reader inside an array of elements of the fixed-size type `f`, until `next`
    has moved it behind the last one: there the client may read a block. -/
inductive Walk (r₀ : TypeReader) : Option FixedType → TypeReader → Prop
  | start : Walk r₀ none r₀
  | recurse {block : Option FixedType} {r sub : TypeReader} {t : TypeCode} (h : Walk r₀ block r)
    (ht : r.getCurrentType = .ok t) (hc : t.isContainer = true) (hs : r.recurse = .ok sub) :
    Walk r₀ r.blockType sub
  | next {block : Option FixedType} {r r' : TypeReader} {more : Bool} (h : Walk r₀ block r)
    (hn : r.next = .ok (more, r')) : Walk r₀ (if more then block else none) r'

/-- What a client may call at a reader it has obtained succeeds. -/
structure CallsSucceed (block : Option FixedType) (r : TypeReader) : Prop where
  current : ∃ t, r.getCurrentType = .ok t
  readBasic : ∀ b, r.getCurrentType = .ok (.basic b) → ∃ v, readBasicValue r b = .ok v
  recurse : ∀ t, r.getCurrentType = .ok t → t.isContainer = true → ∃ sub, r.recurse = .ok sub
  next : ∃ out, r.next = .ok out
  readFixedMulti : ∀ f, block = some f → ∃ vs, readFixedElements r f = .ok vs

/-- A number of calls of `next`. -/
def nexts : ℕ → TypeReader → Res TypeReader
  | 0, r => return r
  | n + 1, r => do
    let (_, r) ← r.next
    nexts n r

/-- The reader of a body behind which nothing can be read. -/
def bodyReader (o : ByteOrder) (sig body : List UInt8) : TypeReader :=
  .init o (.ofBytes sig) 0 (.ofBody body) 0

/-- Any walk over the body succeeds, and the top level ends where the body does. -/
structure WalksSafely (o : ByteOrder) (sig body : List UInt8) : Prop where
  calls : ∀ block r, Walk (bodyReader o sig body) block r → CallsSucceed block r
  ends : ∃ n r, nexts n (bodyReader o sig body) = .ok r ∧ r.getCurrentType = .ok .invalid
  end_eq : ∀ n r, nexts n (bodyReader o sig body) = .ok r → r.getCurrentType = .ok .invalid →
    r.valuePos = body.length

/-- The values in a container. -/
def Value.children : Value → List Value
  | .variant v => [v]
  | .array _ vs | .struct _ vs => vs
  | _ => []

/-- The readers a client can obtain from `r₀`, which has the values `vs₀` before
    it, each with the values before it on its level. -/
inductive Visit (r₀ : TypeReader) (vs₀ : List Value) : TypeReader → List Value → Prop
  | start : Visit r₀ vs₀ r₀ vs₀
  | recurse {r sub : TypeReader} {v : Value} {vs : List Value} (h : Visit r₀ vs₀ r (v :: vs))
    (hc : v.ty.code.isContainer = true) (hs : r.recurse = .ok sub) : Visit r₀ vs₀ sub v.children
  | next {r r' : TypeReader} {v : Value} {vs : List Value} {more : Bool}
    (h : Visit r₀ vs₀ r (v :: vs)) (hn : r.next = .ok (more, r')) : Visit r₀ vs₀ r' vs

/-- The reader is at the encoding of `v`, and moving over it ends where the encoding does: by the
    skipping functions, by `next`, and by walking into it and to the end of what is in it. -/
structure SkipsAsWalked (r : TypeReader) (v : Value) : Prop where
  current : r.getCurrentType = .ok v.ty.code
  encoded : Holds r.valueStr.str r.valuePos (v.encode r.byteOrder r.valuePos)
  skipBasic : v.ty.code.isBasic = true →
    marshalSkipBasic r.valueStr v.ty.code r.byteOrder r.valuePos = .ok (r.behindValue v).valuePos
  skipArray : ∀ e, v.ty = .array e →
    marshalSkipArray r.valueStr e.code r.byteOrder r.valuePos = .ok (r.behindValue v).valuePos
  next : ∃ more r', r.next = .ok (more, r') ∧ r'.valuePos = (r.behindValue v).valuePos
  walk : v.ty.code.isContainer = true → ∃ sub, r.recurse = .ok sub ∧
    ∀ n, v.children.length ≤ n → ∃ sub', nexts n sub = .ok sub' ∧
      sub'.getCurrentType = .ok .invalid ∧ sub'.valuePos = (r.behindValue v).valuePos

/-! ## One call -/

/-- The rest of an array of elements of type `f` is before the reader. -/
structure BlockLeft (f : FixedType) (r : TypeReader) (vs : List Value) : Prop where
  klass : r.klass = .array false
  types : ∀ t ∈ tyList vs, t = .basic (.fixed f)
  dvd : f.size ∣ r.valuePos
  text : firstTypeInSignature r.typeStr r.typePos = .ok (.basic (.fixed f))

def WalkLeft (block : Option FixedType) (r : TypeReader) : Prop :=
  ∃ vs, ValuesLeft r vs ∧ ∀ f, block = some f → BlockLeft f r vs

section
variable {r : TypeReader} {v : Value} {vs : List Value} {block : Option FixedType}

theorem AtValue.recurse (h : AtValue r v) (hc : v.ty.code.isContainer = true) :
    ∃ sub, r.recurse = .ok sub ∧ ValuesLeft sub v.children ∧
      (∀ f, r.blockType = some f → BlockLeft f sub v.children) ∧
      sub.valuePos + (encodeList sub.byteOrder sub.valuePos v.children).length =
        (r.behindValue v).valuePos := by
  have hb : v.ty.code ≠ .array → r.blockType = none := fun hne => by
    simp [TypeReader.blockType, TypeReader.getElementType, h.current, ok_bind, assert, ensure_not hne]
  cases v with
  | fixed f n => cases hc
  | str s bs => cases hc
  | variant v =>
    obtain ⟨sub, hrc, hsb, hsm, -, -, hp⟩ := h.recurse_variant
    refine ⟨sub, hrc, hsb, by rw [hb (by rintro ⟨⟩)]; rintro _ ⟨⟩, ?_⟩
    rw [children, encodeList_cons, encodeList_nil, append_nil, hsm.byteOrder, hp]
    exact (add_length_encode_variant ..).symm
  | struct k vs =>
    obtain ⟨sub, hrc, hsb, hsm, -, -, -, hp⟩ := h.recurse_struct
    refine ⟨sub, hrc, hsb, by rw [hb (by rintro ⟨⟩)]; rintro _ ⟨⟩, ?_⟩
    rw [hsm.byteOrder, hp]
    exact (add_length_encode_struct ..).symm
  | array el vs =>
    obtain ⟨sub, hrc, hsb, hsm, hk, hst, hp, hvl, -, x, rest, htx⟩ := h.recurse_array
    have hfr := firstTypeInSignature_sig htx
    have har : (Value.array el vs).ty.code = .array := rfl
    refine ⟨sub, hrc, hsb, fun f hf => ?_, ?_⟩
    · rw [TypeReader.blockType, TypeReader.getElementType, h.current, ok_bind, assert_bind har,
        ← hst, ← hp, hfr] at hf
      obtain rfl := Ty.eq_fixed_of_code hf
      exact ⟨hk, h.wf.1, hvl ▸ dvd_alignUp, hfr⟩
    · rw [hsm.byteOrder, hvl]
      exact (add_length_encode_array ..).symm

theorem BlockLeft.next {f : FixedType} {r' : TypeReader} (h : BlockLeft f r (v :: vs))
    (hne : vs ≠ []) (hl : ValuesLeft r' vs)
    (hm : Moved r r' (r.valuePos + (v.encode r.byteOrder r.valuePos).length)) :
    BlockLeft f r' vs := by
  obtain ⟨n, rfl⟩ := eq_fixed (h.types _ (mem_cons_self ..))
  have hty : ∀ t ∈ tyList vs, t = .basic (.fixed f) := fun t ht => h.types t (mem_cons_of_mem _ ht)
  refine ⟨hm.klass.trans h.klass, hty, ?_, ?_⟩
  · rw [hm.valuePos, encode_fixed_of_dvd n h.dvd, length_toBytes]
    exact Nat.dvd_add_self_right.2 h.dvd
  · obtain ⟨w, ws, rfl⟩ := exists_cons_of_ne_nil hne
    rw [hl.atValue.firstType, hty _ (mem_cons_self ..)]
    rfl

theorem WalkLeft.next (h : WalkLeft block r) :
    ∃ more r', r.next = .ok (more, r') ∧ WalkLeft (if more then block else none) r' := by
  obtain ⟨vs, hl, hb⟩ := h
  cases vs with
  | nil => exact ⟨false, r, hl.next_nil, [], hl, nofun⟩
  | cons v vs =>
    obtain ⟨r', hnx, hl', hm⟩ := hl.next
    refine ⟨_, r', hnx, vs, hl', fun f hf => ?_⟩
    cases vs with
    | nil => cases hf
    | cons w ws => exact (hb f hf).next (cons_ne_nil _ _) hl' hm

theorem WalkLeft.recurse {t : TypeCode} (h : WalkLeft block r) (ht : r.getCurrentType = .ok t)
    (hc : t.isContainer = true) : ∃ sub, r.recurse = .ok sub ∧ WalkLeft r.blockType sub := by
  obtain ⟨vs, hl, -⟩ := h
  cases vs with
  | nil =>
    rw [hl.getCurrentType_nil, Except.ok.injEq] at ht
    subst ht
    cases hc
  | cons v vs =>
    rw [hl.atValue.current, Except.ok.injEq] at ht
    obtain ⟨sub, hrc, hsb, hb, -⟩ := hl.atValue.recurse (ht ▸ hc)
    exact ⟨sub, hrc, _, hsb, hb⟩

theorem WalkLeft.readBasic {b : BasicType} (h : WalkLeft block r)
    (hb : r.getCurrentType = .ok (.basic b)) : ∃ v, readBasicValue r b = .ok v := by
  obtain ⟨vs, hl, -⟩ := h
  cases vs with
  | nil => rw [hl.getCurrentType_nil] at hb; cases hb
  | cons v vs =>
    have hat := hl.atValue
    rw [hat.current, Except.ok.injEq] at hb
    cases v with
    | fixed f n => cases hb; exact ⟨_, readBasicValue_fixed hat⟩
    | str s bs => cases hb; exact ⟨_, readBasicValue_str hat⟩
    | variant v | array el vs | struct k vs => cases hb

theorem WalkLeft.callsSucceed (h : WalkLeft block r) : CallsSucceed block r := by
  refine ⟨?_, fun b hb => h.readBasic hb, fun t ht hc => ?_, ?_, fun f hf => ?_⟩
  · obtain ⟨vs, hl, -⟩ := h
    cases vs with
    | nil => exact ⟨_, hl.getCurrentType_nil⟩
    | cons v vs => exact ⟨_, hl.atValue.current⟩
  · obtain ⟨sub, hsb, -⟩ := h.recurse ht hc
    exact ⟨sub, hsb⟩
  · obtain ⟨more, r', hnx, -⟩ := h.next
    exact ⟨_, hnx⟩
  · obtain ⟨vs, hl, hbl⟩ := h
    obtain ⟨hk, ht, hd, htx⟩ := hbl f hf
    exact ⟨_, readFixedElements_eq hl hk ht hd htx⟩

/-! ## Whole walks -/

theorem Walk.left {r0 : TypeReader} (h0 : WalkLeft none r0) (h : Walk r0 block r) :
    WalkLeft block r := by
  induction h with
  | start => exact h0
  | recurse _ ht hc hs ih =>
    obtain ⟨sub, hsb, hl⟩ := ih.recurse ht hc
    obtain rfl := Except.ok.inj (hs.symm.trans hsb)
    exact hl
  | next _ hn ih =>
    obtain ⟨more, r', hn', hl⟩ := ih.next
    rw [hn, Except.ok.injEq, Prod.mk.injEq] at hn'
    obtain ⟨rfl, rfl⟩ := hn'
    exact hl

theorem nexts_left (n : ℕ) (h : ValuesLeft r vs) :
    ∃ r', nexts n r = .ok r' ∧ ValuesLeft r' (vs.drop n) ∧ r'.byteOrder = r.byteOrder ∧
      r'.valuePos + (encodeList r.byteOrder r'.valuePos (vs.drop n)).length =
        r.valuePos + (encodeList r.byteOrder r.valuePos vs).length := by
  induction n generalizing r vs with
  | zero => exact ⟨r, rfl, h, rfl, rfl⟩
  | succ n ih =>
    cases vs with
    | nil =>
      obtain ⟨r', hr', hl, ho, hp⟩ := ih h
      refine ⟨r', ?_, by simpa using hl, ho, by simpa using hp⟩
      rw [nexts, h.next_nil]
      exact hr'
    | cons v vs =>
      obtain ⟨r1, hnx, hl1, hm⟩ := h.next
      obtain ⟨r', hr', hl, ho, hp⟩ := ih hl1
      refine ⟨r', ?_, hl, ho.trans hm.byteOrder, ?_⟩
      · rw [nexts, hnx]
        exact hr'
      · rw [drop_succ_cons, ← hm.byteOrder, hp, hm.byteOrder, hm.valuePos,
          encodeList_cons, length_append, Nat.add_assoc]

theorem Visit.left {r0 : TypeReader} {vs0 : List Value} (h0 : ValuesLeft r0 vs0)
    (h : Visit r0 vs0 r vs) : ValuesLeft r vs := by
  induction h with
  | start => exact h0
  | recurse _ hc hs ih =>
    obtain ⟨sub, hsb, hl, -⟩ := ih.atValue.recurse hc
    obtain rfl := Except.ok.inj (hs.symm.trans hsb)
    exact hl
  | next _ hn ih =>
    obtain ⟨r', hn', hl, -⟩ := ih.next
    rw [hn, Except.ok.injEq, Prod.mk.injEq] at hn'
    obtain ⟨-, rfl⟩ := hn'
    exact hl

theorem ValuesLeft.skipsAsWalked (h : ValuesLeft r (v :: vs)) : SkipsAsWalked r v := by
  have hat := h.atValue
  refine ⟨hat.current, hat.holds, fun hb => ?_, fun e he => ?_, ?_, fun hc => ?_⟩
  · cases v with
    | fixed f n => exact marshalSkipBasic_fixed
    | str s bs => exact marshalSkipBasic_str hat.wf.1 hat.length_lt hat.holds hat.le
    | variant v | array el vs | struct k vs => cases hb
  · cases v with
    | array el vs =>
      cases he
      exact marshalSkipArray_eq hat.small hat.holds hat.le
    | fixed f n | str s bs | variant v | struct k vs => cases he
  · obtain ⟨r', hnx, -, hm⟩ := h.next
    exact ⟨_, r', hnx, hm.valuePos⟩
  · obtain ⟨sub, hrc, hsb, -, hend⟩ := hat.recurse hc
    refine ⟨sub, hrc, fun n hn => ?_⟩
    obtain ⟨sub', hns, hl, -, hp⟩ := nexts_left n hsb
    rw [drop_of_length_le hn] at hl hp
    exact ⟨sub', hns, hl.getCurrentType_nil, hp.trans hend⟩

end

/-- **Validated bodies are safe to read.**  Any walk over a regular body that was accepted for a
    grammatical signature succeeds, looks at no byte outside the body, and ends at its end.  Bodies that are not
    regular may be safe as well: a type whose brackets cross does no harm where it is skipped. -/
theorem accepted_walksSafely {o : ByteOrder} {ts : List Ty} {body : List UInt8}
    (hg : Grammatical ts) (ha : BodyAccepted o (Ty.sigList ts) body)
    (hreg : ∀ part ∈ bodyParts o (Ty.sigList ts) body, part.regular = true) :
    WalksSafely o (Ty.sigList ts) body := by
  have hf := Ty.formedList_mono _ hg.formed
  obtain ⟨vs, rfl, hwf, -, -, rfl⟩ := ha.exists_values hf hreg
  have hl : ValuesLeft (bodyReader o (Ty.sigList (tyList vs)) (encodeList o 0 vs)) vs :=
    valuesLeft_init hf hwf holds_ofList (Nat.le_of_eq (Nat.zero_add _)) ha.1
  refine ⟨fun block r hr => (hr.left ⟨vs, hl, nofun⟩).callsSucceed, ?_, fun n r hr hcr => ?_⟩
  · obtain ⟨r, hr, hend, -⟩ := nexts_left vs.length hl
    rw [drop_length] at hend
    exact ⟨vs.length, r, hr, hend.getCurrentType_nil⟩
  · obtain ⟨r', hr', hend, ho, hp⟩ := nexts_left n hl
    obtain rfl := Except.ok.inj (hr.symm.trans hr')
    cases hdr : vs.drop n with
    | nil =>
      rw [hdr, encodeList_nil, length_nil, Nat.add_zero] at hp
      rw [hp]
      exact Nat.zero_add _
    | cons v ws =>
      rw [hdr] at hend
      rw [hend.atValue.current, Except.ok.injEq] at hcr
      exact absurd hcr v.ty.code_ne_invalid

theorem sampleBody_walksSafely :
    BodyAccepted .little (Ty.sigList bodyTypes) sampleBody ∧
      WalksSafely .little (Ty.sigList bodyTypes) sampleBody :=
  ⟨sampleBody_accepted,
    accepted_walksSafely bodyTypes_grammatical sampleBody_accepted sampleBody_regular⟩

/-- An array that claims five bytes of four-byte integers is accepted, but a client that moves from
    its first element to the next fails an assertion.  And in an array of one integer, a client that
    has moved behind it and asks for the rest as a block fails one. -/
theorem accepted_not_walksSafely :
    let ts : List Ty := [.array (.basic (.fixed .int32))]
    let ragged : List UInt8 := [5, 0, 0, 0, 1, 0, 0, 0, 2]
    let whole : List UInt8 := [4, 0, 0, 0, 1, 0, 0, 0]
    Grammatical ts ∧ BodyAccepted .little (Ty.sigList ts) ragged ∧
      ¬ WalksSafely .little (Ty.sigList ts) ragged ∧ BodyAccepted .little (Ty.sigList ts) whole ∧
      ∃ sub r, (bodyReader .little (Ty.sigList ts) whole).recurse = .ok sub ∧
        sub.next = .ok (false, r) ∧ r.readFixedMulti = .error .assertion := by
  refine ⟨by constructor <;> decide, by decide +kernel, fun h => ?_, by decide +kernel,
    _, _, rfl, rfl, rfl⟩
  have hfl : ∃ sub r, (bodyReader .little [97, 105] [5, 0, 0, 0, 1, 0, 0, 0, 2]).recurse = .ok sub ∧
      sub.next = .ok (true, r) ∧ r.next = .error .assertion := ⟨_, _, rfl, rfl, rfl⟩
  obtain ⟨sub, r, hsb, hr, hnx⟩ := hfl
  have hcr : (bodyReader .little [97, 105] [5, 0, 0, 0, 1, 0, 0, 0, 2]).getCurrentType =
      .ok .array := rfl
  obtain ⟨out, ho⟩ := (h.calls _ r ((Walk.start.recurse hcr rfl hsb).next hr)).next
  simp [hnx] at ho

/-- **Skipping agrees with walking** at every value of trees of a grammatical signature
    that are encoded anywhere in a block. -/
theorem visited_skipsAsWalked {o : ByteOrder} {p : ℕ} {block : DBusString} {vs ws : List Value}
    {r : TypeReader} {v : Value} (hg : Grammatical (tyList vs)) (hwf : WFList vs)
    (hs : block.len ≤ stringMaxMaxLength) (hh : Holds block.str p (encodeList o p vs))
    (hle : p + (encodeList o p vs).length ≤ block.len)
    (h : Visit (.init o (.ofBytes (Ty.sigList (tyList vs))) 0 block p) vs r (v :: ws)) :
    SkipsAsWalked r v :=
  (h.left (valuesLeft_init (Ty.formedList_mono _ hg.formed) hwf hh hle hs)).skipsAsWalked

theorem sampleValues_skipsAsWalked :
    ∃ r v ws, Visit (.init .big (.ofBytes (Ty.sigList (tyList sampleValues))) 0
        (.ofBytes (9 :: encodeList .big 1 sampleValues)) 1) sampleValues r (v :: ws) ∧
      v.ty.code = .struct .dictEntry ∧ SkipsAsWalked r v := by
  have hh := (holds_append.1 (holds_cons.1 (holds_ofBytes (9 :: encodeList .big 1 sampleValues))).2).1
  have hle := Nat.le_of_eq (Nat.add_comm 1 (encodeList .big 1 sampleValues).length)
  have hs : (9 :: encodeList .big 1 sampleValues).length ≤ stringMaxMaxLength := by decide +kernel
  have hg := sampleValues_grammatical
  have hl := valuesLeft_init (Ty.formedList_mono _ hg.formed) sampleValues_wf hh hle hs
  obtain ⟨sub, hsb, -⟩ := hl.atValue.recurse rfl
  have hv : Visit _ sampleValues sub [_] := .recurse .start (by rfl) hsb
  exact ⟨sub, _, _, hv, rfl, visited_skipsAsWalked hg sampleValues_wf hs hh hle hv⟩

end DBus
