/-
  Reading value trees back.

  `readAll` is a client of `DBusTypeReader`, which may read an array of fixed-size elements
  with `readFixedMulti`.  On an encoding it returns the values that were encoded, with their
  booleans normalised, and ends where the encoding ends (`readAll_eq`).
-/
import DBus.Reader.Next
import DBus.Writer.Values

namespace DBus

open Outcome Memory Align Endian Value List

/-! ## The client -/

def cString (m : ℕ → Option UInt8) : ℕ → ℕ → Res (List UInt8)
  | 0, _ => .error .fuel
  | n + 1, p => do
    let c ← derefAt m p
    if c = 0 then return []
    else do
      let cs ← cString m n (p + 1)
      return c :: cs

def readBasicValue (r : TypeReader) (b : BasicType) : Res Value := do
  let value ← r.readBasic
  match b, value with
  | .fixed f, .num n => return .fixed f n
  | .str s, .str p => do
    let bs ← cString r.valueStr.str (r.valueStr.len + 1) p
    return .str s bs
  | _, _ => .error .assertion

/-- The numbers in a block of `n` fixed-size values. -/
def readBlock (o : ByteOrder) (m : ℕ → Option UInt8) (f : FixedType) : ℕ → ℕ → Res (List Value)
  | 0, _ => return []
  | n + 1, p => do
    let bs ← valueOr .outside (readN m p f.size)
    let vs ← readBlock o m f n (p + f.size)
    return .fixed f (fromBytes o bs) :: vs

/-- Read the rest of an array of fixed-size elements as one block. -/
def readFixedElements (r : TypeReader) (f : FixedType) : Res (List Value) := do
  let (value, n) ← r.readFixedMulti
  match value with
  | some p => readBlock r.byteOrder r.valueStr.str f n p
  | none => return []

def readElementType (r : TypeReader) : Res Ty := do
  let sub ← (TypeReader.initTypesOnly r.typeStr r.typePos).recurse
  let (e, _) ← walkType (2 * (r.typeStr.len + 1)) sub
  return e

section
variable (multi : Bool)

mutual
/-- Read the value at the reader; `multi` says whether arrays of fixed-size
    elements are read as blocks. -/
def readOne : ℕ → TypeReader → Res Value
  | 0, _ => .error .fuel
  | n + 1, r => do
    let t ← r.getCurrentType
    match t with
    | .basic b => readBasicValue r b
    | .variant => do
      let sub ← r.recurse
      let v ← readOne n sub
      return .variant v
    | .array => do
      let e ← readElementType r
      let sub ← r.recurse
      match multi, e with
      | true, .basic (.fixed f) => do
        let vs ← readFixedElements sub f
        return .array e vs
      | _, _ => do
        let (vs, _) ← readAll n sub
        return .array e vs
    | .struct k => do
      let sub ← r.recurse
      let (vs, _) ← readAll n sub
      return .struct k vs
    | _ => .error .assertion
/-- Read all values left on the reader's level, and move the reader to its end. -/
def readAll : ℕ → TypeReader → Res (List Value × TypeReader)
  | 0, _ => .error .fuel
  | n + 1, r => do
    let t ← r.getCurrentType
    if t = .invalid then return ([], r)
    else do
      let v ← readOne n r
      let (_, r) ← r.next
      let (vs, r) ← readAll n r
      return (v :: vs, r)
end

/-- Read a body, with one step for each byte of the signature and the values: the
    values, and the value position where the reader ends. -/
def readBody (o : ByteOrder) (sig body : List UInt8) : Res (List Value × ℕ) := do
  let (vs, r) ← readAll multi (sig.length + body.length + 1)
    (.init o (.ofBytes sig) 0 (.ofBytes body) 0)
  return (vs, r.valuePos)

end

/-! ## Basic values and blocks -/

variable {bs : List UInt8} {m : ℕ → Option UInt8} {f : FixedType} {r : TypeReader} {o : ByteOrder}
  {vs : List Value}

theorem cString_eq (h0 : 0 ∉ bs) {n p : ℕ} (hn : bs.length < n) (h : Holds m p (bs ++ [0])) :
    cString m n p = .ok bs := by
  induction bs generalizing n p with
  | nil =>
    obtain _ | n := n
    · omega
    simp [cString, derefAt_eq_ok.2 (holds_cons.1 h).1, ok_bind]
  | cons c bs ih =>
    obtain _ | n := n
    · omega
    rw [cons_append, holds_cons] at h
    rw [mem_cons, not_or] at h0
    simp [cString, derefAt_eq_ok.2 h.1, ok_bind, if_neg (Ne.symm h0.1),
      ih h0.2 (by simpa using hn) h.2]

theorem readBasicValue_fixed {n : ℕ} (h : AtValue r (.fixed f n)) :
    readBasicValue r (.fixed f) = .ok (.fixed f (f.word n)) := by
  simp [readBasicValue, h.readBasic_fixed]

theorem readBasicValue_str {s : StringType} (h : AtValue r (.str s bs)) :
    readBasicValue r (.str s) = .ok (.str s bs) := by
  obtain ⟨hrd, htext⟩ := h.readBasic_str
  have hlen : bs.length < r.valueStr.len + 1 := by
    have hle := h.le
    by_cases hs : s = .signature
    · subst hs
      rw [encode_signature, length_sigBytes] at hle
      omega
    · rw [add_length_encode_string hs] at hle
      omega
  rw [readBasicValue, hrd]
  simp only [ok_bind, cString_eq h.wf.1.zero_notMem hlen htext, pure_eq_ok]

theorem readBlock_eq :
    ∀ (vs : List Value) {p : ℕ}, (∀ t ∈ tyList vs, t = .basic (.fixed f)) → WFList vs →
    f.size ∣ p → Holds m p (encodeList o p vs) →
    readBlock o m f vs.length p = .ok (normaliseList vs)
  | [], _, _, _, _, _ => rfl
  | v :: vs, p, ht, hwf, hd, h => by
    obtain ⟨n, rfl⟩ := eq_fixed (ht _ (mem_cons_self ..))
    rw [encodeList_cons, encode_fixed_of_dvd n hd, holds_append, length_toBytes] at h
    have hrs := readBlock_eq vs (fun t hm => ht t (mem_cons_of_mem _ hm)) hwf.2
      ((Nat.dvd_add_right hd).2 (Nat.dvd_refl _)) h.2
    simp only [length_cons, readBlock, readN_eq_some.2 ⟨length_toBytes .., h.1⟩, valueOr_some,
      ok_bind, hrs, pure_eq_ok, fromBytes_toBytes o (f.word_lt hwf.1)]
    rfl

section
variable (h : ValuesLeft r vs) (hk : r.klass = .array false) (ht : ∀ t ∈ tyList vs, t = .basic
  (.fixed f)) (hd : f.size ∣ r.valuePos) (htext : firstTypeInSignature r.typeStr r.typePos = .ok (.basic (.fixed f)))
include h hk ht hd htext

/-- **Reading a block of fixed-size elements** gives all elements left. -/
theorem ValuesLeft.readFixedMulti :
    r.readFixedMulti = .ok (if vs = [] then none else some r.valuePos, vs.length) ∧
      ValuesAt r vs := by
  cases h with
  | body hk' => rcases hk' with hk' | hk' <;> rw [hk] at hk' <;> cases hk'
  | fields hk' | fieldsEnd hk' => rw [hk] at hk'; cases hk'
  | @elements e _ len _ hf he hts _ hlen hst hend hv =>
    refine ⟨?_, hv⟩
    have hle := hv.le
    have hrm : r.startPos + len - r.valuePos = vs.length * f.size := by
      rw [hend, length_encodeList_fixed vs ht hd]
      omega
    rw [length_encodeList_fixed vs ht hd] at hend hle
    have hvl : r.fixedMultiValue (vs.length * f.size) =
        .ok (if vs = [] then none else some r.valuePos) := by
      have hsz := f.size_pos
      by_cases hnl : vs = []
      · rw [TypeReader.fixedMultiValue, if_pos (by simp [hnl]), if_pos hnl]
      · have hp : 0 < vs.length := length_pos_iff.2 hnl
        have : vs.length * f.size ≠ 0 := Nat.mul_ne_zero (by omega) (by omega)
        rw [TypeReader.fixedMultiValue, if_neg this, if_neg hnl, DBusString.getConstDataLen,
          assert_bind (by omega), assert_of (by omega)]
        rfl
    have hty : r.klass.typesOnly = false := by rw [hk]; rfl
    have hfx : (TypeCode.basic (.fixed f)).fixed?.isSome = true := rfl
    have hal : (TypeCode.basic (.fixed f)).getAlignment = .ok f.size := rfl
    rw [TypeReader.readFixedMulti, assert_bind hty, assert_bind hk, htext, ok_bind,
      assert_bind (by simp), assert_bind hfx, hal, ok_bind, assert_bind hst,
      hlen, ok_bind]
    simp only [hrm, hvl, ok_bind, Nat.mul_mod_left, Nat.mul_div_cancel _ f.size_pos, assert_true]
    rw [assert_bind (by omega), assert_bind (by omega)]
    rfl

theorem readFixedElements_eq : readFixedElements r f = .ok (normaliseList vs) := by
  obtain ⟨hrd, hv⟩ := h.readFixedMulti hk ht hd htext
  rw [readFixedElements, hrd, ok_bind]
  by_cases hnl : vs = []
  · rw [hnl]
    rfl
  · simp only [if_neg hnl]
    exact readBlock_eq vs ht hv.wf hd hv.holds

end

theorem readElementType_eq {e : Ty} {x : UInt8} {rest : List UInt8} (he : e.formed true true = true)
    (h : TextAt r.typeStr r.typePos ((Ty.array e).sig ++ x :: rest)) :
    readElementType r = .ok e := by
  have hrc := TypeReader.recurse_array (r := .initTypesOnly r.typeStr r.typePos) rfl h
  rw [Ty.sig, cons_append] at h
  have htl := h.tail
  have hl : TypesLeft ((TypeReader.initTypesOnly r.typeStr r.typePos).arrayTypesOnlyRecurse
      (.array true)) [e] _ := .element rfl rfl he htl rfl
  have hle := htl.le
  rw [length_append, length_cons] at hle
  rw [readElementType, hrc, ok_bind, walkType_eq e hl (by omega)]
  rfl

/-! ## Value trees -/

namespace Value

mutual
def steps : Value → ℕ
  | .fixed _ _ => 1
  | .str _ _ => 1
  | .variant v => v.steps + 1
  | .array _ vs => stepsList vs + 1
  | .struct _ vs => stepsList vs + 1
def stepsList : List Value → ℕ
  | [] => 1
  | v :: vs => max v.steps (stepsList vs) + 1
end

mutual
theorem steps_le {o : ByteOrder} : ∀ (v : Value) (p : ℕ) {inArray : Bool}, v.WF →
    v.ty.formed true inArray = true → v.steps ≤ v.ty.sig.length + (v.encode o p).length
  | .fixed f n, p, _, _, _ | .str s bs, p, _, _, _ => by simp [steps, ty, Ty.sig]
  | .variant v, p, _, hwf, _ => by
    have := steps_le (o := o) v (p + (sigBytes v.ty.sig).length) hwf.2 hwf.1.formed
    rw [encode_variant, length_append, length_sigBytes]
    simp only [steps, ty, Ty.sig, length_singleton]
    rw [length_sigBytes] at this
    omega
  | .array e vs, p, _, hwf, hf => by
    have := stepsElements_le (o := o) vs (alignUp (alignUp p 4 + 4) e.alignment) hwf.2 hwf.1 hf
    have hlen := add_length_encode_array (o := o) e vs p
    have := le_alignUp (n := alignUp p 4 + 4) e.alignment_pos
    have := le_alignUp (n := p) (show 0 < 4 by decide)
    simp only [steps, ty, Ty.sig, length_cons]
    omega
  | .struct k vs, p, _, hwf, hf => by
    have := stepsFields_le (o := o) vs (alignUp p 8) hwf (Ty.formed_fields hf).2
    have hlen := add_length_encode_struct (o := o) k vs p
    have := le_alignUp (n := p) (show 0 < 8 by decide)
    simp only [steps, ty, Ty.sig, length_cons, length_append, length_nil]
    omega
theorem stepsElements_le {o : ByteOrder} : ∀ (vs : List Value) (p : ℕ) {e : Ty}, WFList vs →
    (∀ t ∈ tyList vs, t = e) → e.formed true true = true →
    stepsList vs ≤ e.sig.length + (encodeList o p vs).length + 1
  | [], _, _, _, _, _ => by simp [stepsList]
  | v :: vs, p, e, hwf, ht, hf => by
    obtain rfl : v.ty = e := ht _ (mem_cons_self ..)
    have := steps_le (o := o) v p hwf.1 hf
    have := stepsElements_le (o := o) vs (p + (v.encode o p).length) hwf.2
      (fun t hm => ht t (mem_cons_of_mem _ hm)) hf
    have := encode_length_pos (o := o) p v hf
    rw [encodeList_cons, length_append, stepsList]
    omega
theorem stepsFields_le {o : ByteOrder} : ∀ (vs : List Value) (p : ℕ), WFList vs →
    Ty.formedList true (tyList vs) = true →
    stepsList vs ≤ (Ty.sigList (tyList vs)).length + (encodeList o p vs).length + 1
  | [], _, _, _ => by simp [stepsList]
  | v :: vs, p, hwf, hf => by
    rw [tyList_cons, Ty.formedList, Bool.and_eq_true] at hf
    have := steps_le (o := o) v p hwf.1 hf.1
    have := stepsFields_le (o := o) vs (p + (v.encode o p).length) hwf.2 hf.2
    have := v.ty.sig_length_pos
    rw [tyList_cons, Ty.sigList_cons, encodeList_cons, length_append, length_append, stepsList]
    omega
end

end Value

mutual
/-- **Reading a value back.** -/
theorem readOne_eq (multi : Bool) : ∀ (v : Value) {n : ℕ} {r : TypeReader}, AtValue r v →
    v.steps ≤ n → readOne multi n r = .ok v.normalise
  | v, 0, r, h, hn => by cases v <;> simp [steps] at hn
  | .fixed f k, n + 1, r, h, hn => by
    rw [readOne, h.current, ok_bind]
    exact readBasicValue_fixed h
  | .str s bs, n + 1, r, h, hn => by
    rw [readOne, h.current, ok_bind]
    exact readBasicValue_str h
  | .variant v, n + 1, r, h, hn => by
    obtain ⟨sub, hrc, hsb, -⟩ := h.recurse_variant
    have ho := readOne_eq multi v (n := n) hsb.atValue (by simp only [steps] at hn; omega)
    rw [readOne, h.current, ok_bind]
    simp only [ty, Ty.code, hrc, ok_bind, ho, normalise, pure_eq_ok]
  | .array e vs, n + 1, r, h, hn => by
    obtain ⟨sub, hrc, hsb, -, hk, -, -, hp, -, x, rest, htext⟩ := h.recurse_array
    obtain ⟨y, rest', hsg⟩ := h.text
    obtain ⟨inArray, hf⟩ := h.formed
    obtain ⟨r', hal, -⟩ := readAll_eq multi vs (n := n) hsb (by simp only [steps] at hn; omega)
    have hrd : (do
        let (vs, _) ← readAll multi n sub
        return .array e vs : Res Value) = .ok (Value.array e vs).normalise := by
      rw [hal]
      rfl
    rw [readOne, h.current, ok_bind]
    simp only [ty, Ty.code, readElementType_eq hf hsg, hrc, ok_bind]
    split
    · next f =>
      have hd : f.size ∣ sub.valuePos := by
        rw [hp]
        exact dvd_alignUp
      rw [readFixedElements_eq hsb hk h.wf.1 hd (firstTypeInSignature_sig htext)]
      rfl
    · exact hrd
  | .struct k vs, n + 1, r, h, hn => by
    obtain ⟨sub, hrc, hsb, -⟩ := h.recurse_struct
    obtain ⟨r', hal, -⟩ := readAll_eq multi vs (n := n) hsb (by simp only [steps] at hn; omega)
    rw [readOne, h.current, ok_bind]
    simp only [ty, Ty.code, hrc, ok_bind, hal, normalise, pure_eq_ok]
theorem readAll_eq (multi : Bool) : ∀ (vs : List Value) {n : ℕ} {r : TypeReader}, ValuesLeft r vs →
    stepsList vs ≤ n → ∃ r', readAll multi n r = .ok (normaliseList vs, r') ∧
      r'.valuePos = r.valuePos + (encodeList r.byteOrder r.valuePos vs).length
  | [], n, r, h, hn => by
    obtain ⟨n, rfl⟩ : ∃ j, n = j + 1 := ⟨n - 1, by simp only [stepsList] at hn; omega⟩
    refine ⟨r, ?_, rfl⟩
    rw [readAll, h.getCurrentType_nil, ok_bind, if_pos rfl]
    rfl
  | v :: vs, n, r, h, hn => by
    simp only [stepsList] at hn
    obtain _ | n := n
    · omega
    obtain ⟨r', hnx, hl, hm⟩ := h.next
    obtain ⟨r'', hal, hp⟩ := readAll_eq multi vs (n := n) hl (by omega)
    refine ⟨r'', ?_, ?_⟩
    · rw [readAll, h.atValue.current, ok_bind, if_neg v.ty.code_ne_invalid,
        readOne_eq multi v h.atValue (by omega), ok_bind, hnx, ok_bind]
      simp only [hal, ok_bind, normaliseList, pure_eq_ok]
    · rw [hp, hm.byteOrder, hm.valuePos, encodeList_cons, length_append, Nat.add_assoc]
end

/-! ## Bodies -/

theorem valuesLeft_init {p : ℕ} {body : DBusString} (hf : Ty.formedList true (tyList vs) = true)
    (hwf : WFList vs) (hh : Holds body.str p (encodeList o p vs))
    (hle : p + (encodeList o p vs).length ≤ body.len) (hs : body.len ≤ stringMaxMaxLength) :
    ValuesLeft (.init o (.ofBytes (Ty.sigList (tyList vs))) 0 body p) vs :=
  .body (.inl rfl) rfl hf (textAt_ofBytes _) ⟨hwf, hh, hle, hs⟩

theorem readBody_encode (multi : Bool) (hf : Ty.formedList true (tyList vs) = true)
    (hwf : WFList vs) (hs : (encodeList o 0 vs).length ≤ stringMaxMaxLength) :
    readBody multi o (Ty.sigList (tyList vs)) (encodeList o 0 vs) =
      .ok (normaliseList vs, (encodeList o 0 vs).length) := by
  have hh := (holds_append.1 (holds_ofBytes (encodeList o 0 vs))).1
  obtain ⟨r, hrd, hp⟩ := readAll_eq multi vs
    (valuesLeft_init hf hwf hh (Nat.le_of_eq (Nat.zero_add _)) hs) (stepsFields_le (o := o) vs 0 hwf hf)
  rw [readBody, hrd, ok_bind]
  simp only [hp, pure_eq_ok]
  exact congrArg (fun n => Except.ok (normaliseList vs, n)) (Nat.zero_add _)

/-- **Write/read round trip.**  Value trees of a grammatical signature that were written into a body
    are read back as they were, with the booleans normalised, and the reader ends at the last byte;
    arrays of fixed-size elements may be read element by element or as blocks. -/
theorem written_readBack {o : ByteOrder} {vs : List Value} {b : Buffers}
    (hg : Grammatical (tyList vs)) (hwf : WFList vs) (hrun : WritesBody o vs (.ok b))
    (multi : Bool) :
    readBody multi o b.types b.values = .ok (normaliseList vs, b.values.length) := by
  obtain ⟨hty, hvl, hm⟩ := (writesBody_sat hrun hwf hg.length_le_max).of_ok rfl
  rw [hty, hvl]
  exact readBody_encode multi (Ty.formedList_mono _ hg.formed) hwf (hvl ▸ hm)

theorem sampleValues_readBack :
    ∃ b, writeBody .big sampleValues = .ok b ∧
      readBody true .big b.types b.values = .ok (normaliseList sampleValues, b.values.length) := by
  have hm : writeBody .big sampleValues ≠ .error .noMemory := by decide +kernel
  obtain ⟨b, hb, -⟩ := exists_of_sat
    (writeBody_sat sampleValues_wf sampleValues_grammatical.length_le_max) hm
  exact ⟨b, hb, written_readBack sampleValues_grammatical sampleValues_wf (hb ▸ .write sampleValues)
    true⟩

end DBus
