/-
  The fields of a header.

  `rawField` reads one element of the fields array the way the body validator does.  Where
  the validator accepts the bytes of a header, its run over the fields array is a run of
  `rawFields` (`HeaderAccepted.fieldsAt`).
-/
import DBus.Body.Skip
import DBus.Body.Trace
import DBus.Body.Transfer
import DBus.Header.Defs

namespace DBus

open Outcome Memory Align Endian Value DBusString

/-- An element of the fields array: its code, the signature of its value, where the
    value starts and where it stops. -/
structure RawField where
  code : UInt8
  sig : List UInt8
  valuePos : ℕ
  stop : ℕ
deriving DecidableEq, Repr

section
variable (o : ByteOrder) (m : ℕ → Option UInt8) (e : ℕ)

/-- The field at the next boundary behind `p`. -/
def rawField (n p : ℕ) : Res RawField := do
  let a := alignUp p 8
  let code ← derefAt m a
  let (sig, valuePos) ← variantStart m e (a + 1)
  let stop ← validateBodyHelper o m e n (.initTypesOnly sig 0) false valuePos
  return ⟨code, sig.bytes, valuePos, stop⟩

/-- The fields from `p` to `arrayEnd`. -/
def rawFields (n arrayEnd : ℕ) : ℕ → ℕ → Res (List RawField)
  | 0, _ => .error .fuel
  | k + 1, p =>
    if p < arrayEnd then do
      let f ← rawField o m e n p
      let fs ← rawFields n arrayEnd k f.stop
      return f :: fs
    else return []

end

section
variable (o : ByteOrder) (bs : List UInt8)

/-- The length of the fields array of the header `bs`. -/
def fieldsArrayLen : ℕ :=
  fromBytes o ((bs.drop fieldsArrayLengthOffset).take 4)

/-- The fields of the header `bs`. -/
def headerFields : List RawField :=
  match rawFields o (ofBytes bs).str bs.length (bs.length + headerSignature.length + 1)
      (firstFieldOffset + fieldsArrayLen o bs) (bs.length + headerSignature.length + 1)
      firstFieldOffset with
  | .ok fs => fs
  | .error _ => []

end

/-! ## The signature of a header -/

theorem validSignature_header : ValidSignature headerSignature :=
  signatureAccepted_iff.1 (by decide)

/-- The types-only reader at the item of a header with the number `i`. -/
def itemTypes (i : ℕ) : TypeReader := .initTypesOnly (.ofBytes headerSignature) i

/-- The types-only reader at an element of the fields array. -/
def fieldTypes : TypeReader := (itemTypes fieldsArraySignatureOffset).arrayTypesOnlyRecurse (.array true)

def codeTypes : TypeReader := { fieldTypes.baseRecurse (.struct .struct true) with typePos := 8 }

/-- The types-only reader at the variant of a field. -/
def variantTypes : TypeReader := { codeTypes with typePos := 9 }

theorem typesOnly_fieldTypes : TypesOnly (.ofBytes headerSignature) fieldTypes := ⟨rfl, rfl⟩

theorem itemTypes_next {i : ℕ} (hi : i < 6) : (itemTypes i).next = .ok (true, itemTypes (i + 1)) := by
  match i with
  | 0 | 1 | 2 | 3 | 4 | 5 => rfl

theorem arrayTypes_next : ∃ r, (itemTypes fieldsArraySignatureOffset).next = .ok (false, r) ∧
    r.getCurrentType = .ok .invalid := ⟨_, rfl, rfl⟩

theorem fieldTypes_recurse : fieldTypes.recurse = .ok codeTypes := rfl

theorem codeTypes_next : codeTypes.next = .ok (true, variantTypes) := rfl

theorem variantTypes_next : ∃ r, variantTypes.next = .ok (false, r) ∧
    r.getCurrentType = .ok .invalid := ⟨_, rfl, rfl⟩

theorem fieldTypes_skip :
    ∃ r, fieldTypes.skipContents (TypeReader.readerNext 2) 2 = .ok r := ⟨_, rfl⟩

/-! ## What the validator accepts as a header -/

section
variable {o : ByteOrder} {m : ℕ → Option UInt8} {e n p q d : ℕ} {r r' : TypeReader} {f : RawField}
  {N : ℕ} {fs : List RawField} {e' : ℕ} {m' : ℕ → Option UInt8}

theorem helper_fixed {f : FixedType} {more : Bool} (hm : Readable m 0 e)
    (ht : r.getCurrentType = .ok (.basic (.fixed f))) (hnx : r.next = .ok (more, r'))
    (h : validateBodyHelper o m e n r true p = .ok q) :
    ∃ n', n = n' + 1 ∧ alignUp p f.size + f.size ≤ e ∧
      validateBodyHelper o m e n' r' true (alignUp p f.size + f.size) = .ok q := by
  obtain ⟨n, _, rfl, -⟩ := validateBodyHelper_ok h
  obtain ⟨-, p', hvl, hle, more', r'', hnx', hrs⟩ := (validateBodyHelper_succ ht nofun).1 h
  rw [hnx, Except.ok.injEq, Prod.mk.injEq] at hnx'
  obtain ⟨-, rfl⟩ := hnx'
  obtain ⟨k, -, -, -, hend, -⟩ := (validateFixed_iff (hm.mono (Nat.zero_le p))).1 ⟨hvl, hle⟩
  rw [add_length_encode_fixed] at hend
  subst hend
  exact ⟨n, rfl, hle, hrs⟩

theorem header_items (hm : Readable m 0 e)
    (h : validateBodyHelper o m e n (itemTypes 0) true 0 = .ok q) :
    ∃ n', n = n' + 6 ∧ validateBodyHelper o m e n' (itemTypes 6) true 12 = .ok q := by
  obtain ⟨n, rfl, -, h⟩ := helper_fixed (f := .byte) hm rfl (itemTypes_next (i := 0) (by omega)) h
  obtain ⟨n, rfl, -, h⟩ := helper_fixed (f := .byte) hm rfl (itemTypes_next (i := 1) (by omega)) h
  obtain ⟨n, rfl, -, h⟩ := helper_fixed (f := .byte) hm rfl (itemTypes_next (i := 2) (by omega)) h
  obtain ⟨n, rfl, -, h⟩ := helper_fixed (f := .byte) hm rfl (itemTypes_next (i := 3) (by omega)) h
  obtain ⟨n, rfl, -, h⟩ := helper_fixed (f := .uint32) hm rfl (itemTypes_next (i := 4) (by omega)) h
  obtain ⟨n, rfl, -, h⟩ := helper_fixed (f := .uint32) hm rfl (itemTypes_next (i := 5) (by omega)) h
  exact ⟨n, rfl, h⟩

theorem header_array
    (h : validateBodyHelper o m e n (itemTypes fieldsArraySignatureOffset) true 12 = .ok q) :
    ∃ n' len, n = n' + 1 ∧ len < 2 ^ 32 ∧ Holds m 12 (toBytes o 4 len) ∧ q = 16 + len ∧
      16 + len ≤ e ∧ (0 < len →
        elementsLoop (validateBodyHelper o m e n' fieldTypes false) (16 + len) n' 16 =
          .ok (16 + len)) := by
  obtain ⟨n, _, rfl, -⟩ := validateBodyHelper_ok h
  obtain ⟨-, p, hvl, hle, more, r, hnx, hrs⟩ :=
    (validateBodyHelper_succ (t := .array) rfl (by simp)).1 h
  obtain ⟨r', hnx', hend⟩ := arrayTypes_next
  obtain ⟨-, rfl⟩ := Prod.mk.inj (Except.ok.inj (hnx.symm.trans hnx'))
  obtain ⟨n, _, rfl, -⟩ := validateBodyHelper_ok hrs
  obtain rfl : p = q := Except.ok.inj ((validateBodyHelper_invalid hend).symm.trans hrs)
  obtain ⟨t, len, a, hst, rfl, hel⟩ := validateArray_eq_ok.1 hvl
  obtain ⟨ht, -, hlen, -, hw, -, al, hal, rfl, -⟩ := arrayStart_eq_ok.1 hst
  obtain rfl : t = .struct .struct := Except.ok.inj (ht.symm.trans rfl)
  obtain rfl : al = 8 := Except.ok.inj (hal.symm.trans rfl)
  refine ⟨_, len, rfl, hlen, ((holds_padded (by decide)).1 hw).2, rfl, hle, fun hp => ?_⟩
  have hel := hel hp
  rw [validateElements_eq ht rfl] at hel
  exact hel

/-- The bytes at `p` are the field `f`, as the validator has found with fuel at most `N`. -/
structure FieldAt (o : ByteOrder) (m : ℕ → Option UInt8) (e N p : ℕ) (f : RawField) : Prop where
  code : m (alignUp p 8) = some f.code
  valid : ValidSignature f.sig
  start : variantStart m e (alignUp p 8 + 1) = .ok (.ofBytes f.sig, f.valuePos)
  value : ∃ n ≤ N, validateBodyHelper o m e n (.initTypesOnly (.ofBytes f.sig) 0) false f.valuePos =
    .ok f.stop
  single : ∃ r, (TypeReader.initTypesOnly (.ofBytes f.sig) 0).next = .ok (false, r) ∧
    r.getCurrentType = .ok .invalid
  element : ∃ n ≤ N, validateStruct m e (validateBodyHelper o m e n) fieldTypes p = .ok f.stop

/-- The bytes from `p` to `stop` are the fields of a list. -/
inductive FieldsAt (o : ByteOrder) (m : ℕ → Option UInt8) (e N stop : ℕ) :
    ℕ → List RawField → Prop where
  | nil : FieldsAt o m e N stop stop []
  | cons {p : ℕ} {f : RawField} {fs : List RawField} (hlt : p < stop) (hf : FieldAt o m e N p f)
    (hfs : FieldsAt o m e N stop f.stop fs) : FieldsAt o m e N stop p (f :: fs)

theorem bytes_ofBytes (cs : List UInt8) : (ofBytes cs).bytes = cs :=
  bytes_eq rfl (holds_append.1 (holds_ofBytes cs)).1

theorem element_fieldAt (hm : Readable m 0 e)
    (h : validateBodyHelper o m e n fieldTypes false p = .ok q) :
    ∃ f, FieldAt o m e n p f ∧ f.stop = q := by
  obtain ⟨n, _, rfl, -⟩ := validateBodyHelper_ok h
  obtain ⟨-, _, hvl, -, rfl⟩ := (validateBodyHelper_succ (t := .struct .struct) rfl (by simp)).1 h
  have hst : validateStruct m e (validateBodyHelper o m e n) fieldTypes p = .ok q := hvl
  obtain ⟨sub, a, hsr, hvl⟩ := validateStruct_eq_ok.1 hst
  obtain ⟨hrc, rfl, -, -⟩ := structStart_eq_ok.1 hsr
  obtain rfl : codeTypes = sub := Except.ok.inj (fieldTypes_recurse.symm.trans hrc)
  obtain ⟨n, rfl, hle, hvl⟩ := helper_fixed (f := .byte) hm rfl codeTypes_next hvl
  rw [FixedType.size, alignUp_one] at hle hvl
  obtain ⟨n, _, rfl, -⟩ := validateBodyHelper_ok hvl
  obtain ⟨-, q', hvr, -, more, r, hnx, hrs⟩ :=
    (validateBodyHelper_succ (t := .variant) rfl (by simp)).1 hvl
  obtain ⟨r', hnx', hend⟩ := variantTypes_next
  obtain ⟨-, rfl⟩ := Prod.mk.inj (Except.ok.inj (hnx.symm.trans hnx'))
  obtain ⟨n, _, rfl, -⟩ := validateBodyHelper_ok hrs
  obtain rfl : q' = q := Except.ok.inj ((validateBodyHelper_invalid hend).symm.trans hrs)
  obtain ⟨sig, v, hsr, hvl, hsn⟩ := validateVariant_eq_ok.1 hvr
  obtain ⟨cs, rfl, hv, -⟩ := (variantStart_iff (hm.mono (Nat.zero_le _))).1 hsr
  obtain ⟨c, hc⟩ := Option.isSome_iff_exists.1 (hm (alignUp p 8) (Nat.zero_le _) (by omega))
  exact ⟨⟨c, cs, v, q'⟩, ⟨hc, hv, hsr, ⟨_, by omega, hvl⟩, hsn, _, by omega, hst⟩, rfl⟩

theorem FieldAt.lt (h : FieldAt o m e N p f) (hm : Readable m 0 e) :
    alignUp p 8 + 1 < f.valuePos ∧ f.valuePos < f.stop := by
  have hma := hm.mono (Nat.zero_le (alignUp p 8 + 1))
  obtain ⟨n, -, hvl⟩ := h.value
  refine ⟨variantStart_lt hma h.start,
    (transfers n h.valid (typesOnly_init _ _) (hm.mono (Nat.zero_le _)) hvl).2.1 ?_⟩
  obtain ⟨cs, hcs, -, -, t, -, ht, hne, -⟩ := (variantStart_iff hma).1 h.start
  rw [getCurrentType_initTypesOnly, hcs, ht]
  exact fun hi => hne (Except.ok.inj hi)

theorem loop_fieldsAt (hm : Readable m 0 e) {stop k : ℕ}
    (h : elementsLoop (validateBodyHelper o m e n fieldTypes false) stop k p = .ok stop) :
    ∃ fs, FieldsAt o m e n stop p fs := by
  induction k generalizing p with
  | zero => cases h
  | succ k ih =>
    rw [elementsLoop] at h
    split at h
    · next hlt =>
      obtain ⟨q, hq, h⟩ := bind_eq_ok.1 h
      obtain ⟨f, hf, rfl⟩ := element_fieldAt hm hq
      obtain ⟨fs, hfs⟩ := ih h
      exact ⟨f :: fs, .cons hlt hf hfs⟩
    · obtain rfl : p = stop := Except.ok.inj h
      exact ⟨[], .nil⟩

section
variable {stop : ℕ} (h : FieldsAt o m e N stop p fs)
include h

theorem FieldsAt.le : p ≤ stop := by
  cases h with
  | nil => exact le_refl _
  | cons hlt _ _ => exact hlt.le

theorem FieldsAt.stop_le (hf : f ∈ fs) : f.stop ≤ stop := by
  induction h with
  | nil => cases hf
  | cons _ _ hfs ih =>
    rcases List.mem_cons.1 hf with rfl | hf
    · exact hfs.le
    · exact ih hf

end

theorem validateBodyHelper_fuel {cs : List UInt8} {walk : Bool} {n' : ℕ} (hv : ValidSignature cs)
    (hr : TypesOnly (.ofBytes cs) r) (hm : Readable m p e)
    (h : validateBodyHelper o m e n r walk p = .ok q) (hq : q ≤ e) (hn : n ≤ n') :
    validateBodyHelper o m e n' r walk p = .ok q :=
  (transfers n hv hr hm h).2.2 (.inPlace hm hq fun _ _ _ => rfl) rfl hn

theorem FieldAt.rawField_eq (h : FieldAt o m e N p f) (hm : Readable m 0 e) (hst : f.stop ≤ e)
    (hn : N ≤ n) : rawField o m e n p = .ok f := by
  obtain ⟨k, hk, hvl⟩ := h.value
  rw [rawField, derefAt_eq_ok.2 h.code, ok_bind, h.start, ok_bind]
  simp [validateBodyHelper_fuel h.valid (typesOnly_init _ _) (hm.mono (Nat.zero_le _)) hvl hst
    (hk.trans hn), ok_bind, bytes_ofBytes]

theorem FieldsAt.rawFields_eq {stop : ℕ} (h : FieldsAt o m e N stop p fs) (hm : Readable m 0 e)
    (hst : stop ≤ e) (hn : N ≤ n) {k : ℕ} (hk : stop - p < k) :
    rawFields o m e n stop k p = .ok fs := by
  induction h generalizing k with
  | nil =>
    obtain _ | k := k
    · omega
    rw [rawFields, if_neg (Nat.lt_irrefl stop)]
    rfl
  | @cons p f fs hlt hf hfs ih =>
    obtain _ | k := k
    · omega
    have hle := hfs.le
    have hp := hf.lt hm
    have ha := le_alignUp (n := p) (show 0 < 8 by decide)
    rw [rawFields, if_pos hlt, hf.rawField_eq hm (by omega) hn, ok_bind, ih (by omega), ok_bind]
    rfl

theorem FieldAt.same (h : FieldAt o m e N p f) (hm : Readable m 0 e)
    (hs : SameBytes m m' e' 0 0 f.stop) : FieldAt o m' e' N p f := by
  have hlt := h.lt hm
  refine ⟨?_, h.valid, ?_, ?_, h.single, ?_⟩
  · rw [hs.agree _ _ (Nat.zero_le _) (by omega) rfl, h.code]
  · exact variantStart_same (hm.mono (Nat.zero_le _)) h.start
      (hs.mono (Nat.zero_le _) hlt.2.le rfl) rfl
  · obtain ⟨n, hn, hvl⟩ := h.value
    exact ⟨n, hn, (transfers n h.valid (typesOnly_init _ _) (hm.mono (Nat.zero_le _)) hvl).2.2
      (hs.mono (Nat.zero_le _) (le_refl _) rfl) rfl (le_refl n)⟩
  · obtain ⟨n, hn, hvl⟩ := h.element
    have hp := Transfers.struct (transfers n) validSignature_header typesOnly_fieldTypes
      (hm.mono (Nat.zero_le _)) rfl hvl (le_refl n)
    exact ⟨n, hn, hp.2 (hs.mono (Nat.zero_le _) (le_refl _) rfl) rfl⟩

theorem FieldsAt.same {stop : ℕ} (h : FieldsAt o m e N stop p fs) (hm : Readable m 0 e)
    (hs : SameBytes m m' e' 0 0 stop) : FieldsAt o m' e' N stop p fs := by
  induction h with
  | nil => exact .nil
  | cons hlt hf hfs ih => exact .cons hlt (hf.same hm (hs.mono (le_refl 0) hfs.le rfl)) ih

end

/-- The bytes `bs` start with what the body validator accepts as a header that ends at `stop`. -/
def HeaderAccepted (o : ByteOrder) (bs : List UInt8) (stop : ℕ) : Prop :=
  validateBody (.ofBytes headerSignature) 0 o (.ofBytes bs) 0 bs.length = .ok stop

theorem readable_ofBytes (bs : List UInt8) : Readable (ofBytes bs).str 0 bs.length :=
  fun i _ hi => by rw [ofBytes_str_of_lt hi]; rfl

section
variable {o : ByteOrder} {bs : List UInt8} {stop : ℕ}

theorem headerAccepted_iff :
    HeaderAccepted o bs stop ↔ validateBodyHelper o (ofBytes bs).str bs.length
      (headerSignature.length + bs.length + 1) (itemTypes 0) true 0 = .ok stop := by
  have hlen : (ofBytes bs).len = bs.length := rfl
  simp only [HeaderAccepted, validateBody, getConstDataLen, hlen, bind_eq_ok,
    assert_eq_ok, exists_const, Nat.zero_add, Nat.sub_zero, Nat.zero_le, le_refl, true_and]
  rfl

theorem holds_drop_take {i n : ℕ} {xs : List UInt8}
    (h : Holds (ofBytes bs).str i xs) (hn : xs.length = n) (hle : i + n ≤ bs.length) :
    (bs.drop i).take n = xs := by
  refine List.ext_getElem (by simp; omega) fun k h1 h2 => ?_
  have hk := h k h2
  rw [ofBytes_str_of_lt (by omega), Option.some.injEq] at hk
  simpa using hk

/-- **The fields of an accepted header.** -/
theorem HeaderAccepted.fieldsAt (h : HeaderAccepted o bs stop) :
    stop = firstFieldOffset + fieldsArrayLen o bs ∧ stop ≤ bs.length ∧
      Holds (ofBytes bs).str 12 (toBytes o 4 (fieldsArrayLen o bs)) ∧
      fieldsArrayLen o bs < 2 ^ 32 ∧
      FieldsAt o (ofBytes bs).str bs.length (headerSignature.length + bs.length - 6) stop
        firstFieldOffset (headerFields o bs) := by
  have hm := readable_ofBytes bs
  obtain ⟨n, hn, hi⟩ := header_items hm (headerAccepted_iff.1 h)
  obtain ⟨n', len, rfl, hlt, hw, rfl, hle, hel⟩ := header_array hi
  have hfu : n' = headerSignature.length + bs.length - 6 := by omega
  have hlen : fieldsArrayLen o bs = len := by
    rw [fieldsArrayLen, fieldsArrayLengthOffset, holds_drop_take hw (by simp) (by omega),
      fromBytes_toBytes o (by simpa using hlt)]
  obtain ⟨fs, hfs⟩ : ∃ fs, FieldsAt o (ofBytes bs).str bs.length n' (16 + len) 16 fs := by
    rcases Nat.eq_zero_or_pos len with rfl | hp
    · exact ⟨[], .nil⟩
    · exact loop_fieldsAt hm (hel hp)
  have hfl : headerFields o bs = fs := by
    rw [headerFields, hlen]
    have hrw := hfs.rawFields_eq hm hle (n := bs.length + headerSignature.length + 1) (by omega)
      (k := bs.length + headerSignature.length + 1) (by omega)
    rw [firstFieldOffset, hrw]
  rw [hlen, hfl, ← hfu]
  exact ⟨rfl, hle, hw, hlt, hfs⟩

end

end DBus
