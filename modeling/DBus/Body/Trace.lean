/-
  What the body validator meets on its way.

  The functions here are those of the validator (`out_traceHelper`), with a note for each
  boolean whose bytes are looked at, for each array and for each variant: so every body has a
  list of parts (`bodyParts`).
-/
import DBus.Body.Containers
import DBus.Lib.Traced

namespace DBus

open Outcome Memory Align Endian Traced

def DBusString.bytes (s : DBusString) : List UInt8 := (readN s.str 0 s.len).getD []

theorem DBusString.bytes_eq {s : DBusString} {cs : List UInt8} (hl : s.len = cs.length)
    (h : Holds s.str 0 cs) : s.bytes = cs := by
  rw [bytes, hl, readN_eq_some.2 ⟨rfl, h⟩, Option.getD_some]

/-- What the validator meets. -/
inductive Part where
  /-- a boolean, whose four bytes at `p` are looked at -/
  | boolean (p : ℕ)
  /-- an array of elements of this type that claims `len` bytes -/
  | array (elemType : TypeCode) (len : ℕ)
  /-- a variant with this signature -/
  | variant (sig : List UInt8)
deriving DecidableEq, Repr

section
variable (o : ByteOrder) (m : ℕ → Option UInt8) (e : ℕ)

/-- `checkBoolean` -/
def traceBoolean (p : ℕ) : Traced Part Stop Unit := do
  note (.boolean p)
  lift (checkBoolean o m p)

/-- `validateFixed` -/
def traceFixed (f : FixedType) (p : ℕ) : Traced Part Stop ℕ :=
  match f with
  | .byte => return p + 1
  | f => do
    let a := alignUp p f.size
    lift (require (a < e) .invalidNotEnoughData)
    lift (skipPadding m (a - p) p)
    if f = .boolean then traceBoolean o m a else pure ()
    return a + f.size

/-- `booleansLoop` -/
def traceBooleans (arrayEnd : ℕ) : ℕ → ℕ → Traced Part Stop ℕ
  | 0, _ => lift (.error .fuel)
  | n + 1, p =>
    if p < arrayEnd then do
      traceBoolean o m p
      traceBooleans arrayEnd n (p + FixedType.size .boolean)
    else return p

/-- `elementsLoop` -/
def traceLoop (elem : ℕ → Traced Part Stop ℕ) (arrayEnd : ℕ) : ℕ → ℕ → Traced Part Stop ℕ
  | 0, _ => lift (.error .fuel)
  | n + 1, p =>
    if p < arrayEnd then do
      let p ← elem p
      traceLoop elem arrayEnd n p
    else return p

section
variable (helper : TypeReader → Bool → ℕ → Traced Part Stop ℕ)

/-- `validateElements` -/
def traceElements (n : ℕ) (r : TypeReader) (len a : ℕ) : Traced Part Stop ℕ := do
  let sub ← lift r.recurse
  let elemType ← lift r.getElementType
  match elemType.fixed? with
  | some .boolean => traceBooleans o m (a + len) (len + 1) a
  | some _ => return a + len
  | none => traceLoop (helper sub false) (a + len) n a

/-- `validateArray` -/
def traceArray (n : ℕ) (r : TypeReader) (p : ℕ) : Traced Part Stop ℕ := do
  let (elemType, len, a) ← lift (arrayStart o m e r p)
  note (.array elemType len)
  if len > 0 then do
    let p ← traceElements o m helper n r len a
    lift (require (p = a + len) .invalidArrayLengthIncorrect)
    return p
  else return a

/-- `validateVariant` -/
def traceVariant (p : ℕ) : Traced Part Stop ℕ := do
  let (sig, a) ← lift (variantStart m e p)
  note (.variant sig.bytes)
  let sub := .initTypesOnly sig 0
  let p ← helper sub false a
  let (more, sub) ← lift sub.next
  lift (require (more = false) .invalidVariantSignatureSpecifiesMultipleValues)
  let t ← lift sub.getCurrentType
  lift (assert (t = .invalid))
  return p

/-- `validateStruct` -/
def traceStruct (r : TypeReader) (p : ℕ) : Traced Part Stop ℕ := do
  let (sub, a) ← lift (structStart m e r p)
  helper sub true a

/-- `validateValue` -/
def traceValue (n : ℕ) (r : TypeReader) (p : ℕ) : TypeCode → Traced Part Stop ℕ
  | .basic (.fixed f) => traceFixed o m e f p
  | .basic (.str .signature) => lift (validateSignatureValue m e p)
  | .basic (.str s) => lift (validateString o m e s p)
  | .array => traceArray o m e helper n r p
  | .variant => traceVariant m e helper p
  | .struct _ => traceStruct m e helper r p
  | _ => lift (.error .assertion)

end

/-- `validateBodyHelper` -/
def traceHelper : ℕ → TypeReader → Bool → ℕ → Traced Part Stop ℕ
  | 0, _, _, _ => lift (.error .fuel)
  | n + 1, r, walkReaderToEnd, p => do
    let t ← lift r.getCurrentType
    if t = .invalid then return p
    else do
      lift (require (p ≠ e) .invalidNotEnoughData)
      let p ← traceValue o m e (traceHelper n) n r p t
      lift (require (p ≤ e) .invalidNotEnoughData)
      if walkReaderToEnd then do
        let (_, r) ← lift r.next
        traceHelper n r walkReaderToEnd p
      else return p

end

section
variable (o : ByteOrder) (sig body : List UInt8)

def bodyTrace : Traced Part Stop ℕ :=
  traceHelper o (DBusString.ofBytes body).str body.length (sig.length + body.length + 1)
    (.initTypesOnly (.ofBytes sig) 0) true 0

def bodyParts : List Part := (bodyTrace o sig body).notes

end

/-! ## The notes do not change the outcome -/

variable {o : ByteOrder} {m : ℕ → Option UInt8} {e n : ℕ} {r : TypeReader}

section
variable {traced : TypeReader → Bool → ℕ → Traced Part Stop ℕ} {helper : TypeReader → Bool → ℕ → Res ℕ}

theorem out_traceFixed (f : FixedType) (p : ℕ) :
    (traceFixed o m e f p).out = validateFixed o m e f p := by
  cases f <;> simp [traceFixed, validateFixed, traceBoolean]

theorem out_traceBooleans (arrayEnd n p : ℕ) :
    (traceBooleans o m arrayEnd n p).out = booleansLoop o m arrayEnd n p := by
  induction n generalizing p with
  | zero => rfl
  | succ n ih =>
    rw [traceBooleans, booleansLoop]
    split
    · simp [traceBoolean, ih]
    · rfl

theorem out_traceLoop {traced : ℕ → Traced Part Stop ℕ} {elem : ℕ → Res ℕ}
    (h : ∀ p, (traced p).out = elem p) (arrayEnd n p : ℕ) :
    (traceLoop traced arrayEnd n p).out = elementsLoop elem arrayEnd n p := by
  induction n generalizing p with
  | zero => rfl
  | succ n ih =>
    rw [traceLoop, elementsLoop]
    split
    · simp [h, ih]
    · rfl

section
variable (h : ∀ r walk p, (traced r walk p).out = helper r walk p)
include h

theorem out_traceElements (len a : ℕ) :
    (traceElements o m traced n r len a).out = validateElements o m helper n r len a := by
  simp only [traceElements, validateElements, out_bind, out_lift]
  refine bind_congr fun sub => bind_congr fun t => ?_
  cases t.fixed? with
  | none => exact out_traceLoop (h sub false) _ _ _
  | some f =>
    cases f with
    | boolean => exact out_traceBooleans _ _ _
    | _ => rfl

theorem out_traceValue (p : ℕ) (t : TypeCode) :
    (traceValue o m e traced n r p t).out = validateValue o m e helper n r p t := by
  cases t with
  | basic b =>
    cases b with
    | fixed f => exact out_traceFixed _ _
    | str s => cases s <;> rfl
  | array =>
    simp only [traceValue, validateValue, traceArray, validateArray, out_bind, out_lift, out_note,
      ok_bind]
    refine bind_congr fun s => ?_
    split
    · simp [out_traceElements h]
    · rfl
  | variant => simp [traceValue, validateValue, traceVariant, validateVariant, h]
  | struct k => simp [traceValue, validateValue, traceStruct, validateStruct, h]
  | _ => rfl

end

theorem out_traceHelper (n : ℕ) (r : TypeReader) (walk : Bool) (p : ℕ) :
    (traceHelper o m e n r walk p).out = validateBodyHelper o m e n r walk p := by
  induction n generalizing r walk p with
  | zero => rfl
  | succ n ih =>
    simp only [traceHelper, validateBodyHelper, out_bind, out_lift]
    refine bind_congr fun t => ?_
    split
    · rfl
    · simp only [out_bind, out_lift, out_traceValue ih]
      refine bind_congr fun _ => bind_congr fun q => bind_congr fun _ => ?_
      split
      · simp [ih]
      · rfl

end

/-! ## Runs that return -/

section
variable {p q : ℕ} {P : Part → Prop} {helper : TypeReader → Bool → ℕ → Traced Part Stop ℕ} {walk : Bool}

theorem ends_traceArray : Ends P (traceArray o m e helper n r p) q ↔
      ∃ t len a, arrayStart o m e r p = .ok (t, len, a) ∧ P (.array t len) ∧ q = a + len ∧
        (0 < len → Ends P (traceElements o m helper n r len a) q) := by
  simp only [traceArray, ends_bind, ends_lift, ends_note, Prod.exists, exists_const]
  constructor
  · rintro ⟨t, len, a, hs, hP, h⟩
    refine ⟨t, len, a, hs, hP, ?_⟩
    split at h
    · simp only [ends_bind, ends_lift, require_eq_ok, exists_const, ends_pure] at h
      obtain ⟨_, h, rfl, rfl⟩ := h
      exact ⟨rfl, fun _ => h⟩
    · obtain rfl := ends_pure.1 h
      exact ⟨by omega, fun hp => absurd hp (by omega)⟩
  · rintro ⟨t, len, a, hs, hP, rfl, h⟩
    refine ⟨t, len, a, hs, hP, ?_⟩
    split
    · next hp =>
      simp only [ends_bind, ends_lift, require_eq_ok, exists_const, ends_pure]
      exact ⟨_, h hp, rfl, rfl⟩
    · exact ends_pure.2 (by omega)

theorem ends_traceElements {t : TypeCode} {sub : TypeReader} {len a : ℕ}
    (ht : r.getElementType = .ok t) (hr : r.recurse = .ok sub) :
    Ends P (traceElements o m helper n r len a) q ↔
      match t.fixed? with
      | some .boolean => Ends P (traceBooleans o m (a + len) (len + 1) a) q
      | some _ => q = a + len
      | none => Ends P (traceLoop (helper sub false) (a + len) n a) q := by
  simp only [traceElements, ends_bind, ends_lift, hr, ht, Except.ok.injEq, exists_eq_left']
  cases t.fixed? with
  | none => rfl
  | some f => cases f <;> first | rfl | exact ends_pure.trans eq_comm

theorem ends_traceVariant : Ends P (traceVariant m e helper p) q ↔
      ∃ sig a, variantStart m e p = .ok (sig, a) ∧ P (.variant sig.bytes) ∧
        Ends P (helper (TypeReader.initTypesOnly sig 0) false a) q ∧
        ∃ sub, (TypeReader.initTypesOnly sig 0).next = .ok (false, sub) ∧
          sub.getCurrentType = .ok .invalid := by
  simp only [traceVariant, ends_bind, ends_lift, ends_note, Prod.exists, exists_const,
    require_eq_ok, assert_eq_ok, ends_pure]
  constructor
  · rintro ⟨sig, a, hs, hP, _, hh, _, sub, hn, rfl, _, hc, rfl, rfl⟩
    exact ⟨sig, a, hs, hP, hh, sub, hn, hc⟩
  · rintro ⟨sig, a, hs, hP, hh, sub, hn, hc⟩
    exact ⟨sig, a, hs, hP, q, hh, false, sub, hn, rfl, _, hc, rfl, rfl⟩

theorem ends_traceStruct : Ends P (traceStruct m e helper r p) q ↔
      ∃ sub a, structStart m e r p = .ok (sub, a) ∧ Ends P (helper sub true a) q := by
  simp only [traceStruct, ends_bind, ends_lift, Prod.exists]

theorem ends_traceLoop_succ {elem : ℕ → Traced Part Stop ℕ} {arrayEnd : ℕ} :
    Ends P (traceLoop elem arrayEnd (n + 1) p) q ↔
      if p < arrayEnd then ∃ p', Ends P (elem p) p' ∧ Ends P (traceLoop elem arrayEnd n p') q
      else q = p := by
  rw [traceLoop]
  split
  · exact ends_bind
  · exact ends_pure.trans eq_comm

theorem ends_traceHelper_succ : Ends P (traceHelper o m e (n + 1) r walk p) q ↔
      ∃ t, r.getCurrentType = .ok t ∧
        if t = .invalid then q = p
        else p ≠ e ∧ ∃ p', Ends P (traceValue o m e (traceHelper o m e n) n r p t) p' ∧ p' ≤ e ∧
          if walk then ∃ more r', r.next = .ok (more, r') ∧
            Ends P (traceHelper o m e n r' walk p') q
          else q = p' := by
  rw [traceHelper, ends_bind]
  refine exists_congr fun t => and_congr ends_lift ?_
  split
  · exact ends_pure.trans eq_comm
  · simp only [ends_bind, ends_lift, require_eq_ok, exists_const]
    refine and_congr_right fun _ => exists_congr fun p' => and_congr_right fun _ =>
      and_congr_right fun _ => ?_
    cases walk
    · exact ends_pure.trans eq_comm
    · simp only [if_true, ends_bind, ends_lift, Prod.exists]

theorem not_ends_traceHelper_zero : ¬ Ends P (traceHelper o m e 0 r walk p) q := by
  rw [traceHelper, ends_lift]
  exact nofun

end

theorem ends_bodyTrace {o : ByteOrder} {sig body : List UInt8} {P : Part → Prop}
    (h : BodyAccepted o sig body) (hP : ∀ part ∈ bodyParts o sig body, P part) :
    Ends P (bodyTrace o sig body) body.length :=
  ⟨(out_traceHelper ..).trans (bodyAccepted_iff.1 h).2, hP⟩

end DBus
