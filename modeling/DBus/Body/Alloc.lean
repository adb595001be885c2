/-
  The validators when allocations may fail.

  Only the signature validator allocates, the links of its list of element counts; the body
  validator hands its code on.  Unless an allocation fails, the functions here have the
  outcome of those without allocations (`follows_allocBody`).
-/
import DBus.Body.Defs
import DBus.Lib.Alloc

namespace DBus

open Align Endian Alloc

/-- The validity code `DBUS_VALIDITY_UNKNOWN_OOM_ERROR` is returned. -/
def Stop.oom : Stop := .invalid .validityUnknownOomError (DBusValidity.Fails.ne_valid trivial)

/-! ## Signatures -/

/-- `sigStep`: a count is appended for a bracket that opens a container, and for every
    other byte but an array code the count that was popped is appended again. -/
def allocSigStep (next : Res UInt8) (st : SigState) (c : UInt8) : Alloc Stop SigState := do
  let t := .ofByte c
  let st ← lift (sigSwitch st t)
  if t = .array then pure () else allocate .oom
  let st := sigCount st t
  let st ← lift (sigArrays next st t)
  lift (require (¬ (st.last = .beginChar .dictEntry ∧ t.isValid = true ∧ t.isBasic = false))
    .invalidDictKeyMustBeBasicType)
  return { st with last := t }

/-- `sigLoop` -/
def allocSigLoop (s : DBusString) : ℕ → ℕ → SigState → Alloc Stop SigState
  | 0, _, st => return st
  | n + 1, p, st => do
    let c ← lift (s.deref p)
    let st ← allocSigStep (s.deref (p + 1)) st c
    allocSigLoop s n (p + 1) st

/-- `validateSignature` -/
def allocSignature (s : DBusString) (typePos len : ℕ) : Alloc Stop Unit := do
  allocate .oom
  lift (assert (typePos < 2147483647 - len))
  lift (require (len ≤ maximumSignatureLength) .invalidSignatureTooLong)
  lift (s.getConstDataLen typePos 0)
  lift (s.getConstDataLen (typePos + len) 0)
  let st ← allocSigLoop s len typePos .init
  lift (sigFinish st)

def allocValidity {α : Type} (x : Alloc Stop α) : Alloc Stop DBusValidity :=
  fun a => (Res.validity (x a).1, (x a).2)

/-! ## Bodies -/

section
variable (o : ByteOrder) (m : ℕ → Option UInt8) (e : ℕ)

/-- `validateSignatureValue` -/
def allocSignatureValue (p : ℕ) : Alloc Stop ℕ := do
  let len ← lift (derefAt m p)
  let p := p + 1
  lift (require (len.toNat + 1 ≤ e - p) .invalidSignatureLengthOutOfBounds)
  let str ← lift (DBusString.initConstLen m p len.toNat)
  allocSignature str 0 str.len
  let p := p + len.toNat
  lift (assert (p < e))
  let c ← lift (derefAt m p)
  lift (require (c = 0) .invalidSignatureMissingNul)
  return p + 1

/-- `variantStart` -/
def allocVariantStart (p : ℕ) : Alloc Stop (DBusString × ℕ) := do
  let len ← lift (derefAt m p)
  let p := p + 1
  lift (require (len.toNat + 1 ≤ e - p) .invalidVariantSignatureLengthOutOfBounds)
  let sig ← lift (DBusString.initConstLen m p len.toNat)
  let reason ← allocValidity (allocSignature sig 0 sig.len)
  lift (require (reason ≠ .validityUnknownOomError) .validityUnknownOomError)
  lift (require (reason = .valid) .invalidVariantSignatureBad)
  let p := p + len.toNat
  let c ← lift (derefAt m p)
  lift (require (c = 0) .invalidVariantSignatureMissingNul)
  let p := p + 1
  let containedType ← lift (firstTypeInSignature sig 0)
  lift (require (containedType ≠ .invalid) .invalidVariantSignatureEmpty)
  let alignment ← lift containedType.getAlignment
  let a := alignUp p alignment
  lift (require (a ≤ e) .invalidNotEnoughData)
  lift (skipPadding m (a - p) p)
  let t ← lift (TypeReader.initTypesOnly sig 0).getCurrentType
  lift (assert (t ≠ .invalid))
  return (sig, a)

/-- `elementsLoop` -/
def allocLoop (elem : ℕ → Alloc Stop ℕ) (arrayEnd : ℕ) : ℕ → ℕ → Alloc Stop ℕ
  | 0, _ => lift (.error .fuel)
  | n + 1, p =>
    if p < arrayEnd then do
      let p ← elem p
      allocLoop elem arrayEnd n p
    else return p

section
variable (helper : TypeReader → Bool → ℕ → Alloc Stop ℕ)

/-- `validateElements` -/
def allocElements (n : ℕ) (r : TypeReader) (len a : ℕ) : Alloc Stop ℕ := do
  let sub ← lift r.recurse
  let elemType ← lift r.getElementType
  match elemType.fixed? with
  | some .boolean => lift (booleansLoop o m (a + len) (len + 1) a)
  | some _ => return a + len
  | none => allocLoop (helper sub false) (a + len) n a

/-- `validateArray` -/
def allocArray (n : ℕ) (r : TypeReader) (p : ℕ) : Alloc Stop ℕ := do
  let (_, len, a) ← lift (arrayStart o m e r p)
  if len > 0 then do
    let p ← allocElements o m helper n r len a
    lift (require (p = a + len) .invalidArrayLengthIncorrect)
    return p
  else return a

/-- `validateVariant` -/
def allocVariant (p : ℕ) : Alloc Stop ℕ := do
  let (sig, a) ← allocVariantStart m e p
  let sub := .initTypesOnly sig 0
  let p ← helper sub false a
  let (more, sub) ← lift sub.next
  lift (require (more = false) .invalidVariantSignatureSpecifiesMultipleValues)
  let t ← lift sub.getCurrentType
  lift (assert (t = .invalid))
  return p

/-- `validateStruct` -/
def allocStruct (r : TypeReader) (p : ℕ) : Alloc Stop ℕ := do
  let (sub, a) ← lift (structStart m e r p)
  helper sub true a

/-- `validateValue` -/
def allocValue (n : ℕ) (r : TypeReader) (p : ℕ) : TypeCode → Alloc Stop ℕ
  | .basic (.str .signature) => allocSignatureValue m e p
  | .array => allocArray o m e helper n r p
  | .variant => allocVariant m e helper p
  | .struct _ => allocStruct m e helper r p
  | t => lift (validateValue o m e (fun _ _ _ => .error .assertion) n r p t)

end

/-- `validateBodyHelper` -/
def allocHelper : ℕ → TypeReader → Bool → ℕ → Alloc Stop ℕ
  | 0, _, _, _ => lift (.error .fuel)
  | n + 1, r, walkReaderToEnd, p => do
    let t ← lift r.getCurrentType
    if t = .invalid then return p
    else do
      lift (require (p ≠ e) .invalidNotEnoughData)
      let p ← allocValue o m e (allocHelper n) n r p t
      lift (require (p ≤ e) .invalidNotEnoughData)
      if walkReaderToEnd then do
        let (_, r) ← lift r.next
        allocHelper n r walkReaderToEnd p
      else return p

end

section
variable (expectedSignature : DBusString) (signatureStart : ℕ) (o : ByteOrder)
  (valueStr : DBusString) (valuePos len : ℕ)

/-- `validateBody` -/
def allocBody : Alloc Stop ℕ := do
  lift (assert (valuePos + len ≤ valueStr.len))
  let reader := .initTypesOnly expectedSignature signatureStart
  lift (valueStr.getConstDataLen valuePos len)
  allocHelper o valueStr.str (valuePos + len) (expectedSignature.len + len + 1) reader true valuePos

/-- `validateBodyWithReason` -/
def allocBodyWithReason : Alloc Stop DBusValidity :=
  allocValidity do
    let p ← allocBody expectedSignature signatureStart o valueStr valuePos len
    lift (require (¬ p < valuePos + len) .invalidTooMuchData)
    lift (assert (p = valuePos + len))

end

/-! ## Without failures nothing changes -/

section
variable {o : ByteOrder} {m : ℕ → Option UInt8} {e n p : ℕ} {r : TypeReader}
  {allocs : TypeReader → Bool → ℕ → Alloc Stop ℕ} {helper : TypeReader → Bool → ℕ → Res ℕ}

theorem follows_allocSigStep (next : Res UInt8) (st : SigState) (c : UInt8) :
    Follows .oom (allocSigStep next st c) (sigStep next st c) := by
  refine .lift_bind fun st => ?_
  have hrs (t : TypeCode) : Follows Stop.oom (do
      let st ← lift (sigArrays next (sigCount st t) t)
      lift (require (¬ (st.last = .beginChar .dictEntry ∧ t.isValid = true ∧ t.isBasic = false))
        .invalidDictKeyMustBeBasicType)
      return { st with last := t }) (do
      let st ← sigArrays next (sigCount st t) t
      require (¬ (st.last = .beginChar .dictEntry ∧ t.isValid = true ∧ t.isBasic = false))
        .invalidDictKeyMustBeBasicType
      return { st with last := t }) :=
    .lift_bind fun _ => .lift_bind fun _ => follows_pure
  split
  · exact hrs _
  · exact (hrs _).allocate_bind

theorem follows_allocSigLoop (s : DBusString) (n p : ℕ) (st : SigState) :
    Follows .oom (allocSigLoop s n p st) (sigLoop s n p st) := by
  induction n generalizing p st with
  | zero => exact follows_pure
  | succ n ih => exact .lift_bind fun _ => (follows_allocSigStep _ _ _).bind fun _ => ih _ _

theorem follows_allocSignature (s : DBusString) (typePos len : ℕ) :
    Follows .oom (allocSignature s typePos len) (validateSignature s typePos len) := by
  refine Follows.allocate_bind ?_
  refine .lift_bind fun _ => .lift_bind fun _ => ?_
  refine .lift_bind fun _ => .lift_bind fun _ => ?_
  exact (follows_allocSigLoop _ _ _ _).bind fun _ => follows_lift

theorem follows_validity_bind {α β : Type} {x : Alloc Stop α} {y : Res α}
    {f : DBusValidity → Alloc Stop β} {g : DBusValidity → Res β} (h : Follows .oom x y)
    (hf : ∀ v, Follows .oom (f v) (g v)) :
    Follows .oom (do
      let reason ← allocValidity x
      lift (require (reason ≠ .validityUnknownOomError) .validityUnknownOomError)
      f reason) (do
      let reason ← y.validity
      require (reason ≠ .validityUnknownOomError) .validityUnknownOomError
      g reason) := by
  have hte (v : DBusValidity) : Follows Stop.oom (do
      lift (require (v ≠ .validityUnknownOomError) .validityUnknownOomError)
      f v) (do
      require (v ≠ .validityUnknownOomError) .validityUnknownOomError
      g v) := .lift_bind fun _ => hf v
  refine ⟨leaves_bind (fun a => h.leaves a) fun v => (hte v).leaves, fun a ha => ?_⟩
  rcases hxa : x a with ⟨out, a'⟩
  have hvl : allocValidity x a = (Res.validity out, a') := by rw [allocValidity, hxa]
  have ho := h.outcome a ha
  rw [hxa] at ho
  rcases ho with ⟨hok, rfl⟩ | ⟨hfl, rfl⟩
  · cases hv : Res.validity out with
    | ok v =>
      rw [hv] at hvl
      rw [bind_of_ok hvl]
      exact (hte v).outcome a' hok
    | error st =>
      rw [hv] at hvl
      rw [bind_of_error hvl]
      exact .inl ⟨hok, rfl⟩
  · -- the failure has become a validity code, which the test finds
    rw [bind_of_ok hvl]
    exact .inr ⟨hfl, rfl⟩

theorem follows_allocSignatureValue (p : ℕ) :
    Follows .oom (allocSignatureValue m e p) (validateSignatureValue m e p) := by
  refine .lift_bind fun _ => .lift_bind fun _ => ?_
  refine .lift_bind fun _ => (follows_allocSignature _ _ _).bind fun _ => ?_
  refine .lift_bind fun _ => .lift_bind fun _ => ?_
  exact .lift_bind fun _ => follows_pure

theorem follows_allocVariantStart (p : ℕ) :
    Follows .oom (allocVariantStart m e p) (variantStart m e p) := by
  refine .lift_bind fun _ => .lift_bind fun _ => ?_
  refine .lift_bind fun _ => ?_
  refine follows_validity_bind (follows_allocSignature _ _ _) fun _ => ?_
  refine .lift_bind fun _ => .lift_bind fun _ => ?_
  refine .lift_bind fun _ => .lift_bind fun _ => ?_
  refine .lift_bind fun _ => .lift_bind fun _ => ?_
  refine .lift_bind fun _ => .lift_bind fun _ => ?_
  refine .lift_bind fun _ => .lift_bind fun _ => follows_pure

theorem follows_allocLoop {allocs : ℕ → Alloc Stop ℕ} {elem : ℕ → Res ℕ}
    (h : ∀ p, Follows .oom (allocs p) (elem p)) (arrayEnd n p : ℕ) :
    Follows .oom (allocLoop allocs arrayEnd n p) (elementsLoop elem arrayEnd n p) := by
  induction n generalizing p with
  | zero => exact follows_lift
  | succ n ih => exact .ite ((h p).bind fun _ => ih _) follows_pure

section
variable (h : ∀ r walk p, Follows .oom (allocs r walk p) (helper r walk p))
include h

theorem follows_allocElements (len a : ℕ) :
    Follows .oom (allocElements o m allocs n r len a) (validateElements o m helper n r len a) := by
  refine .lift_bind fun sub => .lift_bind fun t => ?_
  cases t.fixed? with
  | none => exact follows_allocLoop (h sub false) _ _ _
  | some f =>
    cases f with
    | boolean => exact follows_lift
    | _ => exact follows_pure

theorem follows_allocValue (p : ℕ) (t : TypeCode) :
    Follows .oom (allocValue o m e allocs n r p t) (validateValue o m e helper n r p t) := by
  cases t with
  | basic b =>
    cases b with
    | fixed f => exact follows_lift
    | str s =>
      cases s with
      | signature => exact follows_allocSignatureValue p
      | _ => exact follows_lift
  | array =>
    refine .lift_bind fun ⟨_, len, a⟩ => .ite ?_ follows_pure
    refine (follows_allocElements h len a).bind fun _ => ?_
    exact .lift_bind fun _ => follows_pure
  | variant =>
    refine (follows_allocVariantStart p).bind fun ⟨sig, a⟩ => (h _ _ _).bind fun _ => ?_
    refine .lift_bind fun ⟨_, _⟩ => .lift_bind fun _ => ?_
    exact .lift_bind fun _ => .lift_bind fun _ => follows_pure
  | struct k => exact .lift_bind fun ⟨_, _⟩ => h _ _ _
  | _ => exact follows_lift

end

theorem follows_allocHelper (n : ℕ) (r : TypeReader) (walk : Bool) (p : ℕ) :
    Follows .oom (allocHelper o m e n r walk p) (validateBodyHelper o m e n r walk p) := by
  induction n generalizing r walk p with
  | zero => exact follows_lift
  | succ n ih =>
    refine .lift_bind fun t => .ite follows_pure ?_
    refine .lift_bind fun _ => (follows_allocValue ih p t).bind fun q => ?_
    refine .lift_bind fun _ => .ite ?_ follows_pure
    exact .lift_bind fun ⟨_, _⟩ => ih _ _ _

end

/-- **Unless an allocation fails, the validator is the one without allocations.** -/
theorem follows_allocBody (expectedSignature : DBusString) (signatureStart : ℕ) (o : ByteOrder)
    (valueStr : DBusString) (valuePos len : ℕ) :
    Follows .oom (allocBody expectedSignature signatureStart o valueStr valuePos len)
      (validateBody expectedSignature signatureStart o valueStr valuePos len) := by
  refine .lift_bind fun _ => .lift_bind fun _ => ?_
  exact follows_allocHelper _ _ _ _

section
variable {α : Type} {x : Alloc Stop α} {y : Res α}

theorem allocValidity_plenty (h : Follows .oom x y) :
    allocValidity x .plenty = (Res.validity y, .plenty) := by
  rw [allocValidity, h.plenty]

theorem steady_allocValidity (h : Follows .oom x y) :
    Steady (· = .ok .validityUnknownOomError) (allocValidity x) := by
  refine ⟨h.leaves, fun a ha => ?_⟩
  rw [allocValidity_plenty h]
  rcases h.outcome a ha with ⟨hno, heq⟩ | ⟨hfl, heq⟩
  · exact .inl ⟨hno, congrArg Res.validity heq⟩
  · exact .inr ⟨hfl, congrArg Res.validity heq⟩

end

theorem follows_allocBody_end (expectedSignature : DBusString) (signatureStart : ℕ) (o : ByteOrder)
    (valueStr : DBusString) (valuePos len : ℕ) :
    Follows .oom (do
        let p ← allocBody expectedSignature signatureStart o valueStr valuePos len
        lift (require (¬ p < valuePos + len) .invalidTooMuchData)
        lift (assert (p = valuePos + len))) (do
        let p ← validateBody expectedSignature signatureStart o valueStr valuePos len
        require (¬ p < valuePos + len) .invalidTooMuchData
        assert (p = valuePos + len)) :=
  (follows_allocBody ..).bind fun _ => .lift_bind fun _ => follows_lift

end DBus
