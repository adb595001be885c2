/-
  The signature validator (`_dbus_validate_signature_with_reason` of
  `dbus-marshal-validate.c`).

  `sigStep` is the body of its loop, cut at its four stages: the `switch`, the element count,
  the array depth with its look at the next byte, and the dict key.  `sigStep_iff` says what
  one iteration can do; everything about the validator is derived from it.
-/
import DBus.String

namespace DBus

open Outcome Memory TypeCode

/-- The variables of the validator's loop.  The head of `elementCountStack` is
    the end of the C list. -/
structure SigState where
  last : TypeCode
  structDepth : ℕ
  arrayDepth : ℕ
  dictEntryDepth : ℕ
  elementCountStack : List ℕ
deriving DecidableEq, Repr

def SigState.init : SigState := ⟨.invalid, 0, 0, 0, [0]⟩

/-- `_dbus_list_pop_last`, with what it returns. -/
def SigState.pop (st : SigState) : ℕ × SigState :=
  (st.elementCountStack.headD 0, { st with elementCountStack := st.elementCountStack.tail })

/-- `_dbus_list_append` -/
def SigState.push (st : SigState) (n : ℕ) : SigState :=
  { st with elementCountStack := n :: st.elementCountStack }

/-- The code returned for a dict entry that does not have two fields. -/
def elementCountValidity (elementCount : ℕ) : DBusValidity :=
  if elementCount = 0 then .invalidDictEntryHasNoFields
  else if elementCount = 1 then .invalidDictEntryHasOnlyOneField
  else .invalidDictEntryHasTooManyFields

theorem elementCountValidity_ne (n : ℕ) : elementCountValidity n ≠ .valid := by
  unfold elementCountValidity
  split
  · decide
  · split <;> decide

/-- The `switch` on the current byte. -/
def sigSwitch (st : SigState) : TypeCode → Res SigState
  | .basic _ | .variant => return st
  | .array => do
    let st := { st with arrayDepth := st.arrayDepth + 1 }
    require (st.arrayDepth ≤ maximumTypeRecursionDepth) .invalidExceededMaximumArrayRecursion
    return st
  | .beginChar .struct => do
    let st := { st with structDepth := st.structDepth + 1 }
    require (st.structDepth ≤ maximumTypeRecursionDepth) .invalidExceededMaximumStructRecursion
    return st.push 0
  | .endChar .struct => do
    require (st.structDepth ≠ 0) .invalidStructEndedButNotStarted
    require (st.last ≠ .beginChar .struct) .invalidStructHasNoFields
    let (_, st) := st.pop
    return { st with structDepth := st.structDepth - 1 }
  | .beginChar .dictEntry => do
    require (st.last = .array) .invalidDictEntryNotInsideArray
    let st := { st with dictEntryDepth := st.dictEntryDepth + 1 }
    require (st.dictEntryDepth ≤ maximumTypeRecursionDepth)
      .invalidExceededMaximumDictEntryRecursion
    return st.push 0
  | .endChar .dictEntry => do
    require (st.dictEntryDepth ≠ 0) .invalidDictEntryEndedButNotStarted
    let st := { st with dictEntryDepth := st.dictEntryDepth - 1 }
    let (elementCount, st) := st.pop
    require (elementCount = 2) (elementCountValidity elementCount) (elementCountValidity_ne _)
    return st
  | .invalid | .struct _ | .unknown _ => reject .invalidUnknownTypecode

/-- Count the element that the current byte completes. -/
def sigCount (st : SigState) : TypeCode → SigState
  | .array | .beginChar _ => st
  | _ => let (elementCount, st) := st.pop; st.push (elementCount + 1)

section
variable (next : Res UInt8) (st : SigState)

/-- The array depth: an array must not be followed by a closing bracket, and
    any other byte ends the run of arrays.  `next` is the read of `p[1]`. -/
def sigArrays (t : TypeCode) : Res SigState :=
  if st.arrayDepth > 0 then
    if t = .array then do
      let p1 ← next
      require (ofByte p1 ≠ .endChar .struct ∧ ofByte p1 ≠ .endChar .dictEntry)
        .invalidMissingArrayElementType
      return st
    else return { st with arrayDepth := 0 }
  else return st

/-- One iteration of the loop on the byte `c`. -/
def sigStep (c : UInt8) : Res SigState := do
  let t := ofByte c
  let st ← sigSwitch st t
  let st := sigCount st t
  let st ← sigArrays next st t
  require (¬ (st.last = .beginChar .dictEntry ∧ t.isValid = true ∧ t.isBasic = false))
    .invalidDictKeyMustBeBasicType
  return { st with last := t }

end

/-- The loop, with the number of bytes before `end`. -/
def sigLoop (s : DBusString) : ℕ → ℕ → SigState → Res SigState
  | 0, _, st => return st
  | n + 1, p, st => do
    let c ← s.deref p
    let st ← sigStep (s.deref (p + 1)) st c
    sigLoop s n (p + 1) st

def sigFinish (st : SigState) : Res Unit := do
  require (st.arrayDepth = 0) .invalidMissingArrayElementType
  require (st.structDepth = 0) .invalidStructStartedButNotEnded
  require (st.dictEntryDepth = 0) .invalidDictEntryStartedButNotEnded
  assert (st.last ≠ .array)
  assert (st.last ≠ .beginChar .struct)
  assert (st.last ≠ .beginChar .dictEntry)

section
variable (s : DBusString) (typePos len : ℕ)

/-- The body of `_dbus_validate_signature_with_reason`; returning normally is
    returning `DBUS_VALID`. -/
def validateSignature : Res Unit := do
  assert (typePos < 2147483647 - len)
  require (len ≤ maximumSignatureLength) .invalidSignatureTooLong
  s.getConstDataLen typePos 0
  s.getConstDataLen (typePos + len) 0
  let st ← sigLoop s len typePos .init
  sigFinish st

/-- `_dbus_validate_signature_with_reason` -/
def validateSignatureWithReason : Res DBusValidity :=
  (validateSignature s typePos len).validity

end

/-! ## One iteration -/

/-- The stack after the current element has been counted. -/
def SigState.counted (st : SigState) : List ℕ :=
  (st.elementCountStack.headD 0 + 1) :: st.elementCountStack.tail

/-- What one iteration does on a byte of class `t` that is followed by one of class `d`. -/
inductive SigStep (d : TypeCode) (st : SigState) : TypeCode → SigState → Prop
  | basic (b : BasicType) :
    SigStep d st (.basic b)
      ⟨.basic b, st.structDepth, 0, st.dictEntryDepth, st.counted⟩
  | variant : st.last ≠ .beginChar .dictEntry →
    SigStep d st .variant
      ⟨.variant, st.structDepth, 0, st.dictEntryDepth, st.counted⟩
  | array : st.arrayDepth < maximumTypeRecursionDepth → (∀ k, d ≠ .endChar k) →
    st.last ≠ .beginChar .dictEntry →
    SigStep d st .array
      ⟨.array, st.structDepth, st.arrayDepth + 1, st.dictEntryDepth, st.elementCountStack⟩
  | beginStruct : st.structDepth < maximumTypeRecursionDepth →
    SigStep d st (.beginChar .struct)
      ⟨.beginChar .struct, st.structDepth + 1, 0, st.dictEntryDepth, 0 :: st.elementCountStack⟩
  | endStruct : st.structDepth ≠ 0 → st.last ≠ .beginChar .struct →
    SigStep d st (.endChar .struct)
      ⟨.endChar .struct, st.structDepth - 1, 0, st.dictEntryDepth, st.pop.2.counted⟩
  | beginDict : st.last = .array → st.dictEntryDepth < maximumTypeRecursionDepth →
    SigStep d st (.beginChar .dictEntry)
      ⟨.beginChar .dictEntry, st.structDepth, 0, st.dictEntryDepth + 1, 0 :: st.elementCountStack⟩
  | endDict : st.dictEntryDepth ≠ 0 → st.elementCountStack.headD 0 = 2 →
    SigStep d st (.endChar .dictEntry)
      ⟨.endChar .dictEntry, st.structDepth, 0, st.dictEntryDepth - 1, st.pop.2.counted⟩

variable {st : SigState} {t : TypeCode} {st' : SigState} {cs : List UInt8} {s : DBusString}
  {x : UInt8}

theorem sigArrays_of_ne {next : Res UInt8} (h : t ≠ .array) :
    sigArrays next st t = .ok { st with arrayDepth := 0 } := by
  unfold sigArrays
  by_cases hd : st.arrayDepth > 0
  · rw [if_pos hd, if_neg h]; rfl
  · have h0 : st.arrayDepth = 0 := by omega
    rw [if_neg hd]
    cases st; cases h0; rfl

theorem sigArrays_array {d : UInt8} (hd : 0 < st.arrayDepth) :
    sigArrays (.ok d) st .array = .ok st' ↔ (∀ k, ofByte d ≠ .endChar k) ∧ st = st' := by
  have hk : (∀ k, ofByte d ≠ .endChar k) ↔
      ofByte d ≠ .endChar .struct ∧ ofByte d ≠ .endChar .dictEntry :=
    ⟨fun h => ⟨h _, h _⟩, fun h k => by cases k; exacts [h.1, h.2]⟩
  rw [sigArrays, if_pos hd, if_pos rfl, hk]
  simp only [ok_bind, bind_eq_ok, require_eq_ok, exists_const, pure_eq_ok, Except.ok.injEq]

theorem SigStep.of_sigStep {d c : UInt8} (h : sigStep (.ok d) st c = .ok st') :
    SigStep (.ofByte d) st (.ofByte c) st' := by
  unfold sigStep at h
  generalize ofByte c = t at h ⊢
  simp only [bind_eq_ok, require_eq_ok, exists_const, pure_eq_ok, Except.ok.injEq] at h
  obtain ⟨st1, h1, st2, h2, hk, rfl⟩ := h
  -- the classes other than an array share the reset of the array depth
  have hne : t ≠ .array → st2 = { sigCount st1 t with arrayDepth := 0 } := fun ht => by
    rw [sigArrays_of_ne ht] at h2; exact (Except.ok.inj h2).symm
  rcases t with _ | b | _ | _ | k | (_ | _) | (_ | _) | u <;>
    simp only [sigSwitch, reject, bind_eq_ok, require_eq_ok, exists_const, pure_eq_ok,
      Except.ok.injEq, reduceCtorEq] at h1
  · subst h1
    obtain rfl := hne (by simp)
    exact .basic b
  · subst h1
    obtain rfl := hne (by simp)
    exact .variant fun hl => hk ⟨hl, rfl, rfl⟩
  · obtain ⟨hd, rfl⟩ := h1
    obtain ⟨hn, rfl⟩ := (sigArrays_array (Nat.succ_pos _)).1 h2
    exact .array hd hn fun hl => hk ⟨hl, rfl, rfl⟩
  · obtain ⟨hd, rfl⟩ := h1
    obtain rfl := hne (by simp)
    exact .beginStruct hd
  · obtain ⟨hl, hd, rfl⟩ := h1
    obtain rfl := hne (by simp)
    exact .beginDict hl hd
  · obtain ⟨hd, hl, rfl⟩ := h1
    obtain rfl := hne (by simp)
    exact .endStruct hd hl
  · obtain ⟨hd, hc, rfl⟩ := h1
    obtain rfl := hne (by simp)
    exact .endDict hd hc

theorem SigStep.sigStep {d c : UInt8} (h : SigStep (.ofByte d) st (.ofByte c) st') :
    sigStep (.ok d) st c = .ok st' := by
  unfold DBus.sigStep
  generalize ofByte c = t at h ⊢
  simp only [bind_eq_ok, require_eq_ok, exists_const, pure_eq_ok, Except.ok.injEq]
  cases h with
  | basic b => exact ⟨st, rfl, _, sigArrays_of_ne nofun, by simp [isBasic,
      isValid, isContainer], rfl⟩
  | variant hl => exact ⟨st, rfl, _, sigArrays_of_ne nofun, fun h => hl h.1, rfl⟩
  | array hd hn hl =>
    refine ⟨{ st with arrayDepth := st.arrayDepth + 1 }, ?_, _,
      (sigArrays_array (Nat.succ_pos _)).2 ⟨hn, rfl⟩, fun h => hl h.1, rfl⟩
    simp only [sigSwitch, require_of (Nat.succ_le_of_lt hd), ok_bind, pure_eq_ok]
  | beginStruct hd =>
    refine ⟨{ st with structDepth := st.structDepth + 1 }.push 0, ?_, _, sigArrays_of_ne nofun,
      nofun, rfl⟩
    simp only [sigSwitch, require_of (Nat.succ_le_of_lt hd), ok_bind, pure_eq_ok]
  | endStruct hd hl =>
    refine ⟨{ st.pop.2 with structDepth := st.structDepth - 1 }, ?_, _, sigArrays_of_ne nofun,
      nofun, rfl⟩
    simp only [sigSwitch, require_of hd, require_of hl, ok_bind, pure_eq_ok]
    rfl
  | beginDict hl hd =>
    refine ⟨{ st with dictEntryDepth := st.dictEntryDepth + 1 }.push 0, ?_, _,
      sigArrays_of_ne nofun, nofun, rfl⟩
    simp only [sigSwitch, require_of hl, require_of (Nat.succ_le_of_lt hd), ok_bind, pure_eq_ok]
  | endDict hd hc =>
    refine ⟨{ st.pop.2 with dictEntryDepth := st.dictEntryDepth - 1 }, ?_, _,
      sigArrays_of_ne nofun, nofun, rfl⟩
    simp only [sigSwitch, require_of hd, ok_bind, pure_eq_ok]
    exact bind_eq_ok.2 ⟨(), require_of hc, rfl⟩

theorem sigStep_iff {d c : UInt8} :
    sigStep (.ok d) st c = .ok st' ↔ SigStep (.ofByte d) st (.ofByte c) st' :=
  ⟨SigStep.of_sigStep, SigStep.sigStep⟩

/-! ## Whole runs -/

/-- The loop over the bytes of a list that the byte `x` follows. -/
def sigRun (x : UInt8) : List UInt8 → SigState → Res SigState
  | [], st => return st
  | c :: cs, st => do
    let st ← sigStep (.ok (cs.headD x)) st c
    sigRun x cs st

theorem sigLoop_eq_sigRun {p : ℕ} (h : Holds s.str p (cs ++ [x])) :
    sigLoop s cs.length p st = sigRun x cs st := by
  induction cs generalizing p st with
  | nil => rfl
  | cons c cs ih =>
    have hc := holds_cons.1 h
    have hnx : s.str (p + 1) = some (cs.headD x) := by
      cases cs with
      | nil | cons d cs => exact (holds_cons.1 hc.2).1
    simp only [List.length_cons, sigLoop, sigRun, DBusString.deref_eq_ok.2 hc.1,
      DBusString.deref_eq_ok.2 hnx, ok_bind, ih hc.2]

theorem sigRun_cons {c : UInt8} : sigRun x (c :: cs) st = .ok st' ↔
      ∃ st1, SigStep (.ofByte (cs.headD x)) st (.ofByte c) st1 ∧ sigRun x cs st1 = .ok st' := by
  simp only [sigRun, bind_eq_ok, sigStep_iff]

theorem sigRun_append {as bs : List UInt8} : sigRun x (as ++ bs) st = .ok st' ↔
      ∃ st1, sigRun (bs.headD x) as st = .ok st1 ∧ sigRun x bs st1 = .ok st' := by
  induction as generalizing st with
  | nil => simp [sigRun]
  | cons c as ih =>
    have hh : (as ++ bs).headD x = as.headD (bs.headD x) := by cases as <;> rfl
    simp only [List.cons_append, sigRun_cons, ih, hh]
    constructor
    · rintro ⟨st2, h2, st1, h1, h⟩
      exact ⟨st1, ⟨st2, h2, h1⟩, h⟩
    · rintro ⟨st1, ⟨st2, h2, h1⟩, h⟩
      exact ⟨st2, h2, st1, h1, h⟩

theorem sigRun_step {st1 : SigState} (ht : ofByte t.toByte = t)
    (h : SigStep (.ofByte (cs.headD x)) st t st1) :
    sigRun x (t.toByte :: cs) st = sigRun x cs st1 := by
  rw [sigRun, SigStep.sigStep (ht.symm ▸ h), ok_bind]

theorem sigFinish_eq_ok : sigFinish st = .ok () ↔
      (st.arrayDepth = 0 ∧ st.structDepth = 0 ∧ st.dictEntryDepth = 0) ∧
        st.last ≠ .array ∧ ∀ k, st.last ≠ .beginChar k := by
  simp only [sigFinish, bind_eq_ok, require_eq_ok, assert_eq_ok, exists_const]
  constructor
  · rintro ⟨ha, hs, hd, hl, hb, he⟩
    exact ⟨⟨ha, hs, hd⟩, hl, fun k => by cases k; exacts [hb, he]⟩
  · rintro ⟨⟨ha, hs, hd⟩, hl, hk⟩
    exact ⟨ha, hs, hd, hl, hk _, hk _⟩

/-- A list of bytes that the validator accepts when a NUL follows it. -/
structure ValidSignature (cs : List UInt8) : Prop where
  length_le : cs.length ≤ maximumSignatureLength
  run : ∃ st, sigRun 0 cs .init = .ok st ∧ sigFinish st = .ok ()

theorem ValidSignature.zero_notMem (h : ValidSignature cs) : 0 ∉ cs := by
  intro hm
  obtain ⟨pre, post, rfl⟩ := List.append_of_mem hm
  obtain ⟨st, hr, -⟩ := h.run
  obtain ⟨st1, -, hp⟩ := sigRun_append.1 hr
  obtain ⟨st2, hs, -⟩ := sigRun_cons.1 hp
  cases hs

theorem validateSignature_iff {p : ℕ} (hp : p < 2147483647 - cs.length)
    (hl : p + cs.length ≤ s.len) (h : Holds s.str p (cs ++ [0])) :
    validateSignature s p cs.length = .ok () ↔ ValidSignature cs := by
  have h1 : p ≤ s.len := by omega
  simp only [validateSignature, DBusString.getConstDataLen, bind_eq_ok, assert_eq_ok,
    require_eq_ok, exists_const, sigLoop_eq_sigRun h]
  constructor
  · rintro ⟨-, hle, -, -, hrn⟩
    exact ⟨hle, hrn⟩
  · rintro ⟨hle, hrn⟩
    exact ⟨hp, hle, ⟨h1, Nat.zero_le _⟩, ⟨hl, Nat.zero_le _⟩, hrn⟩

end DBus
