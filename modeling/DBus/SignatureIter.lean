/-
  The public iterator over signatures (`DBusSignatureIter` of `dbus-signature.c`).

  The iterator has no end: it looks at the character behind a type, and at two flags.  A
  walk over a printed signature finds exactly the trees it was printed from, whatever
  containers they are in (`signatureIter_exact`).
-/
import DBus.Reader.Iterate

namespace DBus

open Outcome Memory Ty List

/-- `DBusSignatureRealIter`; `pos` is relative to the start of the signature. -/
structure DBusSignatureIter where
  signature : DBusString
  pos : ℕ
  finished : Bool
  inArray : Bool

/-- `_dbus_first_type_in_signature_c_str` -/
def firstTypeInSignatureCStr (s : DBusString) (pos : ℕ) : Res TypeCode := do
  let c ← s.deref pos
  mapTypeCharToType (.ofByte c)

namespace DBusSignatureIter

/-- `dbus_signature_iter_init` -/
def init (signature : DBusString) : DBusSignatureIter := ⟨signature, 0, false, false⟩

section
variable (iter : DBusSignatureIter)

def getCurrentType : Res TypeCode := firstTypeInSignatureCStr iter.signature iter.pos

/-- `dbus_signature_iter_get_signature`, with memory for the copy -/
def getSignature : Res (List UInt8) := do
  let pos ← typeSignatureNext iter.signature iter.pos
  valueOr .outside (readN iter.signature.str iter.pos (pos - iter.pos))

def getElementType : Res TypeCode := do
  let t ← iter.getCurrentType
  if t = .array then firstTypeInSignatureCStr iter.signature (iter.pos + 1) else return .invalid

/-- `dbus_signature_iter_next`: what it returns, and the iterator -/
def next : Res (Bool × DBusSignatureIter) :=
  if iter.finished then return (false, iter)
  else if iter.inArray then return (false, { iter with finished := true })
  else do
    let pos ← typeSignatureNext iter.signature iter.pos
    let c ← iter.signature.deref pos
    if TypeCode.ofByte c = .endChar .struct ∨ TypeCode.ofByte c = .endChar .dictEntry then
      return (false, { iter with pos := pos, finished := true })
    else return (c != 0, { iter with pos := pos })

def recurse : Res DBusSignatureIter := do
  let t ← iter.getCurrentType
  assert (t.isContainer = true)
  return { iter with pos := iter.pos + 1, inArray := t = .array }

end

end DBusSignatureIter

/-- `dbus_signature_validate_single` -/
def signatureValidateSingle (signature : DBusString) : Res Bool := do
  let reason ← validateSignatureWithReason signature 0 signature.len
  if reason ≠ .valid then return false
  else do
    let iter := DBusSignatureIter.init signature
    let t ← iter.getCurrentType
    if t = .invalid then return false
    else do
      let (more, _) ← iter.next
      return !more

/-! ## Walks -/

/-- The iterator is at the first character of the tree. -/
def DBusSignatureIter.At (iter : DBusSignatureIter) (t : Ty) : Prop :=
  iter.getCurrentType = .ok t.code ∧ iter.getSignature = .ok t.sig

mutual
/-- The iterator is at the tree, and walks into it meet its parts. -/
def Visits : Ty → DBusSignatureIter → Prop
  | .array e, iter => iter.At (.array e) ∧ iter.getElementType = .ok e.code ∧
      ∃ sub, iter.recurse = .ok sub ∧ Visits e sub ∧ ∃ sub', sub.next = .ok (false, sub')
  | .struct k fs, iter => iter.At (.struct k fs) ∧ ∃ sub, iter.recurse = .ok sub ∧ VisitsAll fs sub
  | t, iter => iter.At t
/-- The iterator meets one tree after the other, and `next` returns `FALSE` at the last. -/
def VisitsAll : List Ty → DBusSignatureIter → Prop
  | [], _ => True
  | t :: ts, iter => Visits t iter ∧ ∃ iter', iter.next = .ok (!ts.isEmpty, iter') ∧ VisitsAll ts iter'
end

section
variable {iter : DBusSignatureIter} {s : DBusString} {p : ℕ} {c : UInt8} {rest : List UInt8} {t : Ty}

theorem firstTypeInSignatureCStr_sig (h : TextAt s p (t.sig ++ rest)) :
    firstTypeInSignatureCStr s p = .ok t.code := by
  obtain ⟨c, cs, hc, -⟩ := t.sig_eq_cons
  rw [← firstTypeInSignature_sig h, firstTypeInSignatureCStr, firstTypeInSignature]
  rw [hc] at h
  rw [h.deref, h.getByte]

section
variable (h : TextAt iter.signature iter.pos (t.sig ++ rest))
include h

theorem iter_at : iter.At t := by
  have hrd : readN iter.signature.str iter.pos t.sig.length = some t.sig :=
    readN_eq_some.2 ⟨rfl, (holds_append.1 h.holds).1⟩
  refine ⟨firstTypeInSignatureCStr_sig h, ?_⟩
  rw [DBusSignatureIter.getSignature, typeSignatureNext_sig h, ok_bind, Nat.add_sub_cancel_left, hrd]
  rfl

theorem iter_recurse (ht : t.code.isContainer = true) :
    iter.recurse = .ok { iter with pos := iter.pos + 1, inArray := t.code = .array } := by
  rw [DBusSignatureIter.recurse, (iter_at h).1, ok_bind, assert_bind ht]
  rfl

end

/-- The character behind the last type of a level. -/
def EndsLevel (c : UInt8) : Prop := c = 0 ∨ ∃ k, TypeCode.ofByte c = .endChar k

theorem iter_next (hf : iter.finished = false) (ha : iter.inArray = false)
    (h : TextAt iter.signature iter.pos (t.sig ++ c :: rest)) :
    ∃ more b, iter.next = .ok (more, { iter with pos := iter.pos + t.sig.length, finished := b }) ∧
      (more = true ↔ ¬ EndsLevel c) ∧ (more = true → b = false) := by
  rw [DBusSignatureIter.next, hf, ha, typeSignatureNext_sig h, ok_bind, h.right.deref, ok_bind,
    if_neg (by simp), if_neg (by simp)]
  split
  · next hend =>
    have hl : EndsLevel c := .inr (hend.elim (⟨_, ·⟩) (⟨_, ·⟩))
    exact ⟨false, true, rfl, by simpa using hl, by simp⟩
  · next hend =>
    refine ⟨c != 0, false, rfl, ?_, fun _ => rfl⟩
    rw [bne_iff_ne, EndsLevel, not_or, Iff.comm, and_iff_left_iff_imp]
    rintro - ⟨k, hk⟩
    cases k <;> simp [hk] at hend

/-- Behind a type there is another one of the level, or the level ends. -/
theorem endsLevel_iff {ts : List Ty} (hc : EndsLevel c) {c' : UInt8} {rest' : List UInt8}
    (h : sigList ts ++ c :: rest = c' :: rest') : EndsLevel c' ↔ ts = [] := by
  cases ts with
  | nil =>
    obtain ⟨rfl, -⟩ := List.cons.inj h
    exact iff_of_true hc rfl
  | cons u us =>
    obtain ⟨d, ds, hd, hend⟩ := u.sig_eq_cons
    have hcd : TypeCode.ofByte (u.sig.headD 0) ≠ .invalid := by cases u <;> simp [sig]
    rw [sigList_cons, hd] at h
    rw [hd] at hcd
    obtain ⟨rfl, -⟩ := List.cons.inj h
    refine iff_of_false ?_ (by simp)
    rintro (rfl | ⟨k, hk⟩)
    · exact hcd rfl
    · exact hend k hk

mutual
theorem visits : ∀ (t : Ty) {iter : DBusSignatureIter} {rest : List UInt8}, iter.finished = false →
    TextAt iter.signature iter.pos (t.sig ++ rest) → Visits t iter
  | .basic _, _, _, _, h | .variant, _, _, _, h => iter_at h
  | .array e, iter, rest, hf, h => by
    have hel : TextAt iter.signature (iter.pos + 1) (e.sig ++ rest) := h.tail
    refine ⟨iter_at h, ?_, _, iter_recurse h rfl, visits e hf hel, _, by
      rw [DBusSignatureIter.next, hf]; rfl⟩
    rw [DBusSignatureIter.getElementType, (iter_at h).1]
    exact firstTypeInSignatureCStr_sig hel
  | .struct k fs, iter, rest, hf, h => by
    have hfl : TextAt iter.signature (iter.pos + 1) (sigList fs ++ (TypeCode.endChar k).toByte ::
        rest) := by
      rw [sig, cons_append, append_assoc] at h
      exact h.tail
    exact ⟨iter_at h, _, iter_recurse h rfl, visitsAll fs hf rfl (.inr ⟨k, by simp⟩) hfl⟩
theorem visitsAll : ∀ (ts : List Ty) {iter : DBusSignatureIter} {c : UInt8} {rest : List UInt8},
    iter.finished = false → iter.inArray = false → EndsLevel c →
    TextAt iter.signature iter.pos (sigList ts ++ c :: rest) → VisitsAll ts iter
  | [], _, _, _, _, _, _, _ => trivial
  | t :: ts, iter, c, rest, hf, ha, hc, h => by
    rw [sigList_cons, append_assoc] at h
    have hrs := h.right
    obtain ⟨c', rest', heq⟩ := exists_cons_of_ne_nil (l := sigList ts ++ c :: rest) (by simp)
    rw [heq] at h
    obtain ⟨more, b, hnx, hm, hb⟩ := iter_next hf ha h
    have hl : more = !ts.isEmpty := by
      rw [Bool.eq_iff_iff, hm, endsLevel_iff hc heq]
      simp
    refine ⟨visits t hf h, _, hl ▸ hnx, ?_⟩
    rcases eq_or_ne ts [] with rfl | hne
    · trivial
    · exact visitsAll ts (hb (by simpa [hl] using hne)) ha hc hrs
end

/-- **The iterator is exact**: a walk over the signature of a list of trees visits these
    trees, and the signature is accepted as a single type if there is one tree. -/
theorem signatureIter_exact (ts : List Ty) (h : Grammatical ts) :
    VisitsAll ts (.init (.ofBytes (sigList ts))) ∧
      ((DBusSignatureIter.init (.ofBytes (sigList ts))).getCurrentType = .ok .invalid ↔ ts = []) ∧
      signatureValidateSingle (.ofBytes (sigList ts)) = .ok (decide (ts.length = 1)) := by
  have hvs : VisitsAll ts (.init (.ofBytes (sigList ts))) :=
    visitsAll ts rfl rfl (.inl rfl) (textAt_ofBytes _)
  have hvl : validateSignatureWithReason (.ofBytes (sigList ts)) 0
      (DBusString.ofBytes (sigList ts)).len = .ok .valid := signatureAccepted_iff.2 h.validSignature
  rw [signatureValidateSingle, hvl, ok_bind, if_neg (by simp)]
  refine ⟨hvs, ?_⟩
  cases ts with
  | nil => exact ⟨by simp; rfl, rfl⟩
  | cons t ts =>
    have hcr : (DBusSignatureIter.init (.ofBytes (sigList (t :: ts)))).getCurrentType = .ok t.code := by
      have htx := textAt_ofBytes (sigList (t :: ts))
      rw [sigList_cons, append_assoc] at htx
      exact (iter_at htx).1
    have hne : t.code ≠ .invalid := by cases t <;> simp [code]
    obtain ⟨-, iter, hnx, -⟩ := hvs
    dsimp only
    rw [hcr, ok_bind, if_neg hne, hnx]
    refine ⟨by simpa using hne, ?_⟩
    cases ts <;> rfl

end

/-- A dictionary and a struct. -/
theorem sampleTypes_exact : VisitsAll sampleTypes (.init (.ofBytes (sigList sampleTypes))) :=
  (signatureIter_exact sampleTypes sampleTypes_grammatical).1

end DBus
