/-
  The types-only reader on the text of a type.

  `TextAt s p cs` says that the string `s` holds the text `cs` at `p`, within its length and
  the NUL behind it.  On the text of a type tree the functions of the reader do what the tree
  suggests.
-/
import DBus.Reader.Defs
import DBus.Types

namespace DBus

open Outcome Memory List Ty TypeCode

/-- The string holds the text `cs` at `p`. -/
structure TextAt (s : DBusString) (p : ℕ) (cs : List UInt8) : Prop where
  holds : Holds s.str p cs
  le : p + cs.length ≤ s.len + 1

variable {s : DBusString} {c : UInt8}

section
variable {p : ℕ} {cs ds : List UInt8}

theorem TextAt.right (h : TextAt s p (cs ++ ds)) : TextAt s (p + cs.length) ds :=
  ⟨(holds_append.1 h.holds).2, by have := h.le; rw [length_append] at this; omega⟩

section
variable (h : TextAt s p (c :: cs))
include h

theorem TextAt.head : s.str p = some c := (holds_cons.1 h.holds).1

theorem TextAt.head_le : p ≤ s.len := by
  have := h.le; rw [length_cons] at this; omega

theorem TextAt.tail : TextAt s (p + 1) cs :=
  ⟨(holds_cons.1 h.holds).2, by have := h.le; rw [length_cons] at this; omega⟩

theorem TextAt.getByte : s.getByte p = .ok c := DBusString.getByte_of h.head_le h.head

theorem TextAt.deref : s.deref p = .ok c := DBusString.deref_eq_ok.2 h.head

end

theorem textAt_ofBytes (bs : List UInt8) : TextAt (.ofBytes bs) 0 (bs ++ [0]) :=
  ⟨holds_ofBytes bs, by simp [DBusString.ofBytes]⟩

end

/-! ## The first type of a text -/

theorem firstTypeInSignature_text {p : ℕ} {cs : List UInt8}
    (h : TextAt s p (c :: cs)) : firstTypeInSignature s p = mapTypeCharToType (.ofByte c) := by
  rw [firstTypeInSignature, h.getByte, ok_bind]

section
variable {rest : List UInt8} {t : Ty} {p : ℕ} (h : TextAt s p (t.sig ++ rest))
include h

theorem firstTypeInSignature_sig : firstTypeInSignature s p = .ok t.code := by
  cases t with
  | basic b =>
    rw [sig, singleton_append] at h
    rw [firstTypeInSignature_text h, ofByte_basic]; rfl
  | variant =>
    rw [sig, singleton_append] at h
    rw [firstTypeInSignature_text h]; rfl
  | array e =>
    rw [sig, cons_append] at h
    rw [firstTypeInSignature_text h]; rfl
  | struct k fs =>
    rw [sig, cons_append] at h
    rw [firstTypeInSignature_text h, ofByte_beginChar]; rfl

theorem elementTypeGetAlignment_sig : elementTypeGetAlignment s p = .ok t.alignment := by
  rw [elementTypeGetAlignment, firstTypeInSignature_sig h, ok_bind, getAlignment_code]

end

/-! ## Skipping a complete type -/

def NonNul (s : DBusString) (p : ℕ) : Prop := ∃ c, s.str p = some c ∧ ofByte c ≠ .invalid

section
variable {k : StructKind}

theorem skipBrackets_succ {n depth p : ℕ} (h0 : NonNul s p) (h1 : s.str (p + 1) = some c)
    (hc : ofByte c ≠ .invalid) : skipBrackets s k (n + 1) depth p =
      if ofByte c = .beginChar k then skipBrackets s k n (depth + 1) (p + 1)
      else if ofByte c = .endChar k then
        if depth - 1 = 0 then .ok (p + 2) else skipBrackets s k n (depth - 1) (p + 1)
      else skipBrackets s k n depth (p + 1) := by
  obtain ⟨c0, hp, hc0⟩ := h0
  simp [skipBrackets, DBusString.deref_eq_ok.2 hp, ok_bind, assert_bind hc0,
    DBusString.deref_eq_ok.2 h1, ok_bind, assert_bind hc]

theorem skipBrackets_other {n d p : ℕ} {t : TypeCode} (ht : ofByte t.toByte = t)
    (h0 : NonNul s p) (h1 : s.str (p + 1) = some t.toByte) (hi : t ≠ .invalid)
    (hb : t ≠ .beginChar k) (he : t ≠ .endChar k) :
    skipBrackets s k (n + 1) d p = skipBrackets s k n d (p + 1) ∧ NonNul s (p + 1) := by
  refine ⟨?_, t.toByte, h1, by rwa [ht]⟩
  rw [skipBrackets_succ h0 h1 (by rwa [ht]), ht, if_neg hb, if_neg he]

mutual
theorem skipBrackets_sig : ∀ (t : Ty) (k : StructKind) (n : ℕ) {d p : ℕ}, 0 < d → NonNul s p →
    Holds s.str (p + 1) t.sig →
    skipBrackets s k (t.sig.length + n) d p = skipBrackets s k n d (p + t.sig.length) ∧
      NonNul s (p + t.sig.length)
  | .basic b, k, n, d, p, _, h0, h => by
    rw [sig, length_singleton, Nat.add_comm]
    exact skipBrackets_other (ofByte_basic b) h0 (holds_cons.1 h).1 nofun nofun nofun
  | .variant, k, n, d, p, _, h0, h => by
    rw [sig, length_singleton, Nat.add_comm]
    exact skipBrackets_other rfl h0 (holds_cons.1 h).1 nofun nofun nofun
  | .array e, k, n, d, p, hd, h0, h => by
    rw [sig, holds_cons] at h
    obtain ⟨h1, hn⟩ := skipBrackets_other (k := k) (n := e.sig.length + n) (d := d)
      (t := .array) rfl h0 h.1 nofun nofun nofun
    rw [sig, length_cons, show e.sig.length + 1 + n = e.sig.length + n + 1 by omega, h1,
      show p + (e.sig.length + 1) = p + 1 + e.sig.length by omega]
    exact skipBrackets_sig e k n hd hn h.2
  | .struct k' fs, k, n, d, p, hd, h0, h => by
    rw [sig, holds_cons, holds_append, holds_cons] at h
    obtain ⟨hb, hfs, he, -⟩ := h
    have hlen : (struct k' fs).sig.length = (sigList fs).length + 2 := by simp [sig]
    have hend : ∀ q, q = p + 1 + (sigList fs).length →
        s.str (q + 1) = some (toByte (.endChar k')) := fun q hq => by
      rw [hq, show p + 1 + (sigList fs).length + 1 = p + 1 + 1 + (sigList fs).length by omega]
      exact he
    have hn1 : NonNul s (p + 1) := ⟨_, hb, by simp⟩
    rw [hlen, show (sigList fs).length + 2 + n = (sigList fs).length + (n + 1) + 1 by omega,
      show p + ((sigList fs).length + 2) = p + 1 + (sigList fs).length + 1 by omega]
    by_cases hk : k' = k
    · -- a container of the same kind: one more is open while its fields are skipped
      subst hk
      obtain ⟨h2, hn2⟩ := skipBrackets_sigList fs _ (n + 1) (Nat.succ_pos d) hn1 hfs
      refine ⟨?_, _, hend _ rfl, by simp⟩
      rw [skipBrackets_succ h0 hb (by simp), ofByte_beginChar, if_pos rfl, h2,
        skipBrackets_succ hn2 (hend _ rfl) (by simp), ofByte_endChar, if_neg nofun,
        if_pos rfl, Nat.succ_sub_one, if_neg (by omega)]
    · obtain ⟨h2, hn2⟩ := skipBrackets_sigList fs _ (n + 1) hd hn1 hfs
      obtain ⟨h1, -⟩ := skipBrackets_other (k := k) (n := (sigList fs).length + (n + 1))
        (d := d) (t := .beginChar k') (by simp) h0 hb nofun (by simp [hk]) nofun
      obtain ⟨h3, hn3⟩ := skipBrackets_other (k := k) (n := n) (d := d)
        (t := .endChar k') (by simp) hn2 (hend _ rfl) nofun nofun (by simp [hk])
      exact ⟨by rw [h1, h2, h3], hn3⟩
theorem skipBrackets_sigList : ∀ (ts : List Ty) (k : StructKind) (n : ℕ) {d p : ℕ}, 0 < d → NonNul s p →
    Holds s.str (p + 1) (sigList ts) →
    skipBrackets s k ((sigList ts).length + n) d p =
        skipBrackets s k n d (p + (sigList ts).length) ∧
      NonNul s (p + (sigList ts).length)
  | [], k, n, d, p, _, h0, _ => by simpa using h0
  | t :: ts, k, n, d, p, hd, h0, h => by
    rw [sigList_cons, holds_append] at h
    obtain ⟨h1, hn⟩ := skipBrackets_sig t k ((sigList ts).length + n) hd h0 h.1
    have h2 := skipBrackets_sigList ts k n hd hn (by
      rw [show p + t.sig.length + 1 = p + 1 + t.sig.length by omega]; exact h.2)
    rw [sigList_cons, length_append, Nat.add_assoc, h1, ← Nat.add_assoc]
    exact h2
end

theorem skipArrayCodes_replicate {n f p : ℕ} {cs : List UInt8} (hf : n < f)
    (h : TextAt s p (.replicate n (toByte .array) ++ c :: cs)) (hc : ofByte c ≠ .array) :
    skipArrayCodes s f p = .ok (p + n) := by
  induction n generalizing f p with
  | zero =>
    obtain _ | f := f
    · omega
    rw [replicate_zero, nil_append] at h
    simp [skipArrayCodes, h.deref, ok_bind, if_neg hc]
  | succ n ih =>
    obtain _ | f := f
    · omega
    rw [replicate_succ, cons_append] at h
    rw [skipArrayCodes, h.deref, ok_bind, ofByte_array, if_pos rfl, ih (by omega) h.tail,
      show p + 1 + n = p + (n + 1) by omega]

theorem typeSignatureNext_sig {t : Ty} {p : ℕ} {rest : List UInt8}
    (h : TextAt s p (t.sig ++ rest)) : typeSignatureNext s p = .ok (p + t.sig.length) := by
  obtain ⟨c0, cs0, hsg, hc0⟩ := t.sig_eq_cons
  obtain ⟨n, b, rfl, hb⟩ := t.exists_wrap
  obtain ⟨c, cs, hbs, hc⟩ := b.sig_eq_cons
  have htx := h
  rw [sig_wrap, append_assoc, hbs, cons_append] at h
  rw [hsg, cons_append] at htx
  have hna : ofByte c ≠ .array := by cases b <;> simp [sig] at hbs hb <;> simp [← hbs.1]
  have hba := h.right
  rw [length_replicate] at hba
  have hf : n < s.len + 1 := by have := hba.head_le; omega
  rw [typeSignatureNext, htx.deref, ok_bind, assert_bind (fun k _ => hc0 k),
    skipArrayCodes_replicate hf h hna, ok_bind, hba.deref, ok_bind, assert_bind (fun k _ => hc k),
    sig_wrap, length_append, length_replicate]
  cases b with
  | basic b =>
    simp only [sig, List.cons.injEq] at hbs
    rw [← hbs.1, ofByte_basic]
    rfl
  | variant =>
    simp only [sig, List.cons.injEq] at hbs
    rw [← hbs.1]
    rfl
  | array e => exact absurd rfl (hb e)
  | struct k fs =>
    simp only [sig, List.cons.injEq] at hbs
    obtain ⟨rfl, rfl⟩ := hbs
    rw [ofByte_beginChar]
    have hfs := (holds_append.1 (holds_append.1 hba.tail.holds).1)
    have hle := hba.tail.le
    simp only [length_append, length_singleton] at hle
    -- the fields, and then the bracket that closes the container
    obtain ⟨h1, hn⟩ := skipBrackets_sigList fs k (s.len - (sigList fs).length + 1) Nat.one_pos
      ⟨_, hba.head, by simp⟩ hfs.1
    rw [show (sigList fs).length + (s.len - (sigList fs).length + 1) = s.len + 1 by omega] at h1
    simp only [h1]
    rw [skipBrackets_succ hn (c := toByte (.endChar k)) ?_ (by simp),
      ofByte_endChar, if_neg nofun, if_pos rfl, if_pos rfl]
    · simp [sig]; omega
    · rw [show p + n + (sigList fs).length + 1 = p + n + 1 + (sigList fs).length by omega]
      exact (holds_cons.1 hfs.2).1

end

/-! ## The current type -/

namespace TypeReader

variable {r : TypeReader} {t : Ty} {rest : List UInt8} {k : StructKind} {c : UInt8} {n : ℕ}

theorem getCurrentType_finished (h : r.finished = true) : r.getCurrentType = .ok .invalid := by
  simp [getCurrentType, atEnd, h, assert_of]

section
variable (hk : r.klass ≠ .array false) (hf : r.finished = false)
include hk hf

theorem atEnd_eq : r.atEnd = .ok false := by
  unfold atEnd checkFinished
  rw [hf, if_neg nofun]
  split
  · exact absurd ‹_› hk
  · rfl

/-- A reader without a `check_finished` method reports the type at its position. -/
theorem getCurrentType_eq {t : TypeCode} (h : firstTypeInSignature r.typeStr r.typePos = .ok t)
    (ht : ∀ k, t ≠ .endChar k ∧ t ≠ .beginChar k) : r.getCurrentType = .ok t := by
  rw [getCurrentType, atEnd_eq hk hf, ok_bind, cond_false, h, ok_bind, assert_of fun k _ => ht k, ok_bind]
  rfl

theorem getCurrentType_sig (h : TextAt r.typeStr r.typePos (t.sig ++ rest)) :
    r.getCurrentType = .ok t.code :=
  getCurrentType_eq hk hf (firstTypeInSignature_sig h) fun k => by cases t <;> exact ⟨nofun, nofun⟩

theorem getCurrentType_nul (h : TextAt r.typeStr r.typePos (0 :: rest)) :
    r.getCurrentType = .ok .invalid :=
  getCurrentType_eq hk hf (firstTypeInSignature_text h) fun _ => ⟨nofun, nofun⟩

end

/-! ## Recursing and skipping -/

/-- The reader with another position in its signature. -/
def moveTo (r : TypeReader) (p : ℕ) (finished : Bool) : TypeReader :=
  { r with typePos := p, finished := finished }

section
variable (p : ℕ) (b : Bool)

@[simp] theorem moveTo_typeStr : (r.moveTo p b).typeStr = r.typeStr := rfl

@[simp] theorem moveTo_typePos : (r.moveTo p b).typePos = p := rfl

@[simp] theorem moveTo_finished : (r.moveTo p b).finished = b := rfl

@[simp] theorem moveTo_klass : (r.moveTo p b).klass = r.klass := rfl

end

@[simp] theorem moveTo_moveTo (p q : ℕ) (b c : Bool) :
    (r.moveTo p b).moveTo q c = r.moveTo q c := rfl

theorem recurse_begin (hk : r.klass.typesOnly = true)
    (h : TextAt r.typeStr r.typePos (toByte (.beginChar k) :: rest)) :
    r.recurse = .ok ((r.baseRecurse (.struct k true)).moveTo (r.typePos + 1) false) := by
  have hb : ofByte (toByte (.beginChar k)) = .beginChar .struct ∨
      ofByte (toByte (.beginChar k)) = .beginChar .dictEntry := by
    cases k
    exacts [Or.inl rfl, Or.inr rfl]
  have hfr := firstTypeInSignature_text h
  rw [ofByte_beginChar] at hfr
  simp only [recurse, hfr, mapTypeCharToType, pure_eq_ok, ok_bind, hk, structTypesOnlyRecurse,
    baseRecurse, h.getByte, assert_of hb]
  rfl

theorem recurse_struct {fs : List Ty} (hk : r.klass.typesOnly = true)
    (h : TextAt r.typeStr r.typePos ((struct k fs).sig ++ rest)) :
    r.recurse = .ok ((r.baseRecurse (.struct k true)).moveTo (r.typePos + 1) false) := by
  rw [sig, cons_append] at h
  exact recurse_begin hk h

theorem recurse_array {e : Ty} (hk : r.klass.typesOnly = true)
    (h : TextAt r.typeStr r.typePos ((array e).sig ++ rest)) :
    r.recurse = .ok (r.arrayTypesOnlyRecurse (.array true)) := by
  simp only [recurse, firstTypeInSignature_sig h, ok_bind, code, hk, pure_eq_ok]

/-- The end of a field: the reader of the fields stops at the bracket that closes them. -/
theorem structNext_eq {next : TypeReader → Res (Bool × TypeReader)} {r1 : TypeReader}
    {t : TypeCode} {cs : List UInt8} (hb : r.baseNext next n t = .ok r1)
    (hc : TextAt r1.typeStr r1.typePos (c :: cs)) : r.structNext k next n t =
      .ok (if ofByte c = .endChar k then r1.moveTo (r1.typePos + 1) true else r1) := by
  rw [structNext, hb, ok_bind, hc.getByte, ok_bind]
  split <;> rfl

/-- The reader behind a type of `n` bytes that the byte `c` follows: a reader
    of fields also passes the bracket that closes them. -/
def behind (r : TypeReader) (n : ℕ) (c : UInt8) : TypeReader :=
  match r.klass with
  | .struct k _ =>
    if ofByte c = .endChar k then r.moveTo (r.typePos + n + 1) true
    else r.moveTo (r.typePos + n) false
  | _ => r.moveTo (r.typePos + n) false

theorem behind_of_ne (h : ∀ k b, r.klass = .struct k b → ofByte c ≠ .endChar k) :
    r.behind n c = r.moveTo (r.typePos + n) false := by
  unfold behind
  split
  · exact if_neg (h _ _ ‹_›)
  · rfl

/-- `next` on a level of a signature: what is left is to look at the type behind. -/
theorem readerNext_level (hka : ∀ b, r.klass ≠ .array b) (hf : r.finished = false)
    (hb : r.baseNext (readerNext n) n t.code = .ok (r.moveTo (r.typePos + t.sig.length) false))
    (h : TextAt r.typeStr r.typePos (t.sig ++ c :: rest)) : readerNext (n + 1) r = (do
      let t' ← (r.behind t.sig.length c).getCurrentType
      return (t' != .invalid, r.behind t.sig.length c)) := by
  have hne : t.code ≠ .invalid := by cases t <;> nofun
  have hnx : r.classNext (readerNext n) n t.code = .ok (r.behind t.sig.length c) := by
    unfold classNext behind
    cases hk : r.klass with
    | body b | variant => exact hb
    | array b => exact absurd hk (hka b)
    | struct k b =>
      simp only
      rw [structNext_eq hb h.right]
      split <;> rfl
  rw [readerNext, getCurrentType_sig (hka _) hf h, ok_bind, if_neg hne, hnx, ok_bind]

theorem readerNext_field {ts : List Ty} (hk : r.klass = .struct k true) (hf : r.finished = false)
    (hb : r.baseNext (readerNext n) n t.code = .ok (r.moveTo (r.typePos + t.sig.length) false))
    (h : TextAt r.typeStr r.typePos (t.sig ++ (sigList ts ++ toByte (.endChar k) :: rest))) :
    readerNext (n + 1) r = .ok (!ts.isEmpty,
      r.moveTo (r.typePos + t.sig.length + if ts.isEmpty then 1 else 0) ts.isEmpty) := by
  have hka : ∀ b, r.klass ≠ .array b := fun b => by rw [hk]; nofun
  cases ts with
  | nil =>
    have hr : r.behind t.sig.length (toByte (.endChar k)) =
        r.moveTo (r.typePos + t.sig.length + 1) true := by
      simp [behind, hk]
    rw [readerNext_level hka hf hb h, hr, getCurrentType_finished rfl]
    rfl
  | cons u us =>
    rw [sigList_cons, append_assoc] at h
    have htx := h.right
    obtain ⟨c, cs, hu, hc⟩ := u.sig_eq_cons
    rw [hu, cons_append] at h
    have hne : u.code ≠ .invalid := by cases u <;> nofun
    have hcr := getCurrentType_sig (r := r.moveTo (r.typePos + t.sig.length) false) (hka _) rfl htx
    rw [readerNext_level hka hf hb h, behind_of_ne fun k _ _ => hc k, hcr]
    simp [hne]

mutual
theorem baseNext_types : ∀ (t : Ty) {inArray : Bool} {n : ℕ} {r : TypeReader} {rest : List UInt8},
    t.formed true inArray = true → t.sig.length ≤ n → r.klass.typesOnly = true →
    r.finished = false → TextAt r.typeStr r.typePos (t.sig ++ rest) →
    r.baseNext (readerNext n) n t.code = .ok (r.moveTo (r.typePos + t.sig.length) false)
  | .basic b, _, n, r, rest, _, _, hk, hfn, _ | .variant, _, n, r, rest, _, _, hk, hfn, _ => by
    simp only [code, baseNext, hk, ← hfn]; rfl
  | .array e, _, n, r, rest, _, _, hk, hfn, h => by
    simp only [code, baseNext, hk, ← hfn, typeSignatureNext_sig h, ok_bind]; rfl
  | .struct k fs, _, n, r, rest, hf, hn, hk, hfn, h => by
    obtain ⟨hne, hfs⟩ := formed_fields hf
    have hlen : (struct k fs).sig.length = (sigList fs).length + 2 := by simp [sig]
    have htx := h
    rw [sig, cons_append, append_assoc, singleton_append] at htx
    have hsk := skipRest_types fs (n := n) (m := n) (k := k)
      (r := (r.baseRecurse (.struct k true)).moveTo (r.typePos + 1) false) hfs hne (by omega)
      (by have := length_le_sigList fs; omega) rfl rfl htx.tail
    simp only [code, baseNext, hk, skipContents, recurse_struct hk h, ok_bind, hsk, hlen]
    rw [moveTo_moveTo, moveTo_typePos, show r.typePos + ((sigList fs).length + 2) =
      r.typePos + 1 + (sigList fs).length + 1 by omega, ← hfn]
    rfl
theorem skipRest_types : ∀ (ts : List Ty) {n m : ℕ} {r : TypeReader} {rest : List UInt8}
    {k : StructKind}, formedList true ts = true → ts ≠ [] → (sigList ts).length < n →
    ts.length ≤ m → r.klass = .struct k true → r.finished = false →
    TextAt r.typeStr r.typePos (sigList ts ++ toByte (.endChar k) :: rest) →
    skipRest (readerNext n) m r = .ok (r.moveTo (r.typePos + (sigList ts).length + 1) true)
  | [], _, _, _, _, _, _, hne, _, _, _, _, _ => absurd rfl hne
  | t :: ts, n, m, r, rest, k, hf, _, hn, hm, hk, hfn, h => by
    obtain ⟨n, rfl⟩ : ∃ n', n = n' + 1 := ⟨n - 1, by omega⟩
    obtain ⟨m, rfl⟩ : ∃ m', m = m' + 1 := ⟨m - 1, by simp at hm; omega⟩
    simp only [formedList, Bool.and_eq_true] at hf
    rw [sigList_cons, length_append] at hn
    rw [sigList_cons, append_assoc] at h
    have hto : r.klass.typesOnly = true := by rw [hk]; rfl
    have hb := baseNext_types t (n := n) hf.1 (by omega) hto hfn h
    rw [skipRest, readerNext_field hk hfn hb h, ok_bind]
    cases ts with
    | nil => simp
    | cons u us =>
      have hrs := skipRest_types (u :: us) (n := n + 1) (m := m) (k := k)
        (r := r.moveTo (r.typePos + t.sig.length) false) hf.2 nofun (by omega) (by simpa using hm) hk
        rfl h.right
      simp only [isEmpty_cons, Bool.not_false, if_true, Bool.false_eq_true, if_false,
        Nat.add_zero, hrs, moveTo_moveTo, moveTo_typePos]
      rw [sigList_cons t, length_append, ← Nat.add_assoc]
end

end TypeReader

end DBus
