/-
  Iterating over a signature with a types-only reader.

  `TypesLeft r ts e` is the invariant: the reader `r` has the types `ts` before it and its
  container ends at `e`.  `walkTypes` is a client that reads a whole signature back into type
  trees; on a printed signature it returns the trees (`walkTypes_eq`).
-/
import DBus.Reader.Types
import DBus.Signature.Grammar

namespace DBus

open Outcome List Ty TypeReader

/-- A types-only reader that has the types `ts` before it, in a container that
    ends at `e`.  Behind the container there is at least the terminating NUL. -/
inductive TypesLeft (r : TypeReader) : List Ty → ℕ → Prop
  | body {ts : List Ty} {rest : List UInt8} {e : ℕ} (hk : r.klass = .body true)
    (hf : r.finished = false) (hts : formedList true ts = true)
    (h : TextAt r.typeStr r.typePos (sigList ts ++ 0 :: rest))
    (he : e = r.typePos + (sigList ts).length) : TypesLeft r ts e
  | fields {k : StructKind} {t : Ty} {ts : List Ty} {x : UInt8} {rest : List UInt8} {e : ℕ}
    (hk : r.klass = .struct k true) (hf : r.finished = false)
    (hts : formedList true (t :: ts) = true)
    (h : TextAt r.typeStr r.typePos
      (sigList (t :: ts) ++ TypeCode.toByte (.endChar k) :: x :: rest))
    (he : e = r.typePos + (sigList (t :: ts)).length + 1) : TypesLeft r (t :: ts) e
  | element {t : Ty} {x : UInt8} {rest : List UInt8} {e : ℕ} (hk : r.klass = .array true)
    (hf : r.finished = false) (ht : t.formed true true = true)
    (h : TextAt r.typeStr r.typePos (t.sig ++ x :: rest))
    (he : e = r.typePos + t.sig.length) : TypesLeft r [t] e
  | fieldsEnd {k : StructKind} {e : ℕ} (hk : r.klass = .struct k true) (hf : r.finished = true)
    (hle : r.typePos ≤ r.typeStr.len) (he : e = r.typePos) : TypesLeft r [] e
  | elementEnd {e : ℕ} (hk : r.klass = .array true) (hf : r.finished = true)
    (hle : r.typePos ≤ r.typeStr.len) : TypesLeft r [] e

namespace TypesLeft

variable {r : TypeReader} {t : Ty} {ts : List Ty} {e : ℕ}

theorem init (hts : formedList true ts = true) :
    TypesLeft (.initTypesOnly (.ofBytes (sigList ts)) 0) ts (sigList ts).length :=
  .body rfl rfl hts (textAt_ofBytes (sigList ts)) (Nat.zero_add _).symm

theorem typesOnly (h : TypesLeft r ts e) : r.klass.typesOnly = true := by
  cases h <;> simp [*, ReaderClass.typesOnly]

theorem klass_ne (h : TypesLeft r ts e) : r.klass ≠ .array false := fun hk => by
  have := h.typesOnly
  rw [hk] at this
  exact absurd this nofun

theorem textAt (h : TypesLeft r (t :: ts) e) :
    r.finished = false ∧ ∃ x rest, TextAt r.typeStr r.typePos (t.sig ++ x :: rest) := by
  -- what follows the first type is never empty
  have hcn : ∀ (us : List Ty) (c : UInt8) (cs : List UInt8),
      ∃ x rest, sigList us ++ c :: cs = x :: rest := fun us c cs =>
    exists_cons_of_ne_nil (by simp)
  cases h with
  | body _ hf _ h _ =>
    rw [sigList_cons, append_assoc] at h
    obtain ⟨x, rest, hx⟩ := hcn ts 0 _
    exact ⟨hf, x, rest, hx ▸ h⟩
  | fields _ hf _ h _ =>
    rw [sigList_cons, append_assoc] at h
    obtain ⟨x, rest, hx⟩ := hcn ts _ _
    exact ⟨hf, x, rest, hx ▸ h⟩
  | element _ hf _ h _ => exact ⟨hf, _, _, h⟩

theorem typePos_le (h : TypesLeft r ts e) : r.typePos ≤ r.typeStr.len := by
  cases ts with
  | cons t ts =>
    obtain ⟨-, x, rest, ht⟩ := h.textAt
    exact le_trans (Nat.le_add_right _ _) ht.right.head_le
  | nil =>
    cases h with
    | body _ _ _ h _ => exact h.head_le
    | fieldsEnd _ _ hle _ | elementEnd _ _ hle => exact hle

theorem getCurrentType_nil (h : TypesLeft r [] e) : r.getCurrentType = .ok .invalid := by
  cases h with
  | body hk hf _ h _ => exact getCurrentType_nul (by rw [hk]; rintro ⟨⟩) hf h
  | fieldsEnd _ hf | elementEnd _ hf => exact getCurrentType_finished hf

theorem getCurrentType_cons (h : TypesLeft r (t :: ts) e) : r.getCurrentType = .ok t.code := by
  obtain ⟨hf, x, rest, ht⟩ := h.textAt
  exact getCurrentType_sig h.klass_ne hf ht

/-- Where the reader stands behind the type `t`: a reader of fields has also passed the closing
    bracket if it is finished, a reader of an array element does not move. -/
def Behind (r r' : TypeReader) (t : Ty) : Prop :=
  match r.klass with
  | .array _ => r'.typePos = r.typePos
  | _ => r'.typePos = r.typePos + t.sig.length + if r'.finished then 1 else 0

theorem next (h : TypesLeft r (t :: ts) e) :
    ∃ r', r.next = .ok (!ts.isEmpty, r') ∧ TypesLeft r' ts e ∧ r'.typeStr = r.typeStr ∧
      r'.klass = r.klass ∧ Behind r r' t := by
  have hcr := h.getCurrentType_cons
  have hne : t.code ≠ .invalid := by cases t <;> nofun
  have hto := h.typesOnly
  obtain ⟨hf, x, rest, ht⟩ := h.textAt
  have hlen : t.sig.length ≤ r.typeStr.len + r.valueStr.len := by have := ht.right.head_le; omega
  cases h with
  | body hk _ hts h he =>
    simp only [formedList, Bool.and_eq_true] at hts
    have hb := baseNext_types t hts.1 hlen hto hf ht
    have hl : TypesLeft (r.moveTo (r.typePos + t.sig.length) false) ts e := by
      rw [sigList_cons, append_assoc] at h
      rw [sigList_cons, length_append, ← Nat.add_assoc] at he
      exact .body hk rfl hts.2 h.right he
    refine ⟨_, ?_, hl, rfl, rfl, by simp [Behind, hk]⟩
    rw [TypeReader.next, TypeReader.readerNext_level (by rw [hk]; nofun) hf hb ht,
      behind_of_ne (by rw [hk]; nofun)]
    cases ts with
    | nil => rw [hl.getCurrentType_nil]; rfl
    | cons u us =>
      have hu : u.code ≠ .invalid := by cases u <;> nofun
      rw [hl.getCurrentType_cons]
      simp [hu]
  | fields hk _ hts h he =>
    simp only [formedList, Bool.and_eq_true] at hts
    have hb := baseNext_types t hts.1 hlen hto hf ht
    rw [sigList_cons, append_assoc] at h
    refine ⟨_, readerNext_field hk hf hb h, ?_, rfl, rfl, by simp [Behind, hk]⟩
    rw [sigList_cons, length_append, ← Nat.add_assoc] at he
    cases ts with
    | nil => exact .fieldsEnd hk rfl h.right.tail.head_le he
    | cons u us =>
      exact .fields (r := r.moveTo (r.typePos + t.sig.length) false) hk rfl
        (by simpa [formedList] using hts.2) h.right he
  | element hk _ htf h he =>
    refine ⟨{ r with finished := true }, ?_, .elementEnd hk rfl ?_, rfl, rfl, by simp [Behind, hk]⟩
    · rw [TypeReader.next, readerNext, hcr, ok_bind, if_neg hne, classNext, hk]
      simp only [pure_eq_ok, ok_bind]
      rw [getCurrentType_finished rfl]
      rfl
    · exact le_trans (Nat.le_add_right _ _) ht.right.head_le

theorem formed (h : TypesLeft r (t :: ts) e) : ∃ inArray, t.formed true inArray = true := by
  cases h with
  | body _ _ hts _ _ | fields _ _ hts _ _ =>
    simp only [formedList, Bool.and_eq_true] at hts; exact ⟨_, hts.1⟩
  | element _ _ ht _ _ => exact ⟨_, ht⟩

theorem recurse_struct {k : StructKind} {fs : List Ty} (h : TypesLeft r (.struct k fs :: ts) e) :
    ∃ sub, r.recurse = .ok sub ∧ TypesLeft sub fs (r.typePos + (struct k fs).sig.length) ∧
      sub.typeStr = r.typeStr ∧ sub.klass = .struct k true := by
  obtain ⟨-, x, rest, ht⟩ := h.textAt
  obtain ⟨_, hf⟩ := h.formed
  obtain ⟨hne, hfs⟩ := formed_fields hf
  refine ⟨_, TypeReader.recurse_struct h.typesOnly ht, ?_, rfl, rfl⟩
  obtain ⟨f, fs, rfl⟩ := exists_cons_of_ne_nil hne
  rw [sig, cons_append, append_assoc, singleton_append] at ht
  refine .fields rfl rfl hfs ht.tail ?_
  simp only [sig, length_cons, length_append, length_nil, moveTo_typePos]
  omega

theorem recurse_array {el : Ty} (h : TypesLeft r (.array el :: ts) e) :
    ∃ sub, r.recurse = .ok sub ∧ TypesLeft sub [el] (r.typePos + (array el).sig.length) ∧
      sub.typeStr = r.typeStr ∧ sub.typePos = r.typePos + 1 := by
  obtain ⟨-, x, rest, ht⟩ := h.textAt
  obtain ⟨_, hf⟩ := h.formed
  refine ⟨_, TypeReader.recurse_array h.typesOnly ht, ?_, rfl, rfl⟩
  rw [Ty.sig, cons_append] at ht
  refine .element rfl rfl (by simpa only [Ty.formed] using hf) ht.tail ?_
  simp only [sig, length_cons, arrayTypesOnlyRecurse, baseRecurse]
  omega

end TypesLeft

/-! ## Reading a signature back -/

mutual
/-- Read the type at the reader back into a tree, with the position where its text ends. -/
def walkType : ℕ → TypeReader → Res (Ty × ℕ)
  | 0, _ => .error .fuel
  | n + 1, r => do
    let t ← r.getCurrentType
    match t with
    | .basic b => return (.basic b, r.typePos + 1)
    | .variant => return (.variant, r.typePos + 1)
    | .array => do
      let elementType ← r.getElementType
      let sub ← r.recurse
      let (e, endPos) ← walkType n sub
      assert (e.code = elementType)
      -- an array has one element type
      let (more, sub) ← sub.next
      assert (more = false)
      let t ← sub.getCurrentType
      assert (t = .invalid)
      return (.array e, endPos)
    | .struct k => do
      let sub ← r.recurse
      let (fs, endPos) ← walkTypes n sub
      return (.struct k fs, endPos)
    | _ => .error .assertion
/-- Read all types left on the reader's level back into trees, with the
    position where the level ends.  Each type is read by recursing into it, and
    `next` must arrive at the place where that recursion ended. -/
def walkTypes : ℕ → TypeReader → Res (List Ty × ℕ)
  | 0, _ => .error .fuel
  | n + 1, r => do
    let t ← r.getCurrentType
    if t = .invalid then return ([], r.typePos)
    else do
      let (ty, endPos) ← walkType n r
      let (more, r) ← r.next
      assert (r.typePos = endPos + if r.finished then 1 else 0)
      let (tys, levelEnd) ← walkTypes n r
      assert (more = !tys.isEmpty)
      return (ty :: tys, levelEnd)
end

theorem TypesLeft.getElementType {r : TypeReader} {el : Ty} {ts : List Ty} {e : ℕ}
    (h : TypesLeft r (.array el :: ts) e) : r.getElementType = .ok el.code := by
  obtain ⟨-, x, rest, ht⟩ := h.textAt
  rw [sig, cons_append] at ht
  rw [TypeReader.getElementType, h.getCurrentType_cons, ok_bind, code, assert_bind rfl,
    firstTypeInSignature_sig ht.tail]

mutual
theorem walkType_eq : ∀ (t : Ty) {n : ℕ} {r : TypeReader} {ts : List Ty} {e : ℕ},
    TypesLeft r (t :: ts) e → 2 * t.sig.length ≤ n →
    walkType n r = .ok (t, r.typePos + t.sig.length)
  | .basic b, n, r, ts, e, h, hn | .variant, n, r, ts, e, h, hn => by
    obtain ⟨n, rfl⟩ : ∃ m, n = m + 1 := ⟨n - 1, by simp [sig] at hn; omega⟩
    rw [walkType, h.getCurrentType_cons]; rfl
  | .array el, n, r, ts, e, h, hn => by
    have hlen : (array el).sig.length = el.sig.length + 1 := by simp [sig]
    obtain _ | n := n
    · omega
    obtain ⟨sub, hrc, hsb, -, hp⟩ := h.recurse_array
    obtain ⟨sub', hnx, hend, -⟩ := hsb.next
    have hw := walkType_eq el hsb (n := n) (by omega)
    rw [walkType, h.getCurrentType_cons, ok_bind, code]
    simp only [h.getElementType, hrc, hw, hnx, hend.getCurrentType_nil, ok_bind, assert_true,
      isEmpty_nil, Bool.not_true, hp, hlen, pure_eq_ok]
    rw [show r.typePos + 1 + el.sig.length = r.typePos + (el.sig.length + 1) by omega]
  | .struct k fs, n, r, ts, e, h, hn => by
    have hlen : (struct k fs).sig.length = (sigList fs).length + 2 := by simp [sig]
    obtain _ | n := n
    · omega
    obtain ⟨sub, hrc, hsb, -, hk⟩ := h.recurse_struct
    have hw := walkTypes_eq fs (n := n) hsb (by rw [hk]; nofun) (by omega)
    rw [walkType, h.getCurrentType_cons, ok_bind, code]
    simp only [hrc, hw, ok_bind, pure_eq_ok]
theorem walkTypes_eq : ∀ (ts : List Ty) {n : ℕ} {r : TypeReader} {e : ℕ},
    TypesLeft r ts e → (∀ b, r.klass ≠ .array b) → 2 * (sigList ts).length < n →
    walkTypes n r = .ok (ts, e)
  | [], n, r, e, h, hk, hn => by
    obtain _ | n := n
    · omega
    rw [walkTypes, h.getCurrentType_nil, ok_bind, if_pos rfl]
    cases h with
    | body _ _ _ _ he => simp [he]
    | fieldsEnd _ _ _ he => rw [he]; rfl
    | elementEnd hk' => exact absurd hk' (hk _)
  | t :: ts, n, r, e, h, hk, hn => by
    have hp := t.sig_length_pos
    have hne : t.code ≠ .invalid := by cases t <;> nofun
    rw [sigList_cons, length_append] at hn
    obtain _ | n := n
    · omega
    obtain ⟨r', hnx, hl, -, hk', hb⟩ := h.next
    have har : r'.typePos = r.typePos + t.sig.length + if r'.finished then 1 else 0 := by
      unfold TypesLeft.Behind at hb
      split at hb
      · exact absurd ‹_› (hk _)
      · exact hb
    have hw := walkType_eq t (n := n) h (by omega)
    have hrs := walkTypes_eq ts (n := n) hl (by rwa [hk']) (by omega)
    rw [walkTypes, h.getCurrentType_cons, ok_bind, if_neg hne]
    simp only [hw, hnx, ok_bind, assert_of har, hrs, assert_true, pure_eq_ok]
end

/-- **Type-tree round trip.**  The signature printed from a list of types is accepted, and reading
    it with a types-only reader gives the list back; every walk into a container ends where `next`
    arrives, and the last one at the end of the signature. -/
theorem printed_walk (ts : List Ty) (h : Grammatical ts) :
    SignatureAccepted (sigList ts) ∧
      ∀ n, 2 * (sigList ts).length < n →
        walkTypes n (.initTypesOnly (.ofBytes (sigList ts)) 0) =
          .ok (ts, (sigList ts).length) :=
  ⟨signatureAccepted_iff.2 h.validSignature, fun _ hn =>
    walkTypes_eq ts (.init (formedList_mono ts h.formed)) (fun _ => nofun) hn⟩

/-- The types of `a\x7bsv\x7d(yas)`. -/
def sampleTypes : List Ty :=
  [.array (.struct .dictEntry [.basic (.str .string), .variant]),
    .struct .struct [.basic (.fixed .byte), .array (.basic (.str .string))]]

theorem sampleTypes_grammatical : Grammatical sampleTypes := by
  constructor <;> decide

theorem sampleTypes_walk :
    SignatureAccepted (sigList sampleTypes) ∧
      ∀ n, 2 * (sigList sampleTypes).length < n →
        walkTypes n (.initTypesOnly (.ofBytes (sigList sampleTypes)) 0) =
          .ok (sampleTypes, (sigList sampleTypes).length) :=
  printed_walk sampleTypes sampleTypes_grammatical

end DBus
