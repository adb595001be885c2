/-
  What each call of the writer does at the end of its strings.

  `Ready w b cs` says that the writer stands at the end of the values and that the type codes
  `cs` can come next.  `Wrote w b cs xs` says what a call that writes the type codes `cs` and
  the bytes `xs` makes of the writer and its strings.
-/
import DBus.Writer.Defs
import DBus.Reader.Types

namespace DBus

open Outcome Memory Align List

def Buffers.bytes (b : Buffers) : TypeStr → List UInt8
  | .null => []
  | .types => b.types
  | .values => b.values

variable {p : ℕ} {b : Buffers} {ts : TypeStr}

theorem holds_ofList_grow {α : Type} {bs cs : List α} (xs : List α) (h : Holds (ofList bs) p cs) :
    Holds (ofList (bs ++ xs)) p cs := by
  intro k hk
  have hb := h k hk
  have hlt : p + k < bs.length := (List.getElem?_eq_some_iff.1 hb).1
  rw [← hb]
  exact getElem?_append_left hlt

theorem Buffers.text_eq (h : ts ≠ .null) : b.text ts = .ofBytes (b.bytes ts) := by
  cases ts <;> first | contradiction | rfl

theorem length_of_holds {α : Type} {bs cs : List α} {c : α} (h : Holds (ofList bs) p (c :: cs)) :
    p + (c :: cs).length ≤ bs.length := by
  have hlt : p + cs.length < bs.length := (List.getElem?_eq_some_iff.1 (h cs.length (by simp))).1
  rw [length_cons]
  omega

theorem textAt_of_holds {c : UInt8} {cs : List UInt8} (hts : ts ≠ .null)
    (h : Holds (ofList (b.bytes ts)) p (c :: cs)) : TextAt (b.text ts) p (c :: cs) := by
  rw [Buffers.text_eq hts]
  exact ⟨holds_ofList_grow [0] h, Nat.le_succ_of_le (length_of_holds h)⟩

/-- The body and the containers in which one type follows another. -/
def TypeCode.isSequence : TypeCode → Bool
  | .invalid | .struct _ => true
  | _ => false

/-- Where the type codes `cs` of the next values go. -/
inductive TypesReady (w : TypeWriter) (b : Buffers) (cs : List UInt8) : Prop where
  | insert (str : w.typeStr = .types) (exp : w.typePosIsExpectation = false)
      (pos : w.typePos = b.types.length) (room : b.types.length + cs.length ≤ stringMaxMaxLength)
      (level : w.containerType.isSequence = true)
  | expect (str : w.typeStr ≠ .null) (exp : w.typePosIsExpectation = true)
      (text : Holds (ofList (b.bytes w.typeStr)) w.typePos cs)
      (elem : w.containerType = .array → w.elementTypePos = w.typePos)

/-- The writer is at the end of the values, and the type codes `cs` can come next. -/
structure Ready (w : TypeWriter) (b : Buffers) (cs : List UInt8) : Prop where
  enabled : w.enabled = true
  valuePos : w.valuePos = b.values.length
  values_le : b.values.length ≤ stringMaxMaxLength
  types : TypesReady w b cs

/-- The type codes `cs` and the bytes `xs` were written.  The type codes are inserted unless they
    are expected; a writer of the elements of an array stays at the element type, and where a writer
    of the value of a variant ends does not matter. -/
structure Wrote (w : TypeWriter) (b : Buffers) (cs xs : List UInt8) (w' : TypeWriter)
    (b' : Buffers) : Prop where
  values : Appended b.values xs b'.values
  types : b'.types = if w.typePosIsExpectation then b.types else b.types ++ cs
  writer : w' = { w with typePos := w'.typePos, valuePos := b'.values.length }
  typePos_element : w.containerType = .array → w'.typePos = w.typePos
  typePos_sequence : w.containerType.isSequence = true → w'.typePos = w.typePos + cs.length

section
variable {w w' w'' : TypeWriter} {b' b'' : Buffers} {cs ds xs ys values : List UInt8}

theorem TypesReady.left (h : TypesReady w b (cs ++ ds)) : TypesReady w b cs := by
  cases h with
  | insert str exp pos room level =>
    rw [length_append] at room
    exact .insert str exp pos (by omega) level
  | expect str exp text elem => exact .expect str exp (holds_append.1 text).1 elem

theorem Ready.left (h : Ready w b (cs ++ ds)) : Ready w b cs :=
  ⟨h.enabled, h.valuePos, h.values_le, h.types.left⟩

theorem TypesReady.typeStr_ne_null (h : TypesReady w b cs) : w.typeStr ≠ .null := by
  cases h with
  | insert str exp pos room level => rw [str]; nofun
  | expect str exp text elem => exact str

section
variable (h : Wrote w b cs xs w' b')
include h

theorem Wrote.byteOrder : w'.byteOrder = w.byteOrder := by
  rw [h.writer]

theorem Wrote.containerType : w'.containerType = w.containerType := by
  rw [h.writer]

theorem Wrote.expectation : w'.typePosIsExpectation = w.typePosIsExpectation := by
  rw [h.writer]

theorem Wrote.lenPos : w'.lenPos = w.lenPos := by
  rw [h.writer]

theorem Wrote.startPos : w'.startPos = w.startPos := by
  rw [h.writer]

theorem Wrote.valuePos : w'.valuePos = b'.values.length := by
  rw [h.writer]

theorem Wrote.bytes (ts : TypeStr) : ∃ zs, b'.bytes ts = b.bytes ts ++ zs := by
  cases ts with
  | null => exact ⟨[], rfl⟩
  | types =>
    cases he : w.typePosIsExpectation with
    | true => exact ⟨[], by simp [Buffers.bytes, h.types, he]⟩
    | false => exact ⟨cs, by simp [Buffers.bytes, h.types, he]⟩
  | values => exact ⟨xs, h.values.1⟩

theorem Wrote.ready (hr : Ready w b (cs ++ ds)) (hs : w.containerType.isSequence = true) :
    Ready w' b' ds := by
  have hp := h.typePos_sequence hs
  refine ⟨by rw [h.writer]; exact hr.enabled, h.valuePos, h.values.2, ?_⟩
  cases hr.types with
  | insert str exp pos room level =>
    have hty := h.types
    rw [exp, if_neg Bool.false_ne_true] at hty
    rw [length_append] at room
    refine .insert (by rw [h.writer]; exact str) (by rw [h.expectation]; exact exp) ?_ ?_
      (by rw [h.containerType]; exact level)
    · rw [hp, hty, pos, length_append]
    · rw [hty, length_append]
      omega
  | expect str exp text elem =>
    have hst : w'.typeStr = w.typeStr := by rw [h.writer]
    obtain ⟨zs, hzs⟩ := h.bytes w.typeStr
    refine .expect (hst ▸ str) (by rw [h.expectation]; exact exp) ?_ ?_
    · rw [hst, hzs, hp]
      exact holds_ofList_grow zs (holds_append.1 text).2
    · rw [h.containerType]
      exact fun hc => by rw [hc] at hs; exact absurd hs Bool.false_ne_true

theorem Wrote.ready_element (hr : Ready w b ds) (ha : w.containerType = .array) :
    Ready w' b' ds := by
  have hp := h.typePos_element ha
  refine ⟨by rw [h.writer]; exact hr.enabled, h.valuePos, h.values.2, ?_⟩
  cases hr.types with
  | insert str exp pos room level => rw [ha] at level; exact absurd level Bool.false_ne_true
  | expect str exp text elem =>
    have hst : w'.typeStr = w.typeStr := by rw [h.writer]
    obtain ⟨zs, hzs⟩ := h.bytes w.typeStr
    refine .expect (hst ▸ str) (by rw [h.expectation]; exact exp) ?_ ?_
    · rw [hst, hzs, hp]
      exact holds_ofList_grow zs text
    · rw [h.containerType, hp, h.writer]
      exact elem

end

theorem Ready.append (h : Ready w b cs) (hv : Appended b.values xs values) :
    Ready { w with valuePos := values.length } { b with values := values } cs := by
  refine ⟨h.enabled, rfl, hv.2, ?_⟩
  cases h.types with
  | insert str exp pos room level => exact .insert str exp pos room level
  | expect str exp text elem =>
    refine .expect str exp ?_ elem
    cases hs : w.typeStr with
    | null => exact absurd hs str
    | types => rw [hs] at text; exact text
    | values =>
      rw [hs] at text
      rw [hv.1]
      exact holds_ofList_grow xs text

theorem wrote_append (hv : Appended b.values xs values) :
    Wrote w b [] xs { w with valuePos := values.length } { b with values := values } :=
  ⟨hv, by simp, rfl, fun _ => rfl, fun _ => rfl⟩

theorem Wrote.element (h : Wrote w b cs xs w' b') (hr : Ready w b ds)
    (ha : w.containerType = .array) : Wrote w b [] xs w' b' := by
  have hsq : w.containerType.isSequence = true → False := by rw [ha]; exact Bool.false_ne_true
  refine ⟨h.values, ?_, h.writer, h.typePos_element, fun hs => (hsq hs).elim⟩
  cases hr.types with
  | insert str exp pos room level => exact (hsq level).elim
  | expect str exp text elem => rw [h.types, exp, if_pos rfl, if_pos rfl]

theorem Ready.wrote_nil (h : Ready w b cs) : Wrote w b [] [] w b :=
  ⟨⟨(append_nil _).symm, h.values_le⟩, by simp, by rw [← h.valuePos], fun _ => rfl, fun _ => rfl⟩

theorem Wrote.trans (h : Wrote w b cs xs w' b') (h' : Wrote w' b' ds ys w'' b'') :
    Wrote w b (cs ++ ds) (xs ++ ys) w'' b'' := by
  refine ⟨h.values.trans h'.values, ?_, ?_, fun ha => ?_, fun hs => ?_⟩
  · rw [h'.types, h.types, h.expectation]
    split <;> simp
  · rw [h'.writer, h.writer]
  · rw [h'.typePos_element (h.containerType.trans ha), h.typePos_element ha]
  · rw [h'.typePos_sequence (by rw [h.containerType]; exact hs), h.typePos_sequence hs,
      length_append, Nat.add_assoc]

theorem callIf_sat {c : Prop} [Decidable c] {x : Res Unit} {P : Prop} {E : Stop → Prop}
    (h : c → Sat x (fun _ => P) E) : Sat (callIf c x) (fun _ => c → P) E := by
  unfold callIf
  split
  · next hc => exact (h hc).mono (fun _ hp _ => hp) fun _ he => he
  · next hc => exact fun h => absurd h hc

@[simp] theorem preallocated_ok {α : Type} (a : α) : preallocated (.ok a : Res α) = .ok a := rfl

theorem exists_of_room {α : Type} {x : Res α} {Q : α → Prop} {n : ℕ} (h : Sat x Q (NoRoom n))
    (hr : n ≤ stringMaxMaxLength) : ∃ a, x = .ok a ∧ Q a := by
  rcases x with s | a
  · obtain ⟨-, hs⟩ := sat_error.1 h
    omega
  · exact ⟨a, rfl, h⟩

theorem insertPadding_ok (bs : List UInt8) {a : ℕ} (ha : 0 < a)
    (hr : alignUp bs.length a ≤ stringMaxMaxLength) :
    ∃ new, stringInsertBytes bs bs.length (alignUp bs.length a - bs.length) 0 = .ok new ∧
      Appended bs (Value.pad bs.length a) new ∧ alignUp bs.length a = new.length := by
  have hle := le_alignUp (n := bs.length) ha
  have hst : Sat (stringInsertBytes bs bs.length (padding bs.length a) 0) _ _ :=
    stringInsertBytes_sat rfl (by omega)
  obtain ⟨new, hi, hap⟩ := exists_of_room hst (by rw [add_padding ha]; exact hr)
  refine ⟨new, hi, hap, ?_⟩
  rw [hap.length, length_replicate, add_padding ha]

/-! ## Type codes and basic values -/

namespace TypeWriter

theorem writeOrVerifyTypecode_ok {c : UInt8} (h : Ready w b (c :: cs)) :
    ∃ w' b', w.writeOrVerifyTypecode c b = .ok (w', b') ∧ Wrote w b [c] [] w' b' := by
  have hvl : Appended b.values [] b.values := ⟨(append_nil _).symm, h.values_le⟩
  have hp := h.valuePos
  cases h.types with
  | insert str exp pos room level =>
    rw [length_cons] at room
    obtain ⟨types, hty, hap⟩ :=
      exists_of_room (stringInsertByte_sat (c := c) pos (by omega)) (by omega)
    refine ⟨{ w with typePos := w.typePos + 1 }, { b with types := types }, ?_, hvl, ?_, ?_, ?_,
      fun _ => rfl⟩
    · rw [writeOrVerifyTypecode, if_neg (by rw [str]; nofun), exp, if_neg Bool.false_ne_true,
        insertTypecode, str]
      simp only [hty, ok_bind, pure_eq_ok]
    · rw [exp, if_neg Bool.false_ne_true, hap.1]
    · simp only [← hp]
    · intro ha
      rw [ha] at level
      exact absurd level Bool.false_ne_true
  | expect str exp text elem =>
    have hb : (b.text w.typeStr).getByte w.typePos = .ok c := (textAt_of_holds str text).getByte
    rw [writeOrVerifyTypecode, if_neg str, if_pos exp, hb, ok_bind, assert_bind rfl]
    by_cases ha : w.containerType = .array
    · refine ⟨w, b, by rw [if_neg (not_not.2 ha)]; rfl, hvl, ?_, ?_, fun _ => rfl, ?_⟩
      · rw [exp, if_pos rfl]
      · simp only [← hp]
      · intro hs
        rw [ha] at hs
        exact absurd hs Bool.false_ne_true
    · refine ⟨{ w with typePos := w.typePos + 1 }, b, by rw [if_pos ha]; rfl, hvl, ?_, ?_,
        fun h => absurd h ha, fun _ => rfl⟩
      · rw [exp, if_pos rfl]
      · simp only [← hp]

theorem allocTypeSpace_eq (h : Ready w b cs) (hex : w.typePosIsExpectation = false) :
    w.allocTypeSpace cs.length b = .ok () := by
  cases h.types with
  | insert str exp pos room level =>
    rw [allocTypeSpace, str]
    exact if_neg (by omega)
  | expect str exp text elem => rw [hex] at exp; contradiction

theorem writeBasic_sat {t : TypeCode} {arg : BasicArg} {E : Stop → Prop} (h : Ready w b [t.toByte])
    (hm : Sat (marshalWriteBasic b.values w.valuePos t arg w.byteOrder) (Marshalled b.values xs)
      E) :
    Sat (w.writeBasic t arg b) (fun out => Wrote w b [t.toByte] xs out.1 out.2) E := by
  have hal : w.typePosIsExpectation = false ∧ w.typeStr ≠ .null →
      Sat (w.allocTypeSpace 1 b) (fun _ => True) E := by
    rintro ⟨hex, -⟩
    rw [show 1 = [t.toByte].length from rfl, allocTypeSpace_eq h hex]
    trivial
  refine (callIf_sat hal).bind fun _ _ => ?_
  rw [writeBasicNoTypecode, if_pos h.enabled, sat_bind, sat_bind]
  refine hm.mono (fun out ho => ?_) fun _ he => he
  obtain ⟨values, rfl, hap⟩ := ho.exists_eq
  obtain ⟨w', b', hcd, hw⟩ := writeOrVerifyTypecode_ok (h.append hap)
  simp only [pure_eq_ok, sat_ok, hcd, preallocated_ok]
  simpa using (wrote_append hap).trans hw

/-! ## Structs and dict entries -/

theorem recurseInitAndCheck_eq {t : Ty} (h : TypesReady w b t.sig) :
    w.recurseInitAndCheck t.code b = .ok (w.subInit t.code) := by
  unfold recurseInitAndCheck
  split
  · next hex =>
    cases h with
    | insert str exp pos room level => rw [exp] at hex; exact absurd hex.1 Bool.false_ne_true
    | expect str exp text elem =>
      obtain ⟨c, cs, hsg, -⟩ := t.sig_eq_cons
      rw [hsg] at text
      have htx := textAt_of_holds str text
      rw [← hsg, ← append_nil t.sig] at htx
      simp [firstTypeInSignature_sig htx, ok_bind]
  · rfl

theorem subInit_struct_expectation (w : TypeWriter) (k : StructKind) :
    (w.subInit (.struct k)).typePosIsExpectation = w.typePosIsExpectation := by
  rw [subInit]
  cases w.typePosIsExpectation <;> rfl

variable {k : StructKind}

theorem ready_subInit_struct (h : Ready w b cs) : Ready (w.subInit (.struct k)) b cs := by
  have hex := w.subInit_struct_expectation k
  refine ⟨h.enabled, h.valuePos, h.values_le, ?_⟩
  cases h.types with
  | insert str exp pos room level => exact .insert str (hex.trans exp) pos room rfl
  | expect str exp text elem => exact .expect str (hex.trans exp) text nofun

theorem recurse_struct_sat {fs : List Ty} (h : Ready w b (Ty.struct k fs).sig) :
    Sat (w.recurse (.struct k) none b)
      (fun out => out.1 = w ∧ Wrote (w.subInit (.struct k)) b [TypeCode.toByte (.beginChar k)]
        (Value.pad b.values.length 8) out.2.1 out.2.2)
      (NoRoom (b.values.length + 8)) := by
  have hi : w.recurseInitAndCheck (.struct k) b = _ := recurseInitAndCheck_eq h.types
  obtain ⟨sub, b1, hcd, hw⟩ := writeOrVerifyTypecode_ok (ready_subInit_struct (k := k) h)
  have hvl : b1.values = b.values := by rw [hw.values.1, append_nil]
  rw [recurse, containedLen, ok_bind, recurseContainedLen, hi, ok_bind]
  change Sat (w.recurseStruct (w.subInit (.struct k)) _ b >>= _) _ _
  rw [sat_bind, recurseStruct]
  refine (callIf_sat fun _ => stringAllocSpace_sat h.values_le).bind fun _ hrm => ?_
  obtain ⟨values, hin, hap, hp⟩ := insertPadding_ok b1.values (show 0 < 8 by decide) (by
    have := alignUp_lt (n := b.values.length) (show 0 < 8 by decide)
    have := hrm h.enabled
    rw [hvl]
    omega)
  rw [hcd, preallocated_ok, ok_bind]
  simp only
  rw [if_pos h.enabled, hw.valuePos, hin, preallocated_ok, ok_bind, hp]
  refine ⟨rfl, ?_⟩
  rw [← hvl]
  exact hw.trans (wrote_append hap)

theorem unrecurse_struct_ok {sub : TypeWriter} (hw : Wrote (w.subInit (.struct k)) b cs xs sub b')
    (hs : Ready sub b' [TypeCode.toByte (.endChar k)]) :
    ∃ w' b'', w.unrecurse sub b' = .ok (w', b'') ∧
      Wrote w b (cs ++ [TypeCode.toByte (.endChar k)]) xs w' b'' := by
  have hex := w.subInit_struct_expectation k
  obtain ⟨sub', b'', hcd, hwr⟩ := writeOrVerifyTypecode_ok hs
  have hal := hw.trans hwr
  rw [append_nil] at hal
  have hcl : sub.closeContainer b' = .ok (sub', b'') := by
    rw [closeContainer, hw.containerType]
    exact hcd
  have har : w.typePosIsExpectation = false ∨
      w.typePosIsExpectation = true ∧ sub.typePosIsExpectation = true := by
    rw [hw.expectation, hex]
    cases w.typePosIsExpectation <;> simp
  rw [unrecurse, assert_bind har, hcl, ok_bind]
  refine ⟨_, _, rfl, hal.values, by rw [hal.types, hex], by rw [hal.valuePos], ?_, ?_⟩
  · intro ha
    simp only
    rw [if_neg (by rw [advancesParent, hal.containerType, ha]; exact fun h => absurd h.2 nofun)]
  · intro hsq
    have hst : w.typeStr ≠ .null := by
      have hsb : sub.typeStr = w.typeStr := by rw [hw.writer]; rfl
      rw [← hsb]
      exact hs.types.typeStr_ne_null
    have had : w.advancesParent sub' = true := by
      rw [advancesParent, hal.containerType]
      revert hsq
      cases w.containerType <;> first | exact fun _ => rfl | exact nofun
    simp only
    rw [if_pos ⟨hst, had⟩]
    exact hal.typePos_sequence rfl

end TypeWriter

end

end DBus
