/-
  The validator against the grammar of signatures.

  An accepted signature is grammatical exactly if its brackets nest, its dict keys are not
  structs and no more than 32 of its arrays are open at once (`accepted_grammatical_iff`): its
  depth counter of arrays counts consecutive array codes only, its closing brackets are not
  matched with each other, and `_dbus_type_is_valid` is false for the bracket that opens a
  struct.
-/
import DBus.Signature.Parse

namespace DBus

open Outcome List Ty

/-! ## Printed signatures are accepted -/

/-- A byte behind which no array waits for its element and no container has just been opened. -/
def TypeCode.Closed (t : TypeCode) : Prop := t ≠ .array ∧ ∀ k, t ≠ .beginChar k

theorem Ty.head_sig (t : Ty) (rest : List UInt8) (x : UInt8) (k : StructKind) :
    TypeCode.ofByte ((t.sig ++ rest).headD x) ≠ .endChar k := by
  cases t <;> simp [sig]

/-- The state behind `n` more elements, the last byte of which has the class `l`. -/
def SigState.after (st : SigState) (l : TypeCode) (n : ℕ) : SigState :=
  ⟨l, st.structDepth, 0, st.dictEntryDepth,
    (st.elementCountStack.headD 0 + n) :: st.elementCountStack.tail⟩

variable {cs : List UInt8} {k : StructKind}

theorem sigRun_begin {x : UInt8} {st : SigState} (hd : st.depth k < maximumTypeRecursionDepth)
    (hk : k = .dictEntry → st.last = .array) : sigRun x (TypeCode.toByte (.beginChar k) :: cs) st =
      sigRun x cs ⟨.beginChar k, st.structDepth + (if k = .struct then 1 else 0), 0,
        st.dictEntryDepth + (if k = .dictEntry then 1 else 0), 0 :: st.elementCountStack⟩ := by
  cases k with
  | struct => exact sigRun_step rfl (.beginStruct hd)
  | dictEntry => exact sigRun_step rfl (.beginDict (hk rfl) hd)

theorem sigRun_end {x : UInt8} {l : TypeCode} {sd dd n : ℕ} {es : List ℕ} (hl : l.Closed)
    (hk : k = .dictEntry → n = 2) : sigRun x (TypeCode.toByte (.endChar k) :: cs)
        ⟨l, sd + (if k = .struct then 1 else 0), 0, dd + (if k = .dictEntry then 1 else 0), n :: es⟩ =
      sigRun x cs ⟨.endChar k, sd, 0, dd, (es.headD 0 + 1) :: es.tail⟩ := by
  cases k with
  | struct => exact sigRun_step rfl (.endStruct (Nat.succ_ne_zero _) (hl.2 _))
  | dictEntry => exact sigRun_step rfl (.endDict (Nat.succ_ne_zero _) (hk rfl))

mutual
theorem sigRun_sig : ∀ (t : Ty) {inArray : Bool} (x : UInt8) (rest : List UInt8) (st : SigState),
    t.formed true inArray = true → (inArray = true → st.last = .array) →
    (∀ k, st.depth k + t.bracketDepth k ≤ maximumTypeRecursionDepth) →
    st.arrayDepth + t.arrayDepth ≤ maximumTypeRecursionDepth →
    (st.last = .beginChar .dictEntry → keyFormed true [t] = true) →
    ∃ l : TypeCode, l.Closed ∧ sigRun x (t.sig ++ rest) st = sigRun x rest (st.after l 1)
  | .basic b, _, x, rest, st, _, _, _, _, _ =>
    ⟨.basic b, ⟨nofun, nofun⟩, sigRun_step (TypeCode.ofByte_basic b) (.basic b)⟩
  | .variant, _, x, rest, st, _, _, _, _, hk =>
    ⟨.variant, ⟨nofun, nofun⟩, sigRun_step rfl (.variant fun h => nomatch hk h)⟩
  | .array e, _, x, rest, st, hf, _, hd, ha, hk => by
    have hs : SigStep (.ofByte ((e.sig ++ rest).headD x)) st .array _ :=
      .array (by simp only [arrayDepth] at ha; omega) (e.head_sig rest x) fun h => nomatch hk h
    obtain ⟨l, hl, hr⟩ := sigRun_sig e x rest
      ⟨.array, st.structDepth, st.arrayDepth + 1, st.dictEntryDepth, st.elementCountStack⟩
      (by simpa only [formed] using hf) (fun _ => rfl)
      (fun k => by
        have := hd k
        simp only [bracketDepth] at this
        cases k <;> exact this)
      (by simp only [arrayDepth] at ha ⊢; omega) nofun
    refine ⟨l, hl, ?_⟩
    rw [sig, cons_append, sigRun_step rfl hs, hr]
    rfl
  | .struct k fs, inArray, x, rest, st, hf, hin, hd, ha, hk => by
    -- what the two kinds of container ask of their fields
    obtain ⟨hne, hdc, hfs⟩ : fs ≠ [] ∧
        (k = .dictEntry → inArray = true ∧ fs.length = 2 ∧ keyFormed true fs = true) ∧
        formedList true fs = true := by
      cases k with
      | struct => simpa [formed] using hf
      | dictEntry =>
        simp only [formed, Bool.and_eq_true, beq_iff_eq] at hf
        obtain ⟨⟨⟨hi, hl⟩, hky⟩, hfs⟩ := hf
        exact ⟨fun h => by simp [h] at hl, fun _ => ⟨hi, hl, hky⟩, hfs⟩
    have hdk := hd k
    simp only [bracketDepth, if_true] at hdk
    obtain ⟨l, hl, hr⟩ := sigRun_sigList fs x (TypeCode.toByte (.endChar k) :: rest)
      ⟨.beginChar k, st.structDepth + (if k = .struct then 1 else 0), 0,
        st.dictEntryDepth + (if k = .dictEntry then 1 else 0), 0 :: st.elementCountStack⟩ hfs hne rfl
      (fun k' => by
        have := hd k'
        cases k <;> cases k' <;> simp [bracketDepth, SigState.depth] at this ⊢ <;> omega)
      (by simpa only [arrayDepth] using Nat.le_of_add_left_le ha)
      (fun h => (hdc (TypeCode.beginChar.inj h)).2.2)
    refine ⟨.endChar k, ⟨nofun, nofun⟩, ?_⟩
    rw [sig, cons_append, append_assoc, singleton_append,
      sigRun_begin (by omega) fun h => hin (hdc h).1, hr]
    simp only [SigState.after, headD_cons, tail_cons, Nat.zero_add]
    exact sigRun_end hl fun h => (hdc h).2.1
theorem sigRun_sigList : ∀ (ts : List Ty) (x : UInt8) (rest : List UInt8) (st : SigState),
    formedList true ts = true → ts ≠ [] → st.arrayDepth = 0 →
    (∀ k, st.depth k + bracketDepthList k ts ≤ maximumTypeRecursionDepth) →
    arrayDepthList ts ≤ maximumTypeRecursionDepth →
    (st.last = .beginChar .dictEntry → keyFormed true ts = true) →
    ∃ l : TypeCode, l.Closed ∧
      sigRun x (sigList ts ++ rest) st = sigRun x rest (st.after l ts.length)
  | [], _, _, _, _, hne, _, _, _, _ => absurd rfl hne
  | t :: ts, x, rest, st, hf, _, hz, hd, ha, hk => by
    simp only [formedList, Bool.and_eq_true] at hf
    simp only [arrayDepthList, Nat.max_le] at ha
    have hd' : ∀ k, st.depth k + t.bracketDepth k ≤ maximumTypeRecursionDepth ∧
        st.depth k + bracketDepthList k ts ≤ maximumTypeRecursionDepth := fun k => by
      have := hd k
      simp only [bracketDepthList] at this
      omega
    obtain ⟨l1, hl1, h1⟩ := sigRun_sig t x (sigList ts ++ rest) st hf.1 nofun
      (fun k => (hd' k).1) (by omega) fun h => by
        have := hk h
        match t, this with
        | .basic _, _ | .struct .struct _, _ => rfl
    rw [sigList_cons, append_assoc, h1]
    cases ts with
    | nil => exact ⟨l1, hl1, rfl⟩
    | cons u us =>
      obtain ⟨l, hl, h2⟩ := sigRun_sigList (u :: us) x rest (st.after l1 1) hf.2 nofun rfl
        (fun k => by cases k; exacts [(hd' .struct).2, (hd' .dictEntry).2]) ha.2 fun h => absurd h (hl1.2 _)
      refine ⟨l, hl, ?_⟩
      rw [h2]
      simp [SigState.after, Nat.add_assoc, Nat.add_comm 1]
end

variable {ts : List Ty}

/-- **Printed signatures are accepted.** -/
theorem validSignature_sigList (hf : formedList true ts = true)
    (hl : (sigList ts).length ≤ maximumSignatureLength)
    (ha : arrayDepthList ts ≤ maximumTypeRecursionDepth)
    (hd : ∀ k, bracketDepthList k ts ≤ maximumTypeRecursionDepth) :
    ValidSignature (sigList ts) := by
  refine ⟨hl, ?_⟩
  cases ts with
  | nil => exact ⟨.init, rfl, rfl⟩
  | cons t ts =>
    obtain ⟨l, hc, hr⟩ := sigRun_sigList (t :: ts) 0 [] .init hf nofun rfl
      (fun k => by cases k <;> simpa [SigState.depth, SigState.init] using hd _) ha nofun
    rw [append_nil] at hr
    exact ⟨_, hr, sigFinish_eq_ok.2 ⟨⟨rfl, rfl, rfl⟩, hc⟩⟩

theorem Grammatical.bracketDepth_le (h : Grammatical ts) (k : StructKind) :
    bracketDepthList k ts ≤ maximumTypeRecursionDepth := by
  cases k
  exacts [h.structs_le, h.dicts_le]

theorem Grammatical.validSignature (h : Grammatical ts) : ValidSignature (sigList ts) :=
  validSignature_sigList (formedList_mono ts h.formed) h.length_le h.arrays_le h.bracketDepth_le

/-! ## Accepted signatures -/

/-- The validator returns `DBUS_VALID` for all of `cs`. -/
def SignatureAccepted (cs : List UInt8) : Prop :=
  validateSignatureWithReason (.ofBytes cs) 0 cs.length = .ok .valid

instance (cs : List UInt8) : Decidable (SignatureAccepted cs) :=
  inferInstanceAs (Decidable (_ = _))

theorem signatureAccepted_iff : SignatureAccepted cs ↔ ValidSignature cs := by
  rw [SignatureAccepted, validateSignatureWithReason, Res.validity_eq_valid]
  by_cases hl : cs.length ≤ maximumSignatureLength
  · rw [← validateSignature_iff (by unfold maximumSignatureLength at hl; omega)
      (Nat.le_of_eq (Nat.zero_add _)) (holds_ofBytes cs)]
    exact ⟨fun ⟨_, h⟩ => h, fun h => ⟨_, h⟩⟩
  · constructor
    · rintro ⟨u, h⟩
      simp only [validateSignature, bind_eq_ok, require_eq_ok] at h
      obtain ⟨-, -, -, h, -⟩ := h
      exact absurd h hl
    · exact fun h => absurd h.length_le hl

/-- A signature of the D-Bus grammar, within the limits of the protocol. -/
def IsGrammatical (cs : List UInt8) : Prop := ∃ ts, cs = sigList ts ∧ Grammatical ts

theorem IsGrammatical.scans (h : IsGrammatical cs) :
    bracketsNest cs = true ∧ keysBasic cs = true ∧ arraysOpen cs ≤ maximumTypeRecursionDepth := by
  obtain ⟨ts, rfl, hg⟩ := h
  refine ⟨bracketsNest_sigList ts, ?_, ?_⟩
  · rw [keysBasic_sigList (formedList_mono ts hg.formed)]; exact hg.formed
  · rw [arraysOpen_sigList]; exact hg.arrays_le

/-- **Signature soundness, exactly.**  An accepted byte string is a signature
    of the grammar if and only if its brackets nest, no dict entry starts with
    a struct, and at most 32 arrays are open at once. -/
theorem accepted_grammatical_iff (cs : List UInt8) (h : SignatureAccepted cs) :
    IsGrammatical cs ↔
      bracketsNest cs = true ∧ keysBasic cs = true ∧ arraysOpen cs ≤ maximumTypeRecursionDepth := by
  refine ⟨IsGrammatical.scans, ?_⟩
  rintro ⟨hn, hk, ha⟩
  have hv := signatureAccepted_iff.1 h
  obtain ⟨ts, rfl, hf, hd⟩ := hv.exists_types hn
  rw [keysBasic_sigList hf] at hk
  rw [arraysOpen_sigList] at ha
  exact ⟨ts, rfl, hk, hv.length_le, ha, hd _, hd _⟩

/-- The signature `a\x7bsv\x7d`. -/
def variantDictSignature : List UInt8 := [97, 123, 115, 118, 125]

theorem variantDict_grammatical_iff :
    SignatureAccepted variantDictSignature ∧
      (IsGrammatical variantDictSignature ↔
        bracketsNest variantDictSignature = true ∧ keysBasic variantDictSignature = true ∧
          arraysOpen variantDictSignature ≤ maximumTypeRecursionDepth) :=
  ⟨by decide, accepted_grammatical_iff _ (by decide)⟩

/-- The signature `(a\x7b)i\x7d`: the struct closes inside the dict entry that was opened in it. -/
def crossedSignature : List UInt8 := [40, 97, 123, 41, 105, 125]

/-- The signature `a\x7b(i)i\x7d`: the key of the dict entry is a struct. -/
def structKeySignature : List UInt8 := [97, 123, 40, 105, 41, 105, 125]

/-- Twenty arrays, a struct, and twenty arrays in it: forty are open at once. -/
def deepArraySignature : List UInt8 :=
  .replicate 20 97 ++ 40 :: (.replicate 20 97 ++ [105, 41])

/-- Each of the three unchecked properties fails on an accepted signature. -/
theorem accepted_not_grammatical :
    (SignatureAccepted crossedSignature ∧ ¬ IsGrammatical crossedSignature) ∧
    (SignatureAccepted structKeySignature ∧ ¬ IsGrammatical structKeySignature) ∧
    SignatureAccepted deepArraySignature ∧ ¬ IsGrammatical deepArraySignature := by
  refine ⟨⟨by decide, ?_⟩, ⟨by decide, ?_⟩, by decide, ?_⟩
  · exact fun h => absurd h.scans.1 (by decide)
  · exact fun h => absurd h.scans.2.1 (by decide)
  · exact fun h => absurd h.scans.2.2 (by decide +kernel)

end DBus
