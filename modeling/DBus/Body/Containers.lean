/-
  What the body validator checks before it goes into a container, and one iteration of its
  loop (`validateBodyHelper_succ`).

  The rest of the development uses these lemmas and does not unfold the validator.
-/
import DBus.Body.Basic

namespace DBus

open Outcome Memory Align Endian Value

section
variable {o : ByteOrder} {m : ℕ → Option UInt8} {e p a n : ℕ} {r sub : TypeReader} {t : TypeCode}
  {helper : TypeReader → Bool → ℕ → Res ℕ} {q : ℕ} {walk : Bool}

/-! ## Containers -/

theorem TypeCode.getAlignment_pos {al : ℕ} (h : t.getAlignment = .ok al) : 0 < al := by
  cases t with
  | basic b =>
    cases h
    exact (Ty.basic b).alignment_pos
  | variant | array | struct k => cases h; decide
  | _ => cases h

theorem arrayStart_eq_ok : arrayStart o m e r p = .ok (t, n, a) ↔
      r.getElementType = .ok t ∧ t.isValid = true ∧ n < 2 ^ 32 ∧ n ≤ maximumArrayLength ∧
        Holds m p (pad p 4 ++ toBytes o 4 n) ∧ a + n ≤ e ∧ ∃ al, t.getAlignment = .ok al ∧
          a = alignUp (alignUp p 4 + 4) al ∧
          Holds m (alignUp p 4 + 4) (pad (alignUp p 4 + 4) al) := by
  simp only [arrayStart, bind_eq_ok, Prod.exists, claimedLen_eq_ok, require_eq_ok, skipPadding_pad,
    exists_const, pure_eq_ok, Except.ok.injEq, Prod.mk.injEq]
  constructor
  · rintro ⟨n, _, ⟨rfl, hle, hn, h⟩, t, ht, hv, al, hal, he, hp, hlen, hm, rfl, rfl, rfl⟩
    refine ⟨ht, hv, hn, ?_, h, by omega, al, hal, rfl, hp⟩
    rcases hm with rfl | hm
    · exact Nat.zero_le _
    · exact hm
  · rintro ⟨ht, hv, hn, hm, h, he, al, hal, rfl, hp⟩
    have : alignUp p 4 + 4 ≤ alignUp (alignUp p 4 + 4) al := le_alignUp (t.getAlignment_pos hal)
    exact ⟨n, _, ⟨rfl, by omega, hn, h⟩, t, ht, hv, al, hal, by omega, hp, by omega, Or.inr hm,
      rfl, rfl, rfl⟩

theorem getCurrentType_initTypesOnly (s : DBusString) (p : ℕ) :
    (TypeReader.initTypesOnly s p).getCurrentType = firstTypeInSignature s p := by
  have hend : (TypeReader.initTypesOnly s p).atEnd = .ok false := rfl
  rw [TypeReader.getCurrentType, hend, ok_bind, cond_false]
  simp only [TypeReader.initTypesOnly, firstTypeInSignature]
  cases hc : s.getByte p with
  | error s => rfl
  | ok c =>
    rw [ok_bind]
    cases TypeCode.ofByte c <;> rfl

theorem variantStart_eq_ok (hm : Readable m p e) {sig : DBusString} :
    variantStart m e p = .ok (sig, a) ↔
      ∃ cs, sig = ⟨window m (p + 1) cs.length, cs.length⟩ ∧ ValidSignature cs ∧ Holds m p (sigBytes cs) ∧
        ∃ t al, firstTypeInSignature sig 0 = .ok t ∧ t ≠ .invalid ∧ t.getAlignment = .ok al ∧
          a = alignUp (p + (sigBytes cs).length) al ∧ p + (sigBytes cs).length ≤ e ∧ a ≤ e ∧
          Holds m (p + (sigBytes cs).length) (pad (p + (sigBytes cs).length) al) := by
  simp only [variantStart, bind_eq_ok, require_eq_ok, assert_eq_ok, initConstLen_eq_ok,
    derefAt_eq_ok, skipPadding_pad, getCurrentType_initTypesOnly, exists_const, pure_eq_ok,
    Except.ok.injEq, Prod.mk.injEq, validateSignatureWithReason, length_sigBytes]
  constructor
  · rintro ⟨c, hc, hle, _, ⟨-, rfl⟩, _, hv, -, rfl, _, hnl, rfl, t, ht, hne, al, hal, he, hp, -, -,
      -, rfl, rfl⟩
    obtain ⟨cs, hl, h⟩ := exists_signature hm hle hc hnl
    have := c.toNat_lt
    have hend : p + (cs.length + 2) = p + 1 + c.toNat + 1 := by omega
    rw [← hend] at he hp ⊢
    rw [← hl] at hv ht ⊢
    obtain ⟨_, hv⟩ := Res.validity_eq_valid.1 hv
    exact ⟨cs, rfl, (validateSignature_window (by omega) (holds_sigBytes.1 h).2).1 hv, h, t, al, ht,
      hne, hal, rfl, by omega, he, hp⟩
  · rintro ⟨cs, rfl, hv, h, t, al, ht, hne, hal, rfl, hle, he, hp⟩
    have hl := toNat_length hv.length_le
    have hmx : cs.length < 256 := Nat.lt_succ_of_le hv.length_le
    obtain ⟨hc, htx⟩ := holds_sigBytes.1 h
    have hnl := (holds_cons.1 (holds_append.1 htx).2).1
    have hv' := Res.validity_eq_valid.2 ⟨(), (validateSignature_window hmx htx).2 hv⟩
    rw [show p + (cs.length + 2) = p + 1 + cs.length + 1 by omega] at he hp ⊢
    refine ⟨_, hc, ?_⟩
    rw [hl]
    exact ⟨by omega, _, ⟨by unfold stringMaxMaxLength; omega, rfl⟩, _, hv', (by simp), rfl, 0, hnl, rfl,
      t, ht, hne, al, hal, he, hp, t, ht, hne, rfl, rfl⟩

theorem structStart_eq_ok : structStart m e r p = .ok (sub, a) ↔
      r.recurse = .ok sub ∧ a = alignUp p 8 ∧ a ≤ e ∧ Holds m p (pad p 8) := by
  simp only [structStart, bind_eq_ok, require_eq_ok, skipPadding_pad, exists_const, pure_eq_ok,
    Except.ok.injEq, Prod.mk.injEq]
  constructor
  · rintro ⟨he, hp, _, hr, rfl, rfl⟩
    exact ⟨hr, rfl, he, hp⟩
  · rintro ⟨hr, rfl, he, hp⟩
    exact ⟨he, hp, _, hr, rfl, rfl⟩

theorem validateArray_eq_ok : validateArray o m e helper n r p = .ok q ↔
      ∃ t len a, arrayStart o m e r p = .ok (t, len, a) ∧ q = a + len ∧
        (0 < len → validateElements o m helper n r len a = .ok q) := by
  simp only [validateArray, bind_eq_ok, Prod.exists]
  constructor
  · rintro ⟨t, len, a, hs, h⟩
    refine ⟨t, len, a, hs, ?_⟩
    split at h
    · simp only [bind_eq_ok, require_eq_ok, exists_const, pure_eq_ok, Except.ok.injEq] at h
      obtain ⟨_, h, rfl, rfl⟩ := h
      exact ⟨rfl, fun _ => h⟩
    · simp only [pure_eq_ok, Except.ok.injEq] at h
      exact ⟨by omega, fun hp => absurd hp (by omega)⟩
  · rintro ⟨t, len, a, hs, rfl, h⟩
    refine ⟨t, len, a, hs, ?_⟩
    split
    · next hp =>
      rw [h hp, ok_bind]
      exact bind_eq_ok.2 ⟨(), require_of rfl, rfl⟩
    · rw [pure_eq_ok, Except.ok.injEq]; omega

theorem validateElements_eq (ht : r.getElementType = .ok t) (hr : r.recurse = .ok sub) :
    validateElements o m helper n r p a =
      match t.fixed? with
      | some .boolean => booleansLoop o m (a + p) (p + 1) a
      | some _ => .ok (a + p)
      | none => elementsLoop (helper sub false) (a + p) n a := by
  rw [validateElements, hr, ok_bind, ht, ok_bind]
  rfl

theorem validateVariant_eq_ok : validateVariant m e helper p = .ok q ↔
      ∃ sig a, variantStart m e p = .ok (sig, a) ∧
        helper (TypeReader.initTypesOnly sig 0) false a = .ok q ∧
        ∃ sub, (TypeReader.initTypesOnly sig 0).next = .ok (false, sub) ∧
          sub.getCurrentType = .ok .invalid := by
  simp only [validateVariant, bind_eq_ok, Prod.exists, require_eq_ok, assert_eq_ok, exists_const,
    pure_eq_ok, Except.ok.injEq]
  constructor
  · rintro ⟨sig, a, hs, _, hh, _, sub, hn, rfl, _, hc, rfl, rfl⟩
    exact ⟨sig, a, hs, hh, sub, hn, hc⟩
  · rintro ⟨sig, a, hs, hh, sub, hn, hc⟩
    exact ⟨sig, a, hs, q, hh, false, sub, hn, rfl, _, hc, rfl, rfl⟩

theorem validateStruct_eq_ok : validateStruct m e helper r p = .ok q ↔
      ∃ sub a, structStart m e r p = .ok (sub, a) ∧ helper sub true a = .ok q := by
  simp only [validateStruct, bind_eq_ok, Prod.exists]

/-! ## The loop -/

theorem validateBodyHelper_invalid (h : r.getCurrentType = .ok .invalid) :
    validateBodyHelper o m e (n + 1) r walk p = .ok p := by
  simp [validateBodyHelper, h, ok_bind]

theorem validateBodyHelper_succ (h : r.getCurrentType = .ok t) (ht : t ≠ .invalid) :
    validateBodyHelper o m e (n + 1) r walk p = .ok q ↔
      p ≠ e ∧ ∃ p', validateValue o m e (validateBodyHelper o m e n) n r p t = .ok p' ∧ p' ≤ e ∧
        if walk then ∃ more r', r.next = .ok (more, r') ∧
          validateBodyHelper o m e n r' walk p' = .ok q
        else q = p' := by
  rw [validateBodyHelper, h, ok_bind, if_neg ht]
  cases walk <;>
    simp only [bind_eq_ok, require_eq_ok, exists_const, pure_eq_ok, Except.ok.injEq, Prod.exists,
      if_true, Bool.false_eq_true, if_false, eq_comm (a := q)]

theorem validateBodyHelper_ok (h : validateBodyHelper o m e n r walk p = .ok q) :
    ∃ k t, n = k + 1 ∧ r.getCurrentType = .ok t := by
  cases n with
  | zero => cases h
  | succ k =>
    rw [validateBodyHelper, bind_eq_ok] at h
    obtain ⟨t, ht, -⟩ := h
    exact ⟨k, t, rfl, ht⟩

theorem bodyAccepted_iff {sig body : List UInt8} :
    BodyAccepted o sig body ↔ body.length ≤ stringMaxMaxLength ∧
      validateBodyHelper o (DBusString.ofBytes body).str body.length (sig.length + body.length + 1)
        (.initTypesOnly (.ofBytes sig) 0) true 0 = .ok body.length := by
  have hlen : (DBusString.ofBytes body).len = body.length := rfl
  have hsl : (DBusString.ofBytes sig).len = sig.length := rfl
  simp only [BodyAccepted, validateBodyWithReason, Res.validity_eq_valid, bind_eq_ok, validateBody,
    DBusString.getConstDataLen, hlen, hsl, assert_eq_ok, require_eq_ok, exists_const, Nat.zero_add,
    le_refl, Nat.sub_zero, Nat.zero_le, true_and]
  refine and_congr_right fun _ => ⟨?_, fun h => ⟨_, h, Nat.lt_irrefl _, rfl⟩⟩
  rintro ⟨q, h, -, rfl⟩
  exact h

end

end DBus
