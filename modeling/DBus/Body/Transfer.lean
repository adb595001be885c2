/-
  What the validator accepted, it accepts wherever the same bytes are found.

  A run that ends at `q` looked at nothing from `q` on that could have changed it
  (`transfers`).  Alignment is to eight bytes at most, so the bytes may also be found further
  on or further back by a multiple of eight.
-/
import DBus.Reader.Values
import DBus.Reader.TypesOnly

namespace DBus

open Outcome Memory Align Endian Value List TypeCode DBusString

/-! ## The text of a signature in a block -/

variable {cs : List UInt8} {c : UInt8} {i : ℕ}

theorem window_eq_ofBytes {m : ℕ → Option UInt8} {p : ℕ} (h : Holds m p (cs ++ [0])) :
    (⟨window m p cs.length, cs.length⟩ : DBusString) = .ofBytes cs := by
  rw [ofBytes]
  congr 1
  funext k
  rw [window]
  split
  · next hk =>
    have hlt : k < (cs ++ [0]).length := by rw [length_append]; exact Nat.lt_succ_of_le hk
    rw [h k hlt, ofList_of_lt hlt]
  · next hk => rw [ofList_eq_none (by rw [length_append]; exact Nat.not_le.1 hk)]

theorem ofBytes_nul (cs : List UInt8) :
    (ofBytes cs).str (ofBytes cs).len = some 0 := ofBytes_str_len cs

/-- The last byte of a valid signature is no array code and no bracket that opens a container. -/
theorem ValidSignature.lt_of_opens (h : ValidSignature cs) (hc : (ofBytes cs).str i = some c)
    (ht : ofByte c = .array ∨ ∃ k, ofByte c = .beginChar k) : i + 1 < cs.length := by
  have hi : i < cs.length := by
    by_contra hi
    rcases Nat.lt_or_eq_of_le (not_lt.1 hi) with hlt | rfl
    · have hnn : (ofBytes cs).str i = none := ofList_eq_none (by rw [length_append]; exact hlt)
      simp [hnn] at hc
    · rw [ofBytes_str_len, Option.some.injEq] at hc
      subst hc
      rcases ht with ht | ⟨k, ht⟩ <;> cases ht
  rw [ofBytes_str_of_lt hi, Option.some.injEq] at hc
  obtain ⟨st, hrn, hfn⟩ := h.run
  by_contra hl
  -- the state behind the last byte has its code
  have hsl : cs = cs.take i ++ [c] := by
    rw [← hc, ← take_succ_eq_append_getElem hi, take_of_length_le (by omega)]
  rw [hsl, sigRun_append] at hrn
  obtain ⟨st1, -, hl⟩ := hrn
  obtain ⟨st2, hsp, hst⟩ := sigRun_cons.1 hl
  obtain rfl : st2 = st := Except.ok.inj hst
  have hcd : st2.last = ofByte c := by
    generalize ofByte c = t at hsp
    cases hsp <;> rfl
  obtain ⟨-, har, hb⟩ := sigFinish_eq_ok.1 hfn
  rcases ht with ht | ⟨k, ht⟩
  · exact har (hcd.trans ht)
  · exact hb k (hcd.trans ht)

theorem ValidSignature.after_begin (h : ValidSignature cs) {k : StructKind}
    (hc : (ofBytes cs).str i = some c) (hk : ofByte c = .beginChar k) :
    ∃ c', (ofBytes cs).str (i + 1) = some c' ∧ c' ≠ 0 := by
  have hlen := h.lt_of_opens hc (.inr ⟨k, hk⟩)
  refine ⟨cs[i + 1], ofBytes_str_of_lt hlen, fun h0 => h.zero_notMem ?_⟩
  rw [← h0]
  exact getElem_mem hlen

section
variable {r sub : TypeReader} {k : StructKind}

theorem recurse_struct_open (h : ValidSignature cs) (hr : TypesOnly (.ofBytes cs) r)
    (ht : r.getCurrentType = .ok (.struct k)) (hsb : r.recurse = .ok sub) :
    sub.getCurrentType ≠ .ok .invalid := by
  have hfr : firstTypeInSignature r.typeStr r.typePos = .ok (.struct k) := by
    simp only [TypeReader.getCurrentType, bind_eq_ok, assert_eq_ok, exists_const, pure_eq_ok,
      Except.ok.injEq] at ht
    obtain ⟨b, -, t, hf, -, rfl⟩ := ht
    cases b with
    | true => cases hf
    | false => exact hf
  rw [TypeReader.recurse, hfr, ok_bind, hr.typesOnly] at hsb
  simp only [TypeReader.structTypesOnlyRecurse, bind_eq_ok, assert_eq_ok, exists_const, pure_eq_ok,
    Except.ok.injEq] at hsb
  obtain ⟨c, hc, hb, rfl⟩ := hsb
  obtain ⟨-, hc⟩ := getByte_eq_ok.1 hc
  change r.typeStr.str r.typePos = some c at hc
  rw [hr.typeStr] at hc
  obtain ⟨c', hc', hne⟩ : ∃ c', (ofBytes cs).str (r.typePos + 1) = some c' ∧ c' ≠ 0 := by
    rcases hb with hb | hb <;> exact h.after_begin hc hb
  intro hi
  simp only [TypeReader.getCurrentType, bind_eq_ok, assert_eq_ok, exists_const, pure_eq_ok,
    Except.ok.injEq] at hi
  obtain ⟨b, hb, t, hf, -, rfl⟩ := hi
  obtain rfl : b = false := (Except.ok.inj hb).symm
  simp only [cond_false, firstTypeInSignature, bind_eq_ok, getByte_eq_ok] at hf
  obtain ⟨c'', ⟨-, hc''⟩, hmp⟩ := hf
  change r.typeStr.str (r.typePos + 1) = some c'' at hc''
  rw [hr.typeStr, hc', Option.some.injEq] at hc''
  subst hc''
  refine hne (eq_toByte (t := .invalid) ?_)
  cases hcd : ofByte c' <;> rw [hcd] at hmp <;> cases hmp

end

/-! ## Positions that are aligned alike -/

section
variable {a a' al : ℕ} {o : ByteOrder}

theorem alignUp_alike (h : a' % 8 = a % 8) (hal : al ∣ 8) : alignUp a' al + a = alignUp a al + a' := by
  have hp := Nat.pos_of_dvd_of_pos hal (by decide)
  rcases Nat.le_total a a' with hle | hle
  all_goals
    obtain ⟨d, rfl⟩ := Nat.exists_eq_add_of_le hle
    rw [alignUp_add hp (Nat.dvd_trans hal (by omega))]
    omega

theorem pad_alike (h : a' % 8 = a % 8) (hal : al ∣ 8) : pad a' al = pad a al := by
  have hp := Nat.pos_of_dvd_of_pos hal (by decide)
  have := alignUp_alike h hal
  have := add_padding (n := a) hp
  have := add_padding (n := a') hp
  rw [pad, pad, show padding a' al = padding a al by omega]

theorem encode_fixed_alike {f : FixedType} {k : ℕ} (h : a' % 8 = a % 8) :
    (Value.fixed f k).encode o a' = (Value.fixed f k).encode o a :=
  congrArg (· ++ _) (pad_alike h f.size_dvd_eight)

theorem encode_str_alike {s : StringType} {bs : List UInt8} (h : a' % 8 = a % 8) :
    (Value.str s bs).encode o a' = (Value.str s bs).encode o a := by
  have hp : pad a' s.alignment = pad a s.alignment := pad_alike h (by cases s <;> decide)
  cases s <;> exact congrArg (· ++ _) hp

theorem TypeCode.alignment_dvd_eight {t : TypeCode} (h : t.getAlignment = .ok al) : al ∣ 8 := by
  cases t with
  | basic b => cases h; exact b.alignment_dvd_eight
  | variant | array | struct k => cases h; decide
  | _ => cases h

end

/-! ## Basic values -/

section
variable {o : ByteOrder} {m m' : ℕ → Option UInt8} {e e' p p' q q' n n' : ℕ} {r : TypeReader}
  {a : ℕ} {t : TypeCode} {sig : DBusString}

/-- The memory `m'` has from `p'` on the bytes that `m` has from `p` to `q`, where it is
    cut off at some end `e'` up to which it can be read. -/
structure SameBytes (m m' : ℕ → Option UInt8) (e' p p' q : ℕ) : Prop where
  alike : p' % 8 = p % 8
  readable : Readable m' p' e'
  le : p' + q ≤ e' + p
  agree : ∀ k k', p ≤ k → k < q → k' + p = k + p' → m' k' = m k

theorem SameBytes.inPlace (hr : Readable m' p e') (hq : q ≤ e')
    (h : ∀ k, p ≤ k → k < q → m' k = m k) : SameBytes m m' e' p p q :=
  ⟨rfl, hr, by omega, fun k k' hk hlt heq => by rw [Nat.add_right_cancel heq, h k hk hlt]⟩

theorem SameBytes.holds (h : SameBytes m m' e' p p' q) {a' : ℕ} {xs : List UInt8}
    (hx : Holds m a xs) (hp : p ≤ a) (hq : a + xs.length ≤ q) (ha : a' + p = a + p') :
    Holds m' a' xs := fun k hk => by
  rw [h.agree (a + k) (a' + k) (by omega) (by omega) (by omega), hx k hk]

theorem SameBytes.mono (h : SameBytes m m' e' p p' q) {a' b : ℕ} (hp : p ≤ a) (hb : b ≤ q)
    (ha : a' + p = a + p') : SameBytes m m' e' a a' b := by
  have hal := h.alike
  have hle := h.le
  refine ⟨by omega, h.readable.mono (by omega), by omega, fun k k' hk hlt heq => ?_⟩
  exact h.agree k k' (by omega) (by omega) (by omega)

/-- What a validating step that ended at `q` says: it moved on, and it would have ended at
    the same place over any memory with the same bytes. -/
def Passes (m : ℕ → Option UInt8) (p q : ℕ) (run : (ℕ → Option UInt8) → ℕ → ℕ → Res ℕ) : Prop :=
  p < q ∧ ∀ {m' : ℕ → Option UInt8} {e' p' q' : ℕ}, SameBytes m m' e' p p' q →
    q' + p = q + p' → run m' e' p' = .ok q'

theorem passes_fixed {f : FixedType} (hm : Readable m p e)
    (h : validateFixed o m e f p = .ok q) (hq : q ≤ e) :
    Passes m p q fun m' e' => validateFixed o m' e' f := by
  obtain ⟨k, hk, hw, hh, hend, -⟩ := (validateFixed_iff hm).1 ⟨h, hq⟩
  have hlen := add_length_encode_fixed (o := o) (p := p) f k
  have hle := le_alignUp (n := p) f.size_pos
  have hp := f.size_pos
  refine ⟨by omega, fun {m' e' p' q'} hs hq' => ?_⟩
  have hle' := hs.le
  have hh' := hs.holds hh (le_refl p) hend.ge (Nat.add_comm p' p)
  rw [← encode_fixed_alike hs.alike] at hend hh'
  exact ((validateFixed_iff hs.readable).2 ⟨k, hk, hw, hh', by omega, by omega⟩).1

theorem passes_string {s : StringType} (hs : s ≠ .signature) (hm : Readable m p e)
    (h : validateString o m e s p = .ok q) :
    Passes m p q fun m' e' => validateString o m' e' s := by
  obtain ⟨bs, hc, hmx, hh, hend, -⟩ := (validateString_iff hs hm).1 h
  have hlen := add_length_encode_string (o := o) (p := p) hs bs
  have hle := le_alignUp (n := p) (show 0 < 4 by decide)
  refine ⟨by omega, fun {m' e' p' q'} hsm hq' => ?_⟩
  have hle' := hsm.le
  have hh' := hsm.holds hh (le_refl p) hend.ge (Nat.add_comm p' p)
  rw [← encode_str_alike hsm.alike] at hend hh'
  exact (validateString_iff hs hsm.readable).2 ⟨bs, hc, hmx, hh', by omega, by omega⟩

theorem passes_signature (hm : Readable m p e) (h : validateSignatureValue m e p = .ok q) :
    Passes m p q fun m' e' => validateSignatureValue m' e' := by
  obtain ⟨bs, hc, hh, hend, -⟩ := (validateSignatureValue_iff (o := .little) hm).1 h
  have hlen : ((Value.str .signature bs).encode .little p).length = bs.length + 2 := by
    rw [encode_signature, length_sigBytes]
  refine ⟨by omega, fun {m' e' p' q'} hsm hq' => ?_⟩
  have hle' := hsm.le
  have hh' := hsm.holds hh (le_refl p) hend.ge (Nat.add_comm p' p)
  rw [← encode_str_alike hsm.alike] at hend hh'
  exact (validateSignatureValue_iff (o := .little) hsm.readable).2 ⟨bs, hc, hh', by omega, by omega⟩

theorem booleansLoop_same {arrayEnd arrayEnd' : ℕ} (h : booleansLoop o m arrayEnd n p = .ok q) :
    p ≤ q ∧ (SameBytes m m' e' p p' q → q' + p = q + p' → arrayEnd' + p = arrayEnd + p' →
      booleansLoop o m' arrayEnd' n p' = .ok q') := by
  induction n generalizing p p' with
  | zero => cases h
  | succ n ih =>
    rw [booleansLoop] at h
    split at h
    · next hlt =>
      obtain ⟨_, hb, h⟩ := bind_eq_ok.1 h
      obtain ⟨hle, hrs⟩ := @ih (p + 4) (p' + 4) h
      refine ⟨by omega, fun hs hq' hend => ?_⟩
      obtain ⟨hd, k, hk, hh⟩ := checkBoolean_eq_ok.1 hb
      have hal := hs.alike
      have hh' := hs.holds hh (le_refl p) (by rw [length_toBytes]; exact hle) (Nat.add_comm p' p)
      rw [booleansLoop, if_pos (by omega)]
      refine bind_eq_ok.2 ⟨(), checkBoolean_eq_ok.2 ⟨by omega, k, hk, hh'⟩, ?_⟩
      exact hrs (hs.mono (by omega) (le_refl q) (by omega)) (by omega) (by omega)
    · next hlt =>
      cases h
      refine ⟨le_refl _, fun _ hq' hend => ?_⟩
      rw [booleansLoop, if_neg (by omega), show q' = p' by omega]
      rfl

/-! ## Containers -/

theorem arrayStart_lt {len : ℕ} (h : arrayStart o m e r p = .ok (t, len, a)) : p < a := by
  obtain ⟨-, -, -, -, -, -, al, hal, rfl, -⟩ := arrayStart_eq_ok.1 h
  have hle := le_alignUp (n := p) (show 0 < 4 by decide)
  have hle' := le_alignUp (n := alignUp p 4 + 4) (t.getAlignment_pos hal)
  omega

theorem arrayStart_same {len a' : ℕ} (h : arrayStart o m e r p = .ok (t, len, a))
    (hs : SameBytes m m' e' p p' (a + len)) (ha' : a' + p = a + p') :
    arrayStart o m' e' r p' = .ok (t, len, a') := by
  obtain ⟨ht, hv, hn, hmx, hw, -, al, hal, ha, hpd⟩ := arrayStart_eq_ok.1 h
  have hwl : p + (pad p 4 ++ toBytes o 4 len).length = alignUp p 4 + 4 := by
    rw [length_append, length_pad, length_toBytes, ← Nat.add_assoc, add_padding (by decide)]
  have hp : alignUp p 4 + 4 + (pad (alignUp p 4 + 4) al).length = a := by
    rw [length_pad, add_padding (t.getAlignment_pos hal), ha]
  -- where the length ends, both positions are aligned alike again
  have hal0 := hs.alike
  have hend := hs.le
  have hfr := alignUp_alike hal0 (show 4 ∣ 8 by decide)
  have hal1 : (alignUp p' 4 + 4) % 8 = (alignUp p 4 + 4) % 8 := by omega
  have hel := alignUp_alike hal1 (alignment_dvd_eight hal)
  have hw' := hs.holds hw (le_refl p) (by omega) (Nat.add_comm p' p)
  have hpd' : Holds m' (alignUp p' 4 + 4) _ := hs.holds hpd (by omega) (by omega) (by omega)
  rw [← pad_alike hal0 (by decide)] at hw'
  rw [← pad_alike hal1 (alignment_dvd_eight hal)] at hpd'
  exact arrayStart_eq_ok.2 ⟨ht, hv, hn, hmx, hw', by omega, al, hal, by omega, hpd'⟩

section
variable (hm : Readable m p e)
include hm

theorem variantStart_iff : variantStart m e p = .ok (sig, a) ↔
      ∃ cs, sig = .ofBytes cs ∧ ValidSignature cs ∧ Holds m p (sigBytes cs) ∧
        ∃ t al, firstTypeInSignature (.ofBytes cs) 0 = .ok t ∧ t ≠ .invalid ∧
          t.getAlignment = .ok al ∧ a = alignUp (p + (sigBytes cs).length) al ∧
          p + (sigBytes cs).length ≤ e ∧ a ≤ e ∧
          Holds m (p + (sigBytes cs).length) (pad (p + (sigBytes cs).length) al) := by
  rw [variantStart_eq_ok hm]
  constructor
  · rintro ⟨cs, rfl, hv, hh, t, al, ht, hrs⟩
    have hw := window_eq_ofBytes (holds_sigBytes.1 hh).2
    exact ⟨cs, hw, hv, hh, t, al, hw ▸ ht, hrs⟩
  · rintro ⟨cs, rfl, hv, hh, t, al, ht, hrs⟩
    have hw := window_eq_ofBytes (holds_sigBytes.1 hh).2
    exact ⟨cs, hw.symm, hv, hh, t, al, ht, hrs⟩

theorem variantStart_lt (h : variantStart m e p = .ok (sig, a)) : p < a := by
  obtain ⟨cs, -, -, -, t, al, -, -, hal, rfl, -⟩ := (variantStart_iff hm).1 h
  have hle := le_alignUp (n := p + (sigBytes cs).length) (t.getAlignment_pos hal)
  rw [length_sigBytes] at hle ⊢
  omega

theorem variantStart_same {a' : ℕ} (h : variantStart m e p = .ok (sig, a))
    (hs : SameBytes m m' e' p p' a) (ha' : a' + p = a + p') :
    variantStart m' e' p' = .ok (sig, a') := by
  obtain ⟨cs, hsg, hv, hh, t, al, ht, hne, hal, ha, -, -, hpd⟩ := (variantStart_iff hm).1 h
  have hle : p + (sigBytes cs).length ≤ a := ha ▸ le_alignUp (t.getAlignment_pos hal)
  have hp : p + (sigBytes cs).length + (pad (p + (sigBytes cs).length) al).length = a := by
    rw [length_pad, add_padding (t.getAlignment_pos hal), ha]
  have hend := hs.le
  have hdv := alignment_dvd_eight hal
  have hal1 : (p' + (sigBytes cs).length) % 8 = (p + (sigBytes cs).length) % 8 := by
    have := hs.alike
    omega
  have hel := alignUp_alike hal1 hdv
  have hpd' : Holds m' (p' + (sigBytes cs).length) _ :=
    hs.holds hpd (by omega) (by omega) (by omega)
  rw [← pad_alike hal1 hdv] at hpd'
  exact (variantStart_iff hs.readable).2 ⟨cs, hsg, hv,
    hs.holds hh (le_refl p) hle (Nat.add_comm p' p), t, al, ht, hne, hal, by omega, by omega,
    by omega, hpd'⟩

end

/-- What holds of runs of the helper with fuel `n`. -/
def Transfers (o : ByteOrder) (m : ℕ → Option UInt8) (e n : ℕ) : Prop :=
  ∀ {cs : List UInt8} {r : TypeReader} {walk : Bool} {p q : ℕ}, ValidSignature cs →
    TypesOnly (.ofBytes cs) r → Readable m p e → validateBodyHelper o m e n r walk p = .ok q →
    p ≤ q ∧ (r.getCurrentType ≠ .ok .invalid → p < q) ∧
      ∀ {m' : ℕ → Option UInt8} {e' n' p' q' : ℕ}, SameBytes m m' e' p p' q → q' + p = q + p' →
        n ≤ n' → validateBodyHelper o m' e' n' r walk p' = .ok q'

section
variable (ih : Transfers o m e n)
include ih

section
variable (hv : ValidSignature cs) (hr : TypesOnly (.ofBytes cs) r)
include hv hr

theorem Transfers.loop {arrayEnd k k' : ℕ} (hm : Readable m p e)
    (h : elementsLoop (validateBodyHelper o m e n r false) arrayEnd k p = .ok q) (hk : k ≤ k')
    (hn : n ≤ n') :
    p ≤ q ∧ ∀ {m' : ℕ → Option UInt8} {e' p' q' arrayEnd' : ℕ}, SameBytes m m' e' p p' q →
      q' + p = q + p' → arrayEnd' + p = arrayEnd + p' →
      elementsLoop (validateBodyHelper o m' e' n' r false) arrayEnd' k' p' = .ok q' := by
  induction k generalizing p k' with
  | zero => cases h
  | succ k ihk =>
    obtain _ | k' := k'
    · omega
    rw [elementsLoop] at h
    split at h
    · next hlt =>
      obtain ⟨p1, hp1, h⟩ := bind_eq_ok.1 h
      obtain ⟨hle, -, hel⟩ := ih hv hr hm hp1
      obtain ⟨hle', hrs⟩ := ihk (hm.mono hle) h (Nat.le_of_succ_le_succ hk)
      refine ⟨hle.trans hle', fun {m' e' p' q' arrayEnd'} hs hq' hend => ?_⟩
      obtain ⟨p1', hp'⟩ : ∃ p1', p1' + p = p1 + p' := ⟨p1 + p' - p, by omega⟩
      rw [elementsLoop, if_pos (by omega),
        hel (hs.mono (le_refl p) hle' (Nat.add_comm p' p)) hp' hn, ok_bind]
      exact hrs (hs.mono hle (le_refl q) hp') (by omega) (by omega)
    · next hlt =>
      cases h
      refine ⟨le_refl _, fun {m' e' p' q' arrayEnd'} _ hq' hend => ?_⟩
      rw [elementsLoop, if_neg (by omega), show q' = p' by omega]
      rfl

theorem Transfers.array (hm : Readable m p e)
    (h : validateArray o m e (validateBodyHelper o m e n) n r p = .ok q) (hn : n ≤ n') :
    Passes m p q fun m' e' => validateArray o m' e' (validateBodyHelper o m' e' n') n' r := by
  obtain ⟨t, len, a, hst, rfl, hel⟩ := validateArray_eq_ok.1 h
  have hpa := arrayStart_lt hst
  refine ⟨by omega, fun {m' e' p' q'} hs hq' => ?_⟩
  obtain ⟨a', ha'⟩ : ∃ a', a' + p = a + p' := ⟨a + p' - p, by omega⟩
  refine validateArray_eq_ok.2 ⟨t, len, a', arrayStart_same hst hs ha', by omega, fun hp => ?_⟩
  have ht := (arrayStart_eq_ok.1 hst).1
  obtain ⟨sub, hrc⟩ := hr.recurse_of_getElementType ht
  have hsb := (hr.recurse_sat (terminated_ofBytes cs)).of_ok hrc
  have hel := hel hp
  have hs' := hs.mono hpa.le (le_refl (a + len)) ha'
  rw [validateElements_eq ht hrc] at hel ⊢
  cases hf : t.fixed? with
  | none =>
    rw [hf] at hel
    exact (ih.loop hv hsb (hm.mono hpa.le) hel hn hn).2 hs' (by omega) (by omega)
  | some f =>
    rw [hf] at hel
    cases f with
    | boolean => exact (booleansLoop_same hel).2 hs' (by omega) (by omega)
    | _ => exact congrArg Except.ok (by omega)

end

theorem Transfers.variant (hm : Readable m p e)
    (h : validateVariant m e (validateBodyHelper o m e n) p = .ok q) (hn : n ≤ n') :
    Passes m p q fun m' e' => validateVariant m' e' (validateBodyHelper o m' e' n') := by
  obtain ⟨sig, a, hst, hvl, sub, hnx, hend⟩ := validateVariant_eq_ok.1 h
  have hpa := variantStart_lt hm hst
  obtain ⟨cs, rfl, hv, -⟩ := (variantStart_iff hm).1 hst
  obtain ⟨hle, -, hh⟩ := ih hv (typesOnly_init _ _) (hm.mono hpa.le) hvl
  refine ⟨by omega, fun {m' e' p' q'} hs hq' => ?_⟩
  obtain ⟨a', ha'⟩ : ∃ a', a' + p = a + p' := ⟨a + p' - p, by omega⟩
  have hs' := hs.mono (le_refl p) hle (Nat.add_comm p' p)
  refine validateVariant_eq_ok.2 ⟨_, a', variantStart_same hm hst hs' ha', ?_, sub, hnx, hend⟩
  exact hh (hs.mono hpa.le (le_refl q) ha') (by omega) hn

section
variable (hv : ValidSignature cs) (hr : TypesOnly (.ofBytes cs) r) (hm : Readable m p e)
include hv hr hm

theorem Transfers.struct {k : StructKind} (ht : r.getCurrentType = .ok (.struct k))
    (h : validateStruct m e (validateBodyHelper o m e n) r p = .ok q) (hn : n ≤ n') :
    Passes m p q fun m' e' => validateStruct m' e' (validateBodyHelper o m' e' n') r := by
  obtain ⟨sub, a, hst, hvl⟩ := validateStruct_eq_ok.1 h
  obtain ⟨hrc, rfl, -, hpd⟩ := structStart_eq_ok.1 hst
  have hpa := le_alignUp (n := p) (show 0 < 8 by decide)
  have hsb := (hr.recurse_sat (terminated_ofBytes cs)).of_ok hrc
  obtain ⟨hle, hlt, hh⟩ := ih hv hsb (hm.mono hpa) hvl
  have hlt := hlt (recurse_struct_open hv hr ht hrc)
  have hp : p + (pad p 8).length = alignUp p 8 := by rw [length_pad, add_padding (by decide)]
  refine ⟨by omega, fun {m' e' p' q'} hs hq' => ?_⟩
  have hend := hs.le
  have hal := alignUp_alike hs.alike (Nat.dvd_refl 8)
  have hpd' := hs.holds hpd (le_refl p) (by omega) (Nat.add_comm p' p)
  rw [← pad_alike hs.alike (Nat.dvd_refl 8)] at hpd'
  refine validateStruct_eq_ok.2 ⟨sub, _, structStart_eq_ok.2 ⟨hrc, rfl, by omega, hpd'⟩, ?_⟩
  exact hh (hs.mono hpa (le_refl q) hal) (by omega) hn

theorem Transfers.value (ht : r.getCurrentType = .ok t)
    (h : validateValue o m e (validateBodyHelper o m e n) n r p t = .ok q) (hq : q ≤ e)
    (hn : n ≤ n') : Passes m p q fun m' e' p' =>
      validateValue o m' e' (validateBodyHelper o m' e' n') n' r p' t := by
  match t with
  | .basic (.fixed f) => exact passes_fixed hm h hq
  | .basic (.str .string) | .basic (.str .objectPath) => exact passes_string (by decide) hm h
  | .basic (.str .signature) => exact passes_signature hm h
  | .array => exact ih.array hv hr hm h hn
  | .variant => exact ih.variant hm h hn
  | .struct k => exact ih.struct hv hr hm ht h hn
  | .invalid | .unknown _ | .beginChar _ | .endChar _ => cases h

end

end

/-- **Accepted bytes are accepted anywhere.** -/
theorem transfers (n : ℕ) : Transfers o m e n := by
  induction n with
  | zero => exact fun _ _ _ h => nomatch h
  | succ n ih =>
    intro cs r walk p q hv hr hm h
    obtain ⟨_, t, -, ht⟩ := validateBodyHelper_ok h
    by_cases hi : t = .invalid
    · subst hi
      rw [validateBodyHelper_invalid ht, Except.ok.injEq] at h
      refine ⟨h.le, fun hne => absurd ht hne, fun {m' e' n' p' q'} _ hq' hn => ?_⟩
      obtain _ | n' := n'
      · omega
      rw [validateBodyHelper_invalid ht, show q' = p' by omega]
    · obtain ⟨-, p1, hvl, hpe, hrs⟩ := (validateBodyHelper_succ ht hi).1 h
      have hlt := (ih.value hv hr hm ht hvl hpe (le_refl n)).1
      -- over the other memory the value ends at the same place, and what follows it as before
      have hst {m' : ℕ → Option UInt8} {e' n' p' p1' q' : ℕ} (hs : SameBytes m m' e' p p' p1)
          (hp1 : p1' + p = p1 + p') (hn : n ≤ n')
          (hrs' : if walk then ∃ more r', r.next = .ok (more, r') ∧
            validateBodyHelper o m' e' n' r' walk p1' = .ok q' else q' = p1') :
          validateBodyHelper o m' e' (n' + 1) r walk p' = .ok q' := by
        have := hs.le
        exact (validateBodyHelper_succ ht hi).2
          ⟨by omega, p1', (ih.value hv hr hm ht hvl hpe hn).2 hs hp1, by omega, hrs'⟩
      cases walk with
      | false =>
        obtain rfl : q = p1 := hrs
        refine ⟨hlt.le, fun _ => hlt, fun {m' e' n' p' q'} hs hq' hn => ?_⟩
        obtain _ | n' := n'
        · omega
        exact hst hs hq' (by omega) rfl
      | true =>
        obtain ⟨more, r', hnx, hvl'⟩ := hrs
        have hr' := (hr.next_sat (terminated_ofBytes cs) (ofBytes_nul cs)).of_ok hnx
        obtain ⟨hle, -, hh⟩ := ih hv hr' (hm.mono hlt.le) hvl'
        refine ⟨by omega, fun _ => by omega, fun {m' e' n' p' q'} hs hq' hn => ?_⟩
        obtain _ | n' := n'
        · omega
        obtain ⟨p1', hp1⟩ : ∃ p1', p1' + p = p1 + p' := ⟨p1 + p' - p, by omega⟩
        exact hst (hs.mono (le_refl p) hle (Nat.add_comm p' p)) hp1 (by omega)
          ⟨more, r', hnx, hh (hs.mono hlt.le (le_refl q) hp1) (by omega) (by omega)⟩

end

end DBus
