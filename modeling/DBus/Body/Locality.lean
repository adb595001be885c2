/-
  Which bytes the body validator looks at.

  Over a memory in which nothing behind the range can be read, the run looks at a byte it
  cannot read exactly if it looks at a boolean that does not end inside of the range, for the
  validator only checks that its first byte is there; if it does not, the run over another
  memory with the same bytes in the range has the same outcome (`locality`).
-/
import DBus.Body.Accept
import DBus.Body.Trace
import DBus.Reader.TypesOnly

namespace DBus

open Outcome Memory Align Endian Traced DBusString

/-- A boolean that is looked at ends before `e`. -/
def Part.endsBefore (e : ℕ) : Part → Bool
  | .boolean p => p + 4 ≤ e
  | _ => true

/-- Nothing in `m` can be read from `e` on, and the memory `m'` has the same bytes in
    the range from `p` to `e`, all of which can be read. -/
structure InRange (m m' : ℕ → Option UInt8) (p e : ℕ) : Prop where
  readable : Readable m p e
  agree : ∀ k, p ≤ k → k < e → m' k = m k
  closed : ∀ k, e ≤ k → m k = none

/-- Two runs with the same outcome, which looked at nothing they may not read. -/
abbrev Stays {α : Type} (x y : Res α) (Q : α → Prop) : Prop := Agree x y Q Stop.Plain

section
variable {o : ByteOrder} {m m' : ℕ → Option UInt8} {e p a n : ℕ} {s : DBusString} {r : TypeReader}
  {v : DBusValidity} {hv : v ≠ .valid} {α : Type} {Q : α → Prop}

theorem InRange.mono (h : InRange m m' p e) (ha : p ≤ a) : InRange m m' a e :=
  ⟨h.readable.mono ha, fun k hk => h.agree k (ha.trans hk), h.closed⟩

section
variable {c : Prop} [Decidable c] (ho : v ≠ .validityUnknownOomError)
include ho

theorem stays_require : Stays (require c v hv) (require c v hv) fun _ => c := agree_ensure ho

theorem sat_require : Plainly (require c v hv) := sat_ensure (fun _ => trivial) fun _ => ho

theorem vets_require : Vets (require c v hv) fun _ => c := sat_ensure id fun _ => ho

theorem vets_require_last : Vets (require c v hv) fun _ => True :=
  (vets_require ho).mono (fun _ _ => trivial) fun _ h => h

omit ho in
theorem vets_assert (h : c) : Vets (assert c) fun _ => True := by
  rw [assert_of h]
  trivial

end

/-- Two runs with the same outcome, which is a value or a rejection. -/
abbrev SameVerdict {α : Type} (x y : Res α) (Q : α → Prop) : Prop := Agree x y Q Stop.Rejects

theorem SameVerdict.stays {x y : Res α} (h : SameVerdict x y Q) : Stays x y Q := h.mono fun _ hs => hs.plain

/-! ## Bytes, padding and words -/

section
variable (h : InRange m m' p e)
include h

theorem InRange.derefAt (ha : p ≤ a) (he : a < e) :
    SameVerdict (derefAt m a) (derefAt m' a) fun c => m a = some c := by
  obtain ⟨c, hc⟩ := Option.isSome_iff_exists.1 (h.readable a ha he)
  rw [DBus.derefAt, DBus.derefAt, h.agree a ha he, hc]
  exact ⟨rfl, rfl⟩

theorem InRange.skipPadding (n : ℕ) (ha : p ≤ a) (he : a + n ≤ e) :
    SameVerdict (skipPadding m n a) (skipPadding m' n a) fun _ => True := by
  induction n generalizing a with
  | zero => exact ⟨rfl, trivial⟩
  | succ n ih =>
    refine (h.derefAt ha (by omega)).bind fun c _ => ?_
    exact (vets_require (by decide)).agree.bind fun _ _ => ih (by omega) (by omega)

theorem InRange.pad {al : ℕ} (hal : 0 < al) (he : alignUp p al ≤ e) :
    SameVerdict (DBus.skipPadding m (alignUp p al - p) p)
      (DBus.skipPadding m' (alignUp p al - p) p) fun _ => True := by
  have := le_alignUp (n := p) hal
  exact h.skipPadding _ (le_refl p) (by omega)

theorem InRange.readN (ha : p ≤ a) (he : a + n ≤ e) :
    ∃ bs, readN m a n = some bs ∧ readN m' a n = some bs := by
  obtain ⟨bs, hbs⟩ := readN_isSome (m := m) (i := a) (n := n) fun k hk =>
    h.readable _ (by omega) (by omega)
  refine ⟨bs, hbs, ?_⟩
  rw [← hbs]
  exact readN_congr fun k hk => h.agree _ (by omega) (by omega)

theorem InRange.unpackUint32 (ha : p ≤ a) (he : a + 4 ≤ e) (hd : 4 ∣ a) :
    SameVerdict (unpackUint32 o m a) (unpackUint32 o m' a) fun _ => True := by
  obtain ⟨bs, hbs, hbs'⟩ := h.readN ha he
  rw [DBus.unpackUint32, DBus.unpackUint32, assert_bind (alignUp_of_dvd hd),
    assert_bind (alignUp_of_dvd hd), hbs, hbs']
  exact ⟨rfl, trivial⟩

theorem InRange.claimedLen :
    SameVerdict (claimedLen o m e p) (claimedLen o m' e p) fun out => p ≤ out.2 ∧ out.2 ≤ e := by
  have hle := le_alignUp (n := p) (show 0 < 4 by decide)
  refine (vets_require (by decide)).agree.bind fun _ he => ?_
  refine (h.pad (by decide) (by omega)).bind fun _ _ => ?_
  refine (h.unpackUint32 hle he dvd_alignUp).bind fun _ _ => ?_
  rw [assert_bind he]
  exact ⟨rfl, by omega, he⟩

end

/-! ## Texts -/

section
variable (h : InRange m m' p e)
include h

theorem InRange.holds (ha : p ≤ a) (he : a + n ≤ e) :
    ∃ bs : List UInt8, bs.length = n ∧ Holds m a bs ∧ Holds m' a bs := by
  obtain ⟨bs, hbs, hbs'⟩ := h.readN ha he
  exact ⟨bs, (readN_eq_some.1 hbs).1, (readN_eq_some.1 hbs).2, (readN_eq_some.1 hbs').2⟩

theorem InRange.validateContents (ha : p ≤ a) (he : a + n ≤ e) (t : StringType) :
    SameVerdict (validateContents t ⟨window m a n, n⟩) (validateContents t ⟨window m' a n, n⟩)
      fun _ => True := by
  obtain ⟨bs, rfl, hm, hm'⟩ := h.holds ha he
  have hw := (holds_window (n := bs.length) (Nat.le_succ _)).2 hm
  have hw' := (holds_window (n := bs.length) (Nat.le_succ _)).2 hm'
  have hst : SameVerdict (stringValidateUtf8 ⟨window m a bs.length, bs.length⟩ 0 bs.length)
      (stringValidateUtf8 ⟨window m' a bs.length, bs.length⟩ 0 bs.length) fun _ => True := by
    rw [stringValidateUtf8_eq rfl hw, stringValidateUtf8_eq rfl hw']
    exact ⟨rfl, trivial⟩
  have hp : SameVerdict (validatePath ⟨window m a bs.length, bs.length⟩ 0 bs.length)
      (validatePath ⟨window m' a bs.length, bs.length⟩ 0 bs.length) fun _ => True := by
    rw [validatePath_eq rfl hw, validatePath_eq rfl hw']
    exact ⟨rfl, trivial⟩
  cases t with
  | objectPath => exact hp.bind fun _ _ => (vets_require_last (by decide)).agree
  | _ => exact hst.bind fun _ _ => (vets_require_last (by decide)).agree

/-- A string is too long for `_dbus_string_init_const_len` only if the memory is. -/
theorem InRange.validateString_of {E : Stop → Prop} (hE : ∀ s : Stop, s.Rejects → E s)
    (he : e ≤ stringMaxMaxLength ∨ E .assertion) (t : StringType) :
    Agree (validateString o m e t p) (validateString o m' e t p) (fun q => p ≤ q) E := by
  refine (h.claimedLen.mono hE).bind fun ⟨len, q⟩ hq => ?_
  obtain ⟨hpq, hqe⟩ : p ≤ q ∧ q ≤ e := hq
  refine ((vets_require (by decide)).agree.mono hE).bind fun _ hlen => ?_
  simp only [initConstLen, bind_assoc, pure_bind]
  refine Agree.bind (Q := fun _ => True) ⟨rfl, sat_ensure (fun _ => trivial) fun hn => ?_⟩ fun _ _ => ?_
  · exact he.resolve_left fun he => hn (by omega)
  refine ((h.validateContents hpq (by omega) t).mono hE).bind fun _ _ => ?_
  refine ((vets_require (by decide)).agree.mono hE).bind fun _ hne => ?_
  refine ((h.derefAt (by omega) (by omega)).mono hE).bind fun _ _ => ?_
  exact ((vets_require (by decide)).agree.mono hE).bind fun _ _ => ⟨rfl, show p ≤ q + len + 1 by omega⟩

theorem InRange.validateString (t : StringType) :
    Stays (validateString o m e t p) (validateString o m' e t p) fun q => p ≤ q :=
  h.validateString_of (fun _ hs => hs.plain) (.inr trivial) t

theorem InRange.terminated (ha : p ≤ a) (he : a + n < e) :
    Terminated ⟨window m a n, n⟩ := fun i hi => by
  have hi : i ≤ n := hi
  have hcl : window m a n i = m (a + i) := if_pos hi
  exact (congrArg Option.isSome hcl).trans (h.readable _ (by omega) (by omega))

end

/-! ## Signatures -/

theorem elementCountValidity_ne_oom (n : ℕ) :
    elementCountValidity n ≠ .validityUnknownOomError := by
  unfold elementCountValidity
  split
  · decide
  · split <;> decide

theorem sigSwitch_vets (st : SigState) (t : TypeCode) : Vets (sigSwitch st t) fun _ => True := by
  unfold sigSwitch
  split
  · trivial
  · trivial
  · exact (vets_require (by decide)).bind fun _ _ => trivial
  · exact (vets_require (by decide)).bind fun _ _ => trivial
  · exact (vets_require (by decide)).bind fun _ _ => (vets_require (by decide)).bind fun _ _ => trivial
  · exact (vets_require (by decide)).bind fun _ _ => (vets_require (by decide)).bind fun _ _ => trivial
  · exact (vets_require (by decide)).bind fun _ _ =>
      (vets_require (elementCountValidity_ne_oom _)).bind fun _ _ => trivial
  · nofun
  · nofun
  · nofun

theorem sigStep_vets (d : UInt8) (st : SigState) (c : UInt8) :
    Vets (sigStep (.ok d) st c) fun _ => True := by
  refine (sigSwitch_vets st _).bind fun st _ => ?_
  refine .bind (P := fun _ => True) ?_ fun st _ => (vets_require (by decide)).bind fun _ _ => trivial
  unfold sigArrays
  split
  · split
    · exact (vets_require (by decide)).bind fun _ _ => trivial
    · trivial
  · trivial

/-- What was opened last is counted. -/
structure SigState.Counts (st : SigState) : Prop where
  array : st.last = .array → st.arrayDepth ≠ 0
  struct : st.last = .beginChar .struct → st.structDepth ≠ 0
  dictEntry : st.last = .beginChar .dictEntry → st.dictEntryDepth ≠ 0

theorem SigStep.counts {d t : TypeCode} {st st' : SigState} (h : SigStep d st t st') :
    st'.Counts := by
  cases h <;> constructor <;> simp

theorem sigRun_vets {cs : List UInt8} {x : UInt8} {st : SigState} (h : st.Counts) :
    Vets (sigRun x cs st >>= sigFinish) fun _ => True := by
  induction cs generalizing st with
  | nil =>
    refine (vets_require (by decide)).bind fun _ ha => (vets_require (by decide)).bind fun _ hs => ?_
    refine (vets_require (by decide)).bind fun _ hd => ?_
    have hla : st.last ≠ .array := fun hl => h.array hl ha
    have hls : st.last ≠ .beginChar .struct := fun hl => h.struct hl hs
    have hld : st.last ≠ .beginChar .dictEntry := fun hl => h.dictEntry hl hd
    rw [assert_bind hla, assert_bind hls, assert_of hld]
    trivial
  | cons c cs ih =>
    rw [sigRun, bind_assoc]
    have hst := sigStep_vets (cs.headD x) st c
    cases hs : sigStep (.ok (cs.headD x)) st c with
    | error e => exact hst.of_error hs
    | ok st' => exact ih (sigStep_iff.1 hs).counts

/-- **The signature validator fails none of its assertions.** -/
theorem validateSignature_vets {cs : List UInt8} {x : UInt8} (hlt : cs.length < 256)
    (hl : s.len = cs.length) (h : Holds s.str 0 (cs ++ [x])) :
    Vets (validateSignature s 0 s.len) fun _ => True := by
  rw [validateSignature, assert_bind (by omega)]
  refine (vets_require (by decide)).bind fun _ _ => ?_
  have hdt {a : ℕ} (ha : a ≤ s.len) : s.getConstDataLen a 0 = .ok () := by
    rw [getConstDataLen, assert_bind ha, assert_of (Nat.zero_le _)]
  rw [hdt (by omega), ok_bind, hdt (by omega), ok_bind, hl, sigLoop_eq_sigRun h]
  exact sigRun_vets ⟨by rintro ⟨⟩, by rintro ⟨⟩, by rintro ⟨⟩⟩

/-- A valid signature starts with a type, unless it is empty. -/
theorem ValidSignature.firstType {cs : List UInt8} (hv : ValidSignature cs)
    (h : Holds s.str 0 (cs ++ [0])) : ∃ t, firstTypeInSignature s 0 = .ok t ∧
      (t ≠ .invalid → ∃ al, t.getAlignment = .ok al) := by
  obtain ⟨st, hr, -⟩ := hv.run
  cases cs with
  | nil =>
    have hc := getByte_eq_ok.2 ⟨Nat.zero_le _, (holds_cons.1 h).1⟩
    exact ⟨.invalid, by rw [firstTypeInSignature, hc]; rfl, fun hne => absurd rfl hne⟩
  | cons c cs =>
    have hc := getByte_eq_ok.2 ⟨Nat.zero_le _, (holds_cons.1 h).1⟩
    obtain ⟨st1, hs, -⟩ := sigRun_cons.1 hr
    rw [firstTypeInSignature, hc, ok_bind]
    generalize TypeCode.ofByte c = t at hs
    -- nothing is open at the start, so no bracket is closed
    cases hs with
    | endStruct hd => exact absurd rfl hd
    | endDict hd => exact absurd rfl hd
    | _ => exact ⟨_, rfl, fun _ => ⟨_, rfl⟩⟩

/-- The text of a signature behind its length, as both runs find it. -/
theorem InRange.signature (h : InRange m m' p e) {c : UInt8} (he : c.toNat + 1 ≤ e - (p + 1)) :
    ∃ cs x, cs.length = c.toNat ∧ cs.length < 256 ∧ Holds m (p + 1) (cs ++ [x]) ∧
      initConstLen m (p + 1) c.toNat = .ok ⟨window m (p + 1) cs.length, cs.length⟩ ∧
      initConstLen m' (p + 1) c.toNat = .ok ⟨window m (p + 1) cs.length, cs.length⟩ ∧
      Vets (validateSignature ⟨window m (p + 1) cs.length, cs.length⟩ 0 cs.length) fun _ => True := by
  have hc := c.toNat_lt
  obtain ⟨bs, hl, hbs, -⟩ := h.holds (a := p + 1) (n := c.toNat + 1) (by omega) (by omega)
  obtain ⟨cs, x, rfl⟩ : ∃ cs x, bs = cs ++ [x] :=
    ⟨_, _, (List.dropLast_append_getLast (by rintro rfl; simp at hl)).symm⟩
  rw [List.length_append, List.length_singleton, Nat.add_right_cancel_iff] at hl
  have hmx : c.toNat ≤ stringMaxMaxLength := by unfold stringMaxMaxLength; omega
  have hw : window m' (p + 1) c.toNat = window m (p + 1) c.toNat :=
    window_congr fun k hk => h.agree (p + 1 + k) (by omega) (by omega)
  refine ⟨cs, x, hl, by omega, hbs, ?_, ?_, ?_⟩
  · rw [initConstLen_eq_ok, hl]
    exact ⟨hmx, rfl⟩
  · rw [initConstLen_eq_ok, hl, hw]
    exact ⟨hmx, rfl⟩
  · exact validateSignature_vets (by omega) rfl ((holds_window (by simp)).2 hbs)

theorem InRange.validateSignatureValue (h : InRange m m' p e) (hp : p < e) :
    SameVerdict (validateSignatureValue m e p) (validateSignatureValue m' e p) fun q => p ≤ q := by
  refine (h.derefAt (le_refl p) hp).bind fun c _ => ?_
  refine (vets_require (by decide)).agree.bind fun _ hle => ?_
  obtain ⟨cs, x, hl, -, -, hst, hst', hvs⟩ := h.signature hle
  rw [hst, hst', ok_bind, ok_bind]
  refine hvs.agree.bind fun _ _ => ?_
  have hlt : p + 1 + c.toNat < e := by omega
  refine (vets_assert hlt).agree.bind fun _ _ => (h.derefAt (by omega) hlt).bind fun _ _ => ?_
  exact (vets_require (by decide)).agree.bind fun _ _ => ⟨rfl, show p ≤ p + 1 + c.toNat + 1 by omega⟩

/-! ## Containers -/

theorem getAlignment_sat (t : TypeCode) :
    Sat t.getAlignment (fun al => t.getAlignment = .ok al ∧ 0 < al) Stop.Plain := by
  cases h : t.getAlignment with
  | ok al => exact ⟨rfl, t.getAlignment_pos h⟩
  | error e => cases t <;> cases h <;> trivial

theorem InRange.arrayStart (h : InRange m m' p e) (hs : s.Terminated) (hr : TypesOnly s r) :
    Stays (arrayStart o m e r p) (arrayStart o m' e r p) fun out =>
      r.getElementType = .ok out.1 ∧ p ≤ out.2.2 ∧ out.2.2 + out.2.1 ≤ e ∧
        (out.1 = .basic (.fixed .boolean) → 4 ∣ out.2.2) := by
  refine h.claimedLen.stays.bind fun ⟨len, q⟩ hq => ?_
  obtain ⟨hpq, hqe⟩ : p ≤ q ∧ q ≤ e := hq
  have hel : Sat r.getElementType (fun t => r.getElementType = .ok t) Stop.Plain := by
    have := hr.getElementType_sat hs
    cases h : r.getElementType with
    | ok t => rfl
    | error e => rwa [h] at this
  refine hel.agree.bind fun t ht => ?_
  refine (stays_require (by decide)).bind fun _ _ => ?_
  refine (getAlignment_sat t).agree.bind fun al hal => ?_
  obtain ⟨hal, hp⟩ : t.getAlignment = .ok al ∧ 0 < al := hal
  refine (stays_require (by decide)).bind fun _ hle => ?_
  refine ((h.mono hpq).pad hp hle).stays.bind fun _ _ => ?_
  refine (stays_require (by decide)).bind fun _ hlen => ?_
  refine (stays_require (by decide)).bind fun _ _ => ⟨rfl, ht, hpq.trans (le_alignUp hp), ?_, ?_⟩
  · change alignUp q al ≤ e at hle
    change alignUp q al + len ≤ e
    omega
  · rintro rfl
    cases hal
    exact dvd_alignUp

theorem validity_sat {x : Res α} (h : Sat x Q Stop.Plain) :
    Sat x.validity (fun v => v ≠ .validityUnknownOomError) Stop.Plain := by
  cases x with
  | ok a => exact nofun
  | error e => cases e <;> exact h

theorem validity_vets {x : Res α} (h : Vets x Q) : ∃ v, x.validity = .ok v ∧
    v ≠ .validityUnknownOomError ∧ (v = .valid → ∃ a, x = .ok a) := by
  cases x with
  | ok a => exact ⟨_, rfl, by simp, fun _ => ⟨a, rfl⟩⟩
  | error e =>
    cases e with
    | invalid v hv => exact ⟨v, rfl, h, fun he => absurd he hv⟩
    | _ => exact h.elim

theorem InRange.variantStart (h : InRange m m' p e) (hp : p < e) :
    SameVerdict (variantStart m e p) (variantStart m' e p) fun out =>
      out.1.Terminated ∧ out.1.str out.1.len = some 0 ∧ p ≤ out.2 ∧ out.2 ≤ e := by
  refine (h.derefAt (le_refl p) hp).bind fun c _ => ?_
  refine (vets_require (by decide)).agree.bind fun _ hle => ?_
  obtain ⟨cs, x, hl, hlt, hh, hst, hst', hvs⟩ := h.signature hle
  obtain ⟨v, hv, hne, hok⟩ := validity_vets hvs
  rw [hst, hst', ok_bind, ok_bind, validateSignatureWithReason, hv, ok_bind, ok_bind,
    require_of hne, ok_bind, ok_bind]
  refine (vets_require (by decide)).agree.bind fun _ hva => ?_
  refine (h.derefAt (a := p + 1 + c.toNat) (by omega) (by omega)).bind fun c' hc' => ?_
  refine (vets_require (by decide)).agree.bind fun _ h0 => ?_
  -- the byte behind the text is the NUL that is asked for
  have hx := (holds_cons.1 (holds_append.1 hh).2).1
  obtain rfl : x = 0 := by
    rw [hl, hc', h0] at hx
    exact (Option.some.inj hx).symm
  obtain ⟨_, hok⟩ := hok hva
  have hw := (holds_window (n := cs.length) (by simp)).2 hh
  obtain ⟨t, ht, hal⟩ := ((validateSignature_window hlt hh).1 hok).firstType
    (s := ⟨window m (p + 1) cs.length, cs.length⟩) hw
  rw [ht, ok_bind, ok_bind]
  refine (vets_require (by decide)).agree.bind fun _ hni => ?_
  obtain ⟨al, hal⟩ := hal hni
  have hap := t.getAlignment_pos hal
  rw [hal, ok_bind, ok_bind]
  refine (vets_require (by decide)).agree.bind fun _ hae => ?_
  refine ((h.mono (a := p + 1 + c.toNat + 1) (by omega)).pad hap hae).bind fun _ _ => ?_
  rw [getCurrentType_initTypesOnly, ht, ok_bind, assert_bind hni]
  have hpd := le_alignUp (n := p + 1 + c.toNat + 1) hap
  have hnl := (holds_cons.1 (holds_append.1 hw).2).1
  rw [Nat.zero_add] at hnl
  refine ⟨rfl, h.terminated (by omega) (by omega), hnl, ?_, hae⟩
  change p ≤ alignUp (p + 1 + c.toNat + 1) al
  omega

theorem InRange.structStart (h : InRange m m' p e) (hs : s.Terminated) (hr : TypesOnly s r) :
    Stays (structStart m e r p) (structStart m' e r p) fun out =>
      TypesOnly s out.1 ∧ p ≤ out.2 ∧ out.2 ≤ e := by
  refine (stays_require (by decide)).bind fun _ hle => ?_
  refine (h.pad (by decide) hle).stays.bind fun _ _ => ?_
  exact (hr.recurse_sat hs).agree.bind fun sub hsb => ⟨rfl, hsb, le_alignUp (by decide), hle⟩

/-! ## Runs with notes -/

/-- A traced run over the range, and the run over the other memory. -/
abbrev Looks (e : ℕ) {α : Type} (x : Traced Part Stop α) (y : Res α) (Q : α → Prop) : Prop :=
  Exact (·.endsBefore e = true) .outside x y Q

theorem Stays.looks {x y : Res α} (h : Stays x y Q) :
    Looks e (lift x) y Q := exact_lift ⟨h.1, sat_safe h.2⟩

theorem Looks.lift_bind {β : Type} {x y : Res α} {f : α → Traced Part Stop β} {g : α → Res β}
    {S : β → Prop} (h : Stays x y Q) (hf : ∀ a, Q a → Looks e (f a) (g a) S) :
    Looks e (lift x >>= f) (y >>= g) S := h.looks.bind hf

section
variable (h : InRange m m' p e)
include h

theorem InRange.boolean (ha : p ≤ a) (he : a < e) (hd : 4 ∣ a) :
    Looks e (traceBoolean o m a) (checkBoolean o m' a) fun _ => True := by
  by_cases hle : a + 4 ≤ e
  · refine Exact.note_bind (decide_eq_true hle) ?_
    refine Stays.looks ((h.unpackUint32 ha hle hd).stays.bind fun v _ => ?_)
    exact (sat_require (by decide)).agree
  · have hnn : Memory.readN m a 4 = none := by
      cases hbs : Memory.readN m a 4 with
      | none => rfl
      | some bs =>
        obtain ⟨hl, hbs⟩ := readN_eq_some.1 hbs
        have hcl := hbs (e - a) (by omega)
        simp [Nat.add_sub_cancel' he.le, h.closed e (le_refl e)] at hcl
    have ho : checkBoolean o m a = .error .outside := by
      simp [checkBoolean, DBus.unpackUint32, assert_bind (alignUp_of_dvd hd), hnn]
    have htr : (traceBoolean o m a).out = .error .outside := by
      rw [traceBoolean, out_bind, out_note, ok_bind, out_lift, ho]
    refine ⟨iff_of_true htr ⟨.boolean a, ?_, ?_⟩, fun hne => absurd htr hne, fun u hu => ?_⟩
    · rw [traceBoolean, bind_of_ok (out_note _)]
      exact List.mem_append_left _ (List.mem_singleton.2 rfl)
    · simpa [Part.endsBefore] using hle
    · simp [htr] at hu

theorem InRange.fixed (f : FixedType) :
    Looks e (traceFixed o m e f p) (validateFixed o m' e f p) fun q => p ≤ q := by
  have hpa := le_alignUp (n := p) f.size_pos
  have hend : p ≤ alignUp p f.size + f.size := by omega
  cases f with
  | byte => exact exact_pure (Nat.le_succ p)
  | boolean =>
    refine .lift_bind (stays_require (by decide)) fun _ hae => ?_
    refine .lift_bind (h.pad (by decide) (Nat.le_of_lt hae)).stays fun _ _ => ?_
    exact (h.boolean hpa hae dvd_alignUp).bind fun _ _ => exact_pure hend
  | _ =>
    refine .lift_bind (stays_require (by decide)) fun _ hae => ?_
    exact .lift_bind (h.pad (by decide) (Nat.le_of_lt hae)).stays fun _ _ => exact_pure hend

theorem InRange.booleans {arrayEnd : ℕ} (har : arrayEnd ≤ e) (n : ℕ) (ha : p ≤ a) (hd : 4 ∣ a) :
    Looks e (traceBooleans o m arrayEnd n a) (booleansLoop o m' arrayEnd n a) fun q => p ≤ q := by
  induction n generalizing a with
  | zero => exact exact_lift ⟨rfl, nofun⟩
  | succ n ih =>
    rw [traceBooleans, booleansLoop]
    split
    · refine (h.boolean ha (by omega) hd).bind fun _ _ => ih (by omega) ?_
      exact Nat.dvd_add hd (Nat.dvd_refl 4)
    · exact exact_pure ha

end

/-- What holds of the helper with `n` steps of fuel. -/
def Locality (o : ByteOrder) (m m' : ℕ → Option UInt8) (e n : ℕ) : Prop :=
  ∀ {s : DBusString} {r : TypeReader} {walk : Bool} {p : ℕ}, s.Terminated →
    s.str s.len = some 0 → TypesOnly s r → InRange m m' p e → p ≤ e →
    Looks e (traceHelper o m e n r walk p) (validateBodyHelper o m' e n r walk p)
      fun q => p ≤ q ∧ q ≤ e

section
variable (ih : Locality o m m' e n)
include ih

theorem Locality.loop {sub : TypeReader} (hs : s.Terminated) (hend : s.str s.len = some 0)
    (hsb : TypesOnly s sub) (arrayEnd k : ℕ) (h : InRange m m' p e) (hp : p ≤ e) :
    Looks e (traceLoop (traceHelper o m e n sub false) arrayEnd k p)
      (elementsLoop (validateBodyHelper o m' e n sub false) arrayEnd k p) fun q => p ≤ q := by
  induction k generalizing p with
  | zero => exact exact_lift ⟨rfl, nofun⟩
  | succ k ihk =>
    rw [traceLoop, elementsLoop]
    split
    · refine (ih hs hend hsb h hp).bind fun q hq => ?_
      exact (ihk (h.mono hq.1) hq.2).mono fun q' hq' => hq.1.trans hq'
    · exact exact_pure (le_refl p)

theorem Locality.array (hs : s.Terminated) (hend : s.str s.len = some 0) (hr : TypesOnly s r)
    (h : InRange m m' p e) : Looks e (traceArray o m e (traceHelper o m e n) n r p)
      (validateArray o m' e (validateBodyHelper o m' e n) n r p) fun q => p ≤ q := by
  refine .lift_bind (h.arrayStart hs hr) fun ⟨t, len, a⟩ ho => ?_
  obtain ⟨ht, hpa, hae, hb⟩ : r.getElementType = .ok t ∧ p ≤ a ∧ a + len ≤ e ∧
    (t = .basic (.fixed .boolean) → 4 ∣ a) := ho
  refine Exact.note_bind rfl ?_
  dsimp only
  split
  · refine Exact.bind (Q := fun q => p ≤ q) ?_ fun q hpq =>
      Looks.lift_bind (stays_require (by decide)) fun _ _ => exact_pure hpq
    refine Looks.lift_bind (hr.recurse_sat hs).agree fun sub hsb => ?_
    refine Looks.lift_bind (Q := fun t' => t' = t) ⟨rfl, by rw [ht]; rfl⟩ fun t' ht' => ?_
    subst ht'
    have hdn : p ≤ a + len := by omega
    cases hf : t'.fixed? with
    | none => exact (ih.loop hs hend hsb _ _ (h.mono hpa) (by omega)).mono fun q hq => hpa.trans hq
    | some f =>
      cases f with
      | boolean => exact h.booleans hae _ hpa (hb (TypeCode.eq_of_fixed hf))
      | _ => exact exact_pure hdn
  · exact exact_pure hpa

theorem Locality.variant (h : InRange m m' p e) (hp : p < e) :
    Looks e (traceVariant m e (traceHelper o m e n) p)
      (validateVariant m' e (validateBodyHelper o m' e n) p) fun q => p ≤ q := by
  refine .lift_bind (h.variantStart hp).stays fun ⟨sig, a⟩ ho => ?_
  obtain ⟨hs, hend, hpa, hae⟩ : sig.Terminated ∧ sig.str sig.len = some 0 ∧ p ≤ a ∧ a ≤ e := ho
  have hsb := typesOnly_init sig 0
  refine Exact.note_bind rfl ?_
  refine (ih hs hend hsb (h.mono hpa) hae).bind fun q hq => ?_
  refine (exact_lift (hsb.next_sat hs hend).agree).bind fun ⟨more, sub'⟩ hsb' => ?_
  refine Looks.lift_bind (stays_require (by decide)) fun _ _ => ?_
  refine Looks.lift_bind (hsb'.getCurrentType_sat hs).agree fun t _ => ?_
  exact .lift_bind agree_assert fun _ _ => exact_pure (hpa.trans hq.1)

section
variable (hs : s.Terminated) (hend : s.str s.len = some 0) (hr : TypesOnly s r)
  (h : InRange m m' p e)
include hs hend hr h

theorem Locality.struct : Looks e (traceStruct m e (traceHelper o m e n) r p)
      (validateStruct m' e (validateBodyHelper o m' e n) r p) fun q => p ≤ q := by
  refine .lift_bind (h.structStart hs hr) fun ⟨sub, a⟩ ho => ?_
  obtain ⟨hsb, hpa, hae⟩ : TypesOnly s sub ∧ p ≤ a ∧ a ≤ e := ho
  exact (ih hs hend hsb (h.mono hpa) hae).mono fun q hq => hpa.trans hq.1

theorem Locality.value (hp : p < e) (t : TypeCode) :
    Looks e (traceValue o m e (traceHelper o m e n) n r p t)
      (validateValue o m' e (validateBodyHelper o m' e n) n r p t) fun q => p ≤ q := by
  match t with
  | .basic (.fixed f) => exact h.fixed f
  | .basic (.str .string) | .basic (.str .objectPath) => exact (h.validateString _).looks
  | .basic (.str .signature) => exact (h.validateSignatureValue hp).stays.looks
  | .array => exact ih.array hs hend hr h
  | .variant => exact ih.variant h hp
  | .struct k => exact ih.struct hs hend hr h
  | .invalid | .unknown _ | .beginChar _ | .endChar _ => exact exact_lift ⟨rfl, nofun⟩

end

end

theorem locality (n : ℕ) : Locality o m m' e n := by
  induction n with
  | zero => exact fun _ _ _ _ _ => exact_lift ⟨rfl, (by simp)⟩
  | succ n ih =>
    intro s r walk p hs hend hr h hp
    refine .lift_bind (hr.getCurrentType_sat hs).agree fun t _ => ?_
    split
    · exact exact_pure ⟨le_refl p, hp⟩
    · refine .lift_bind (stays_require (by decide)) fun _ hne => ?_
      refine (ih.value hs hend hr h (Nat.lt_of_le_of_ne hp hne) t).bind fun q hpq => ?_
      refine Looks.lift_bind (stays_require (by decide)) fun _ hqe => ?_
      cases walk with
      | false => exact exact_pure ⟨hpq, hqe⟩
      | true =>
        refine (exact_lift (hr.next_sat hs hend).agree).bind ?_
        rintro ⟨more, r'⟩ hr'
        exact (ih hs hend hr' (h.mono hpq) hqe).mono fun q' hq' => ⟨hpq.trans hq'.1, hq'.2⟩

end

/-! ## The range that is validated -/

/-- The string, when only the bytes from `p` to `e` may be read. -/
def DBusString.only (s : DBusString) (p e : ℕ) : DBusString := ⟨restrict s.str p e, s.len⟩

section
variable (o : ByteOrder) (sig : List UInt8) (s : DBusString) (pos len : ℕ)

/-- What the validator meets in the range, when it may look at nothing else. -/
def rangeParts : List Part :=
  (traceHelper o (s.only pos (pos + len)).str (pos + len) (sig.length + len + 1)
    (.initTypesOnly (.ofBytes sig) 0) true pos).notes

/-- The validator looks at no byte outside of the range, and its verdict depends on
    no other byte. -/
def ReadsRangeOnly : Prop :=
  validateBodyWithReason (.ofBytes sig) 0 o (s.only pos (pos + len)) pos len ≠ .error .outside ∧
    ∀ s' : DBusString, pos + len ≤ s'.len →
      (∀ k, pos ≤ k → k < pos + len → s'.str k = s.str k) →
      validateBodyWithReason (.ofBytes sig) 0 o s' pos len =
        validateBodyWithReason (.ofBytes sig) 0 o s pos len

end

theorem validateBodyWithReason_eq {o : ByteOrder} {sig : List UInt8} {s : DBusString}
    {pos len : ℕ} (hlen : pos + len ≤ s.len) :
    validateBodyWithReason (.ofBytes sig) 0 o s pos len = Res.validity (do
        let p ← validateBodyHelper o s.str (pos + len) (sig.length + len + 1)
          (.initTypesOnly (.ofBytes sig) 0) true pos
        require (¬ p < pos + len) .invalidTooMuchData
        assert (p = pos + len)) := by
  have hp : pos ≤ s.len := by omega
  have hrs : len ≤ s.len - pos := by omega
  simp only [validateBodyWithReason, validateBody, getConstDataLen, assert_of hlen,
    assert_of hp, assert_of hrs, ok_bind]
  rfl

theorem validity_ne_outside {e : ℕ} {x : Res ℕ} (h : x ≠ .error .outside) : Res.validity (do
      let p ← x
      require (¬ p < e) .invalidTooMuchData
      assert (p = e)) ≠ .error .outside := by
  cases x with
  | ok p =>
    have hst : Plainly (do
        require (¬ p < e) .invalidTooMuchData
        assert (p = e)) :=
      (sat_require (by decide)).bind fun _ _ => assert_sat fun _ => trivial
    exact fun ho => (validity_sat hst).of_error ho
  | error st =>
    cases st with
    | outside => exact absurd rfl h
    | _ => exact nofun

/-- **Which bytes the validator looks at.**  Validating a range of a string looks at nothing but the
    range exactly if every boolean that is looked at ends inside of the range. -/
theorem readsRangeOnly_iff {o : ByteOrder} {sig : List UInt8} {s : DBusString} {pos len : ℕ}
    (hlen : pos + len ≤ s.len) (hs : Readable s.str pos (pos + len)) :
    ReadsRangeOnly o sig s pos len ↔
      ∀ part ∈ rangeParts o sig s pos len, part.endsBefore (pos + len) = true := by
  have hcl : ∀ k, pos ≤ k → k < pos + len → (s.only pos (pos + len)).str k = s.str k :=
    fun k h₁ h₂ => if_pos ⟨h₁, h₂⟩
  have hrn : ∀ s' : DBusString, (∀ k, pos ≤ k → k < pos + len → s'.str k = s.str k) →
      InRange (s.only pos (pos + len)).str s'.str pos (pos + len) := fun s' hs' =>
    ⟨fun k h₁ h₂ => by rw [hcl k h₁ h₂]; exact hs k h₁ h₂,
      fun k h₁ h₂ => by rw [hcl k h₁ h₂, hs' k h₁ h₂], fun k hk => if_neg (by omega)⟩
  have hru : ∀ s' : DBusString, (∀ k, pos ≤ k → k < pos + len → s'.str k = s.str k) →
      Looks (pos + len) (traceHelper o (s.only pos (pos + len)).str _ (sig.length + len + 1)
        (.initTypesOnly (.ofBytes sig) 0) true pos) (validateBodyHelper o s'.str _ _ _ true pos) _ :=
    fun s' hs' => locality _ (terminated_ofBytes sig) (ofBytes_str_len sig) (typesOnly_init _ 0)
      (hrn s' hs') (Nat.le_add_right pos len)
  have ho : pos + len ≤ (s.only pos (pos + len)).len := hlen
  have hot := out_traceHelper (o := o) (m := (s.only pos (pos + len)).str) (e := pos + len)
    (sig.length + len + 1) (.initTypesOnly (.ofBytes sig) 0) true pos
  have hi := (hru s fun _ _ _ => rfl).stops_iff
  constructor
  · rintro ⟨hne, -⟩
    by_contra hp
    push Not at hp
    have hst := hi.2 hp
    rw [hot] at hst
    rw [validateBodyWithReason_eq ho, hst] at hne
    exact hne rfl
  · intro hp
    have hne := fun hst => (hi.1 hst).elim fun part hpr => hpr.2 (hp part hpr.1)
    refine ⟨?_, fun s' hl' hs' => ?_⟩
    · rw [validateBodyWithReason_eq ho]
      exact validity_ne_outside (hot ▸ hne)
    · rw [validateBodyWithReason_eq hl', validateBodyWithReason_eq hlen,
        (hru s' hs').out_eq hne, (hru s fun _ _ _ => rfl).out_eq hne]

/-- A body for the signature `aivb`, and one byte behind it. -/
def sampleRange : List UInt8 :=
  [4, 0, 0, 0, 1, 0, 0, 0, 1, 98, 0, 0, 1, 0, 0, 0, 1, 0, 0, 0, 9]

theorem sampleRange_readsRangeOnly :
    ReadsRangeOnly .little [97, 105, 118, 98] (.ofBytes sampleRange) 0 20 :=
  (readsRangeOnly_iff (by decide) fun k _ hk =>
    terminated_ofBytes sampleRange k (show k ≤ 21 by omega)).2 (by decide +kernel)

/-- A range of one byte for the signature `b`: the validator looks at three bytes behind it. -/
theorem boolean_not_readsRangeOnly :
    ¬ ReadsRangeOnly .little [98] (.ofBytes [1]) 0 1 ∧
      validateBodyWithReason (.ofBytes [98]) 0 .little (.ofBytes [1, 0, 0, 0]) 0 1 =
        .ok .invalidNotEnoughData ∧
      validateBodyWithReason (.ofBytes [98]) 0 .little (.ofBytes [1, 1, 0, 0]) 0 1 =
        .ok .invalidBooleanNotZeroOrOne :=
  ⟨fun h => h.1 (by decide +kernel), by decide +kernel, by decide +kernel⟩

end DBus
