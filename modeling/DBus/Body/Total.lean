/-
  Every run of the validator ends.

  Over a block that can be read, and the three bytes behind it, the validator returns,
  rejects the block or stops at an assertion (`validateBodyHelper_total`).  The outcome does
  not depend on the fuel, nor on where the signature is read.
-/
import DBus.Body.Locality
import DBus.Body.Transfer
import DBus.Reader.Twin

namespace DBus

open Outcome Memory Align Endian Value

variable {cs : List UInt8} {o : ByteOrder} {m : ℕ → Option UInt8}

theorem ValidSignature.sigText (h : ValidSignature cs) : SigText (.ofBytes cs) :=
  ⟨terminated_ofBytes cs, ofBytes_nul cs, fun _ _ hc ha => h.lt_of_opens hc (.inl ha)⟩

section
variable {e p a n n' : ℕ} {r : TypeReader} {s' : DBusString} {d : ℕ} {r' : TypeReader}
  {s : DBusString}

/-! ## Values that no reader is needed for -/

theorem inRange_restrict (h : Readable m p e) : InRange (restrict m p e) m p e := by
  have hin {k : ℕ} (h1 : p ≤ k) (h2 : k < e) : restrict m p e k = m k := if_pos ⟨h1, h2⟩
  refine ⟨fun k h1 h2 => ?_, fun k h1 h2 => (hin h1 h2).symm, fun k hk => if_neg (by omega)⟩
  rw [hin h1 h2]
  exact h k h1 h2

theorem Stays.sat {α : Type} {x y : Res α} {Q : α → Prop} (h : Stays x y Q) : Sat y Q Stop.Plain := by
  obtain ⟨rfl, hx⟩ := h
  exact hx

theorem Readable.shrink {e' : ℕ} (h : Readable m p e') (he : e ≤ e') : Readable m p e :=
  fun k h1 h2 => h k h1 (h2.trans_le he)

section
variable (hm : Readable m p (e + 3))
include hm

theorem checkBoolean_sat (ha : p ≤ a) (hae : a < e) : Plainly (checkBoolean o m a) := by
  obtain ⟨bs, hbs⟩ := readN_isSome (m := m) (i := a) (n := 4) fun k hk => hm _ (by omega) (by omega)
  refine Sat.bind (P := fun _ => True) ?_ fun v _ => sat_require (by decide)
  refine (assert_sat (Q := fun _ => True) fun _ => trivial).bind fun _ _ => ?_
  rw [hbs]
  trivial

theorem validateFixed_sat (f : FixedType) :
    Sat (validateFixed o m e f p) (fun q => p ≤ q) Stop.Plain := by
  have hpa := le_alignUp (n := p) f.size_pos
  have hend : p ≤ alignUp p f.size + f.size := by omega
  have hpd (hae : alignUp p f.size < e) :=
    ((inRange_restrict (hm.shrink (Nat.le_add_right e 3))).pad f.size_pos hae.le).stays.sat
  cases f with
  | byte => exact Nat.le_succ p
  | boolean =>
    refine (stays_require (by decide)).sat.bind fun _ hae => (hpd hae).bind fun _ _ => ?_
    exact (checkBoolean_sat hm hpa hae).bind fun _ _ => hend
  | _ => exact (stays_require (by decide)).sat.bind fun _ hae => (hpd hae).bind fun _ _ => hend

theorem booleansLoop_sat {arrayEnd : ℕ} (har : arrayEnd ≤ e) (ha : p ≤ a) (h0 : 0 < n)
    (hn : arrayEnd < n + a) : Sat (booleansLoop o m arrayEnd n a) (fun q => p ≤ q) Stop.Plain := by
  induction n generalizing a with
  | zero => omega
  | succ n ih =>
    rw [booleansLoop]
    split
    · have hnx : arrayEnd < n + (a + 4) := by omega
      exact (checkBoolean_sat hm ha (by omega)).bind fun _ _ => ih (by omega) (by omega) hnx
    · exact ha

end

/-! ## Runs of the helper -/

/-- Fuel for a run with the reader `r` over a signature of `len` bytes: one step for each
    byte of the signature and of the values that are left, unless the reader has finished. -/
def EnoughFuel (len e n : ℕ) (r : TypeReader) (p : ℕ) : Prop :=
  0 < n ∧ (r.finished = false → len + e < n + r.typePos + p)

theorem EnoughFuel.mono {len : ℕ} {q : ℕ} (h : EnoughFuel len e n r p) (hq : p ≤ q) :
    EnoughFuel len e n r q :=
  ⟨h.1, fun hf => by have := h.2 hf; omega⟩

/-- The type characters and the bytes that are left. -/
def unconsumed (e : ℕ) (r : TypeReader) (p : ℕ) : ℕ :=
  (if r.finished then 0 else r.typeStr.len - r.typePos) + (e - p)

theorem unconsumed_mono {q : ℕ} (hq : p ≤ q) : unconsumed e r q ≤ unconsumed e r p := by
  unfold unconsumed
  omega

/-- A call of the helper for a value, from `r` and `p`: it does not end if as much is left
    as before it, or if the value has no bytes. -/
def consuming (e : ℕ) (r : TypeReader) (p : ℕ) (helper : TypeReader → Bool → ℕ → Res ℕ)
    (r' : TypeReader) (walk : Bool) (p' : ℕ) : Res ℕ :=
  if unconsumed e r' p' < unconsumed e r p then do
    let q ← helper r' walk p'
    if p' < q then return q else .error .fuel
  else .error .fuel

/-- `validate_body_helper`, if no call and no iteration that consumes nothing would end. -/
def consumingHelper (o : ByteOrder) (m : ℕ → Option UInt8) (e : ℕ) :
    ℕ → TypeReader → Bool → ℕ → Res ℕ
  | 0, _, _, _ => .error .fuel
  | n + 1, r, walkReaderToEnd, p => do
    let t ← r.getCurrentType
    if t = .invalid then return p
    else do
      require (p ≠ e) .invalidNotEnoughData
      let q ← validateValue o m e (consuming e r p (consumingHelper o m e n)) n r p t
      require (q ≤ e) .invalidNotEnoughData
      if walkReaderToEnd then do
        let (_, r') ← r.next
        if unconsumed e r' q < unconsumed e r p then consumingHelper o m e n r' walkReaderToEnd q
        else .error .fuel
      else return q

/-- What holds of the consuming helper with fuel `n`: whatever the other fuel is, if both
    suffice the runs with twin readers have one outcome. -/
def Runs (o : ByteOrder) (m : ℕ → Option UInt8) (e n : ℕ) : Prop :=
  ∀ {cs : List UInt8} {s' : DBusString} {d n' p : ℕ} {r r' : TypeReader} (walk : Bool),
    ValidSignature cs → TextsAgree (.ofBytes cs) s' d → Twin (.ofBytes cs) s' d r r' →
    Readable m p (e + 3) → p ≤ e → EnoughFuel cs.length e n r p → EnoughFuel cs.length e n' r p →
    Stays (consumingHelper o m e n r walk p) (validateBodyHelper o m e n' r' walk p)
      fun q => p ≤ q ∧ q ≤ e

theorem unconsumed_open (hr : r.typeStr = .ofBytes cs) (hf : r.finished = false) :
    unconsumed e r p = cs.length - r.typePos + (e - p) := by
  rw [unconsumed, hf, hr]
  rfl

theorem Twin.typesOnly' (h : Twin s s' d r r') : TypesOnly s r := ⟨h.typesOnly, h.typeStr⟩

theorem Twin.self (h : Twin s s' d r r') : Twin s s 0 r r :=
  ⟨h.typesOnly, rfl, rfl, h.typeStr, h.typeStr, (Nat.zero_add _).symm, h.le⟩

section
variable (ih : Runs o m e n) (hv : ValidSignature cs) (ht : TextsAgree (.ofBytes cs) s' d)
  (hr : Twin (.ofBytes cs) s' d r r') (hopen : r.getCurrentType ≠ .ok .invalid)
  (hm : Readable m p (e + 3)) (hp : p ≤ e) (hn : EnoughFuel cs.length e n r p)
  (hn' : EnoughFuel cs.length e n' r p) {r0 : TypeReader} {p0 : ℕ}
  (hleft : unconsumed e r p < unconsumed e r0 p0)
include ih hv ht hr hopen hm hp hn hn' hleft

theorem Runs.call (walk : Bool) : Stays (consuming e r0 p0 (consumingHelper o m e n) r walk p)
      (validateBodyHelper o m e n' r' walk p) fun q => p < q ∧ q ≤ e := by
  have hsl := (ih walk hv (textsAgree_ofBytes cs) hr.self hm hp hn hn).1
  have hrn := (ih walk hv ht hr hm hp hn hn').of_returned (S := fun q => p < q ∧ q ≤ e)
    fun q hq hle => ⟨(transfers n hv hr.typesOnly' (hm.shrink (Nat.le_add_right e 3))
      (hsl.trans hq)).2.1 hopen, hle.2⟩
  rw [consuming, if_pos hleft]
  cases hx : consumingHelper o m e n r walk p with
  | error st =>
    rw [hx] at hrn
    exact hrn
  | ok q =>
    rw [hx] at hrn
    rw [ok_bind, if_pos hrn.2.1]
    exact hrn

theorem Runs.loop {arrayEnd k k' : ℕ} (hk : 0 < k ∧ arrayEnd < k + p)
    (hk' : 0 < k' ∧ arrayEnd < k' + p) :
    Stays (elementsLoop (consuming e r0 p0 (consumingHelper o m e n) r false) arrayEnd k p)
      (elementsLoop (validateBodyHelper o m e n' r' false) arrayEnd k' p) fun q => p ≤ q := by
  induction k generalizing p k' with
  | zero => omega
  | succ k ihk =>
    obtain _ | k' := k'
    · omega
    rw [elementsLoop, elementsLoop]
    split
    · refine (ih.call hv ht hr hopen hm hp hn hn' hleft false).bind fun q hq => ?_
      have hle := hq.1.le
      refine (ihk (hm.mono hle) hq.2 (hn.mono hle) (hn'.mono hle)
        ((unconsumed_mono hle).trans_lt hleft) (by omega) (by omega)).of_returned
          fun q' _ hq' => hle.trans hq'
    · exact ⟨rfl, le_refl p⟩

end

theorem element_open {sub sub' : TypeReader} {t : TypeCode} (hsb : Twin s s' d sub sub')
    (hel : r.getElementType = .ok t) (hvl : t.isValid = true) (hst : r.typeStr = s)
    (hps : sub.typePos = r.typePos + 1) (hfin : sub.finished = false) :
    sub.getCurrentType ≠ .ok .invalid := by
  simp only [TypeReader.getElementType, bind_eq_ok, assert_eq_ok, exists_const] at hel
  obtain ⟨_, -, -, hfr⟩ := hel
  intro hi
  simp only [TypeReader.getCurrentType, bind_eq_ok, assert_eq_ok, exists_const, pure_eq_ok,
    Except.ok.injEq] at hi
  obtain ⟨b, hb, t', hf, -, rfl⟩ := hi
  obtain rfl : b = false := Except.ok.inj (hb.symm.trans (hfin ▸ hsb.atEnd.1))
  rw [cond_false, hsb.typeStr, ← hst, hps, hfr] at hf
  cases hf
  cases hvl

theorem Runs.variant (ih : Runs o m e n) (hm : Readable m p (e + 3)) (hp : p < e)
    (hn : e < n + p) (hn' : e < n' + p) :
    Stays (validateVariant m e (consuming e r p (consumingHelper o m e n)) p)
      (validateVariant m e (validateBodyHelper o m e n') p) fun q => p ≤ q := by
  have hm' : Readable m p e := hm.shrink (Nat.le_add_right e 3)
  have hst := ((inRange_restrict hm').variantStart hp).stays.sat.agree.of_returned
    (S := fun out => variantStart m e p = .ok out) fun out hok _ => hok
  refine hst.bind fun ⟨sig, a⟩ ho => ?_
  obtain ⟨cs, rfl, hv, -, t, al, hfr, hne, hal, rfl, -, hae, -⟩ := (variantStart_iff hm').1 ho
  have hs := hv.sigText
  have hpa := le_alignUp (n := p + (sigBytes cs).length) (t.getAlignment_pos hal)
  rw [length_sigBytes] at hpa hae
  have ht := textsAgree_ofBytes cs
  have hsb : Twin (.ofBytes cs) (.ofBytes cs) 0 (.initTypesOnly (.ofBytes cs) 0)
      (.initTypesOnly (.ofBytes cs) 0) := ⟨rfl, rfl, rfl, rfl, rfl, rfl, Nat.zero_le _⟩
  rw [length_sigBytes]
  have hopen : (TypeReader.initTypesOnly (.ofBytes cs) 0).getCurrentType ≠ .ok .invalid := by
    rw [getCurrentType_initTypesOnly, hfr]
    exact fun hi => hne (Except.ok.inj hi)
  have hleft : unconsumed e (.initTypesOnly (.ofBytes cs) 0) (alignUp (p + (cs.length + 2)) al) <
      unconsumed e r p := by
    rw [unconsumed_open rfl rfl]
    refine Nat.lt_of_lt_of_le ?_ (Nat.le_add_left (e - p) _)
    change cs.length + _ < _
    omega
  refine (ih.call hv ht hsb hopen (hm.mono (by omega)) hae ⟨by omega, fun _ => by omega⟩
    ⟨by omega, fun _ => by omega⟩ hleft false).bind fun q hq => ?_
  refine (Together.bind (hsb.next hs ht) ?_).agree
  rintro ⟨more, u⟩ ⟨more', u'⟩ hu
  obtain rfl : more' = more := hu.more
  have hu' : Twin _ _ 0 u u' := hu.twin
  refine (stays_require (by decide)).bind_together fun _ _ => ?_
  refine (hu'.getCurrentType hs ht).bind_together fun t _ => ?_
  exact agree_assert.bind_together fun _ _ => ⟨rfl, by omega⟩

section
variable (ih : Runs o m e n) (hv : ValidSignature cs) (ht : TextsAgree (.ofBytes cs) s' d)
  (hr : Twin (.ofBytes cs) s' d r r') (hlt : r.typePos < cs.length) (hfin : r.finished = false)
  (hm : Readable m p (e + 3))
  (hn : cs.length + e < n + (r.typePos + 1) + p) (hn' : cs.length + e < n' + (r.typePos + 1) + p)
  {t : TypeCode}
include ih hv ht hr hlt hfin hm hn hn'

theorem Runs.elements (hel : r.getElementType = .ok t) (hvl : t.isValid = true) (hpa : p ≤ a)
    {len : ℕ} (hae : a + len ≤ e) :
    Stays (validateElements o m (consuming e r p (consumingHelper o m e n)) n r len a)
      (validateElements o m (validateBodyHelper o m e n') n' r' len a) fun q => p ≤ q := by
  have hs := hv.sigText
  refine (Together.bind (hr.recurse hs ht hlt) ?_).agree
  rintro sub sub' ⟨hsb, hps, hf⟩
  rw [(hr.getElementType hs ht).1, hel, ok_bind, ok_bind]
  refine Outcome.Agree.together ?_
  cases t.fixed? with
  | some f =>
    cases f with
    | boolean => exact (booleansLoop_sat hm hae hpa (by omega) (by omega)).agree
    | _ => exact ⟨rfl, hpa.trans (Nat.le_add_right a len)⟩
  | none =>
    have hopen := element_open hsb hel hvl hr.typeStr hps hf
    have hleft : unconsumed e sub a < unconsumed e r p := by
      rw [unconsumed_open hsb.typeStr hf, unconsumed_open hr.typeStr hfin]
      omega
    exact (ih.loop hv ht hsb hopen (hm.mono hpa) (by omega) ⟨by omega, fun _ => by omega⟩
      ⟨by omega, fun _ => by omega⟩ hleft ⟨by omega, by omega⟩ ⟨by omega, by omega⟩).of_returned
        fun q _ hq => hpa.trans hq

theorem Runs.array : Stays (validateArray o m e (consuming e r p (consumingHelper o m e n)) n r p)
      (validateArray o m e (validateBodyHelper o m e n') n' r' p) fun q => p ≤ q := by
  have hs := hv.sigText
  have hst : Stays (arrayStart o m e r p) (arrayStart o m e r' p) fun out =>
      r.getElementType = .ok out.1 ∧ out.1.isValid = true ∧ p ≤ out.2.2 ∧ out.2.2 + out.2.1 ≤ e := by
    have heq : arrayStart o m e r' p = arrayStart o m e r p := by
      unfold arrayStart
      rw [(hr.getElementType hs ht).1]
    have hst := ((inRange_restrict (hm.shrink (Nat.le_add_right e 3))).arrayStart (o := o)
      hs.terminated hr.typesOnly').sat
    rw [heq]
    exact hst.agree.of_returned fun out hok ho =>
      ⟨ho.1, (arrayStart_eq_ok.1 hok).2.1, ho.2.1, ho.2.2.1⟩
  refine hst.bind fun ⟨t, len, a⟩ ho => ?_
  obtain ⟨hel, hvl, hpa, hae⟩ : r.getElementType = .ok t ∧ t.isValid = true ∧ p ≤ a ∧
    a + len ≤ e := ho
  dsimp only
  split
  · refine (ih.elements hv ht hr hlt hfin hm hn hn' hel hvl hpa hae).bind fun q hq => ?_
    exact (stays_require (by decide)).bind fun _ _ => ⟨rfl, hq⟩
  · exact ⟨rfl, hpa⟩

theorem Runs.struct {k : StructKind} (hk : r.getCurrentType = .ok (.struct k)) :
    Stays (validateStruct m e (consuming e r p (consumingHelper o m e n)) r p)
      (validateStruct m e (validateBodyHelper o m e n') r' p) fun q => p ≤ q := by
  have hpd := inRange_restrict (hm.shrink (Nat.le_add_right e 3))
  have hpa := le_alignUp (n := p) (show 0 < 8 by decide)
  simp only [validateStruct, structStart, bind_assoc, pure_bind]
  refine (stays_require (by decide)).bind fun _ hae => ?_
  refine (hpd.pad (by decide) hae).stays.sat.agree.bind fun _ _ => ?_
  have hrc := (hr.recurse hv.sigText ht hlt).of_returned fun sub sub' hrc hsb =>
    And.intro hsb (recurse_struct_open hv hr.typesOnly' hk hrc)
  refine (Together.bind hrc ?_).agree
  rintro sub sub' ⟨⟨hsb, hps, hf⟩, hopen⟩
  have hleft : unconsumed e sub (alignUp p 8) < unconsumed e r p := by
    rw [unconsumed_open hsb.typeStr hf, unconsumed_open hr.typeStr hfin]
    omega
  refine ((ih.call hv ht hsb hopen (hm.mono hpa) hae ⟨by omega, fun _ => by omega⟩
    ⟨by omega, fun _ => by omega⟩ hleft true).of_returned fun q _ hq => ?_).together
  exact hpa.trans hq.1.le

theorem Runs.value (hp : p < e) (hcr : r.getCurrentType = .ok t) :
    Stays (validateValue o m e (consuming e r p (consumingHelper o m e n)) n r p t)
      (validateValue o m e (validateBodyHelper o m e n') n' r' p t) fun q => p ≤ q := by
  have hin := inRange_restrict (hm.shrink (Nat.le_add_right e 3))
  match t with
  | .basic (.fixed f) => exact (validateFixed_sat hm f).agree
  | .basic (.str .string) | .basic (.str .objectPath) => exact (hin.validateString _).sat.agree
  | .basic (.str .signature) => exact (hin.validateSignatureValue hp).stays.sat.agree
  | .array => exact ih.array hv ht hr hlt hfin hm hn hn'
  | .variant => exact ih.variant hm hp (by omega) (by omega)
  | .struct k => exact ih.struct hv ht hr hlt hfin hm hn hn' hcr
  | .invalid | .unknown _ | .beginChar _ | .endChar _ => exact ⟨rfl, trivial⟩

end

theorem runs (n : ℕ) : Runs o m e n := by
  induction n with
  | zero => exact fun _ _ _ _ _ _ hn => absurd hn.1 (Nat.lt_irrefl 0)
  | succ n ih =>
    intro cs s' d n' p r r' walk hv ht hr hm hp hn hn'
    obtain ⟨n', rfl⟩ : ∃ k, n' = k + 1 := ⟨n' - 1, by have := hn'.1; omega⟩
    have hs := hv.sigText
    have hlen : (DBusString.ofBytes cs).len = cs.length := rfl
    have hcr := hr.getCurrentType hs ht
    cases hty : r.getCurrentType with
    | error st =>
      rw [hty] at hcr
      rw [consumingHelper, validateBodyHelper, hcr.1, hty]
      exact ⟨rfl, hcr.2⟩
    | ok t =>
      rw [hty] at hcr
      rw [consumingHelper, validateBodyHelper, hcr.1, hty, ok_bind, ok_bind]
      split
      · exact ⟨rfl, le_refl p, hp⟩
      · next hne =>
        obtain ⟨hfin, hlt⟩ := hcr.2 hne
        have hfl := hn.2 hfin
        have hfl' := hn'.2 hfin
        refine (stays_require (by decide)).bind fun _ hpe => ?_
        have hpe : p < e := Nat.lt_of_le_of_ne hp hpe
        refine (ih.value hv ht hr hlt hfin hm (by omega) (by omega) hpe hty).bind fun q hpq => ?_
        refine (stays_require (by decide)).bind fun _ hqe => ?_
        cases walk with
        | false => exact ⟨rfl, hpq, hqe⟩
        | true =>
          refine (Together.bind (hr.next hs ht) ?_).agree
          rintro ⟨more, u⟩ ⟨more', u'⟩ hu
          have hu' : Twin (.ofBytes cs) s' d u u' := hu.twin
          have hmv : u.finished = true ∨ r.typePos < u.typePos :=
            hu.moved fun hi => hne (Except.ok.inj (hty.symm.trans hi))
          have hrs {k : ℕ} (hk : cs.length + e < k + 1 + r.typePos + p) :
              EnoughFuel cs.length e k u q :=
            ⟨by omega, fun hf => by
              have := hmv.resolve_left (by rw [hf]; rintro ⟨⟩)
              omega⟩
          have hleft : unconsumed e u q < unconsumed e r p := by
            rw [unconsumed_open hr.typeStr hfin, unconsumed, hu'.typeStr]
            split
            · omega
            · next hf =>
              have := hmv.resolve_left hf
              omega
          dsimp only
          rw [if_pos hleft]
          refine ((ih true hv ht hu' (hm.mono hpq) hqe (hrs hfl) (hrs hfl')).of_returned
            fun q' _ hq' => ?_).together
          exact ⟨hpq.trans hq'.1, hq'.2⟩

end

/-- **Every run of the validator ends**, and its outcome depends neither on where the
    signature is nor on the fuel. -/
theorem validateBodyHelper_total {e p n n' : ℕ} {s' : DBusString} {d : ℕ} (hv : ValidSignature cs)
    (ht : TextsAgree (.ofBytes cs) s' d) (hm : Readable m p (e + 3)) (hp : p ≤ e)
    (hn : cs.length + e < n + p) (hn' : cs.length + e < n' + p) :
    Stays (validateBodyHelper o m e n (.initTypesOnly (.ofBytes cs) 0) true p)
      (validateBodyHelper o m e n' (.initTypesOnly s' d) true p) fun q => p ≤ q ∧ q ≤ e := by
  have hr : Twin (.ofBytes cs) s' d (.initTypesOnly (.ofBytes cs) 0) (.initTypesOnly s' d) :=
    ⟨rfl, rfl, rfl, rfl, rfl, rfl, Nat.zero_le _⟩
  have hsl := runs (o := o) n true hv (textsAgree_ofBytes cs) hr.self hm hp ⟨by omega, fun _ => hn⟩
    ⟨by omega, fun _ => hn⟩
  have hrn := runs (o := o) n true hv ht hr hm hp ⟨by omega, fun _ => hn⟩ ⟨by omega, fun _ => hn'⟩
  exact ⟨hrn.1.trans hsl.1.symm, hsl.1 ▸ hsl.2⟩

/-- **The validator terminates.**  Given one step for each type character and each byte,
    it comes to an end inside of the block, rejects it or fails an assertion; and so it would
    if no call and no iteration that consumes nothing ever ended. -/
theorem validateBodyHelper_terminates {e p n : ℕ} (hv : ValidSignature cs)
    (hm : Readable m p (e + 3)) (hp : p ≤ e) (hn : cs.length + (e - p) < n) :
    consumingHelper o m e n (.initTypesOnly (.ofBytes cs) 0) true p =
        validateBodyHelper o m e n (.initTypesOnly (.ofBytes cs) 0) true p ∧
      Sat (validateBodyHelper o m e n (.initTypesOnly (.ofBytes cs) 0) true p)
        (fun q => p ≤ q ∧ q ≤ e) Stop.Plain := by
  have hr : Twin (.ofBytes cs) (.ofBytes cs) 0 (.initTypesOnly (.ofBytes cs) 0) _ :=
    ⟨rfl, rfl, rfl, rfl, rfl, rfl, Nat.zero_le _⟩
  have hfl : EnoughFuel cs.length e n (.initTypesOnly (.ofBytes cs) 0) p :=
    ⟨by omega, fun _ => by change _ < n + 0 + p; omega⟩
  have hrn := runs (o := o) n true hv (textsAgree_ofBytes cs) hr hm hp hfl hfl
  exact ⟨hrn.1.symm, hrn.1 ▸ hrn.2⟩

/-- An array of one integer, with more bytes behind it. -/
theorem sampleRange_terminates : Sat (validateBodyHelper .little (DBusString.ofBytes sampleRange).str
    8 11 (.initTypesOnly (.ofBytes [97, 105]) 0) true 0) (fun q => 0 ≤ q ∧ q ≤ 8) Stop.Plain :=
  (validateBodyHelper_terminates (signatureAccepted_iff.1 (by decide)) (fun k _ hk =>
    terminated_ofBytes sampleRange k (show k ≤ 21 by omega)) (by decide) (by decide)).2

end DBus
