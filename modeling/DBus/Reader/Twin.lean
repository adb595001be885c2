/-
  Types-only readers over one signature in two places.

  `Twin` relates a types-only reader over a signature that lies by itself to one over a
  string that has the same signature at some position.  Every call on the two ends in the
  same way, and none runs out of fuel or leaves the signature.
-/
import DBus.Body.Skip

namespace DBus

open Outcome TypeReader

/-- What a signature is for its readers: a text that a NUL ends, where something
    follows each array code. -/
structure SigText (s : DBusString) : Prop where
  terminated : s.Terminated
  nul : s.str s.len = some 0
  arrays : ∀ i c, s.str i = some c → TypeCode.ofByte c = .array → i + 1 < s.len

/-- The types-only reader `r` over `s`, and `r'` at the same place of the same text, which
    `s'` has at `d`. -/
structure Twin (s s' : DBusString) (d : ℕ) (r r' : TypeReader) : Prop where
  typesOnly : r.klass.typesOnly = true
  klass : r'.klass = r.klass
  finished : r'.finished = r.finished
  typeStr : r.typeStr = s
  typeStr' : r'.typeStr = s'
  typePos : r'.typePos = d + r.typePos
  le : r.typePos ≤ s.len

section
variable {s s' : DBusString} {d p q n n' : ℕ} {r r' : TypeReader} {t : TypeCode}

/-! ## Signatures -/

section
variable (hs : SigText s)
include hs

section
variable (ht : TextsAgree s s' d) (hp : p ≤ s.len)
include ht hp

theorem SigText.deref :
    Outcome.Agree (s.deref p) (s'.deref (d + p)) (fun c => s.str p = some c) Stop.Plain := by
  have hst := deref_sat hs.terminated hp
  obtain ⟨c, hc⟩ := Option.isSome_iff_exists.1 (hs.terminated p hp)
  have hdr := DBusString.deref_eq_ok.2 hc
  exact ⟨by rw [(ht.deref hdr).2, hdr], hst⟩

theorem SigText.getByte :
    Outcome.Agree (s.getByte p) (s'.getByte (d + p)) (fun c => s.str p = some c) Stop.Plain := by
  have hp' : d + p ≤ s'.len := by have := ht.len_le; omega
  rw [DBusString.getByte, DBusString.getByte, assert_of hp, assert_bind hp', ok_bind]
  exact hs.deref ht hp

end

theorem SigText.lt {c : UInt8} (hp : p ≤ s.len) (hc : s.str p = some c)
    (hne : TypeCode.ofByte c ≠ .invalid) : p < s.len := lt_of_deref hs.nul hp hc hne

section
variable (ht : TextsAgree s s' d)
include ht

theorem SigText.firstTypeInSignature (hp : p ≤ s.len) :
    Outcome.Agree (firstTypeInSignature s p) (DBus.firstTypeInSignature s' (d + p))
      (fun t => t ≠ .invalid → p < s.len) Stop.Plain := by
  refine (hs.getByte ht hp).bind fun c hc => ⟨rfl, ?_⟩
  cases h : TypeCode.ofByte c with
  | endChar k => trivial
  | invalid => exact fun hne => absurd rfl hne
  | _ => exact fun _ => hs.lt hp hc (by rw [h]; rintro ⟨⟩)

theorem SigText.skipArrayCodes (hp : p < s.len) (hn : s.len < n + p) (hn' : s.len < n' + p) :
    Together (skipArrayCodes s n p) (DBus.skipArrayCodes s' n' (d + p))
      (fun q q' => q' = d + q ∧ p ≤ q ∧ q < s.len) Stop.Plain := by
  induction n generalizing p n' with
  | zero => omega
  | succ n ih =>
    obtain _ | n' := n'
    · omega
    refine (hs.deref ht hp.le).bind_together fun c hc => ?_
    split
    · next ha =>
      refine (ih (hs.arrays p c hc ha) (by omega) (by omega)).mono fun q q' hq => ?_
      exact ⟨hq.1, by omega, hq.2.2⟩
    · exact ⟨rfl, le_refl p, hp⟩

theorem SigText.skipBrackets {k : StructKind} {depth : ℕ} (hp : p < s.len) (hn : s.len < n + p)
    (hn' : s.len < n' + p) :
    Together (skipBrackets s k n depth p) (DBus.skipBrackets s' k n' depth (d + p))
      (fun q q' => q' = d + q ∧ p < q ∧ q ≤ s.len) Stop.Plain := by
  induction n generalizing p n' depth with
  | zero => omega
  | succ n ih =>
    obtain _ | n' := n'
    · omega
    refine (hs.deref ht hp.le).bind_together fun c hc => agree_assert.bind_together fun _ _ => ?_
    refine (hs.deref ht hp).bind_together fun c' hc' => agree_assert.bind_together fun _ hne => ?_
    have hp' : p + 1 < s.len := hs.lt hp hc' hne
    have hgo (depth : ℕ) : Together (DBus.skipBrackets s k n depth (p + 1))
        (DBus.skipBrackets s' k n' depth (d + (p + 1)))
        (fun q q' => q' = d + q ∧ p < q ∧ q ≤ s.len) Stop.Plain :=
      (ih hp' (by omega) (by omega)).mono fun q q' hq => ⟨hq.1, by omega, hq.2.2⟩
    split
    · exact hgo _
    · split
      · split
        · exact ⟨rfl, by omega, hp'⟩
        · exact hgo _
      · exact hgo _

theorem SigText.typeSignatureNext (hp : p < s.len) :
    Together (typeSignatureNext s p) (DBus.typeSignatureNext s' (d + p))
      (fun q q' => q' = d + q ∧ p < q ∧ q ≤ s.len) Stop.Plain := by
  have hlen := ht.len_le
  refine (hs.deref ht hp.le).bind_together fun c _ => agree_assert.bind_together fun _ _ => ?_
  refine (hs.skipArrayCodes ht hp (by omega) (by omega)).bind ?_
  rintro q _ ⟨rfl, hpq, hq⟩
  refine (hs.deref ht hq.le).bind_together fun c' _ => agree_assert.bind_together fun _ _ => ?_
  split
  · refine (hs.skipBrackets ht hq (by omega) (by omega)).mono fun q1 q1' h => ?_
    exact ⟨h.1, by omega, h.2.2⟩
  · exact ⟨rfl, by omega, hq⟩

end

end

/-! ## The calls -/

section
variable (h : Twin s s' d r r')
include h

theorem Twin.atEnd : r.atEnd = .ok r.finished ∧ r'.atEnd = .ok r.finished := by
  have hch {u : TypeReader} (hu : u.klass.typesOnly = true) : u.atEnd = .ok u.finished := by
    have hty : TypesOnly u.typeStr u := ⟨hu, rfl⟩
    unfold TypeReader.atEnd
    split
    · next hf => rw [hf]
    · next hf => rw [hty.checkFinished, Bool.eq_false_iff.2 hf]
  refine ⟨hch h.typesOnly, ?_⟩
  rw [hch (h.klass ▸ h.typesOnly), h.finished]

section
variable (hs : SigText s) (ht : TextsAgree s s' d)
include hs ht

theorem Twin.getCurrentType : Outcome.Agree r.getCurrentType r'.getCurrentType
      (fun t => t ≠ .invalid → r.finished = false ∧ r.typePos < s.len) Stop.Plain := by
  obtain ⟨hend, he'⟩ := h.atEnd
  rw [TypeReader.getCurrentType, TypeReader.getCurrentType, hend, he', ok_bind, ok_bind]
  cases hf : r.finished with
  | true => exact ⟨rfl, fun hne => absurd rfl hne⟩
  | false =>
    rw [cond_false, cond_false, h.typeStr, h.typeStr', h.typePos]
    refine (hs.firstTypeInSignature ht h.le).bind fun t hlt => ?_
    exact agree_assert.bind fun _ _ => ⟨rfl, fun hne => ⟨rfl, hlt hne⟩⟩

theorem Twin.getElementType :
    Outcome.Agree r.getElementType r'.getElementType (fun _ => True) Stop.Plain := by
  refine (h.getCurrentType hs ht).bind fun t hlt => ?_
  refine agree_assert.bind fun _ har => ?_
  obtain ⟨-, hlt⟩ := hlt (by rw [har]; rintro ⟨⟩)
  rw [h.typeStr, h.typeStr', h.typePos]
  have := hs.firstTypeInSignature ht hlt
  exact ⟨this.1, this.2.mono (fun _ _ => trivial) fun _ he => he⟩

theorem Twin.recurse (hlt : r.typePos < s.len) : Together r.recurse r'.recurse
      (fun u u' => Twin s s' d u u' ∧ u.typePos = r.typePos + 1 ∧ u.finished = false) Stop.Plain := by
  have hm : r'.typePos + 1 = d + (r.typePos + 1) := by rw [h.typePos, Nat.add_assoc]
  have hst (k : StructKind) : Together (r.structTypesOnlyRecurse (.struct k true))
      (r'.structTypesOnlyRecurse (.struct k true))
      (fun u u' => Twin s s' d u u' ∧ u.typePos = r.typePos + 1 ∧ u.finished = false) Stop.Plain := by
    have hb := hs.getByte ht h.le
    rw [← h.typePos, ← h.typeStr, ← h.typeStr'] at hb
    refine hb.bind_together fun c _ => agree_assert.bind_together fun _ _ => ?_
    exact ⟨⟨rfl, rfl, rfl, h.typeStr, h.typeStr', hm, hlt⟩, rfl, rfl⟩
  rw [TypeReader.recurse, TypeReader.recurse, h.klass, h.typesOnly, h.typeStr, h.typeStr', h.typePos]
  refine (hs.firstTypeInSignature ht h.le).bind_together fun t _ => ?_
  cases t with
  | struct k => exact hst k
  | array => exact ⟨⟨rfl, rfl, rfl, h.typeStr, h.typeStr', hm, hlt⟩, rfl, rfl⟩
  | _ => exact ⟨rfl, trivial⟩

end

end

/-- The readers have moved on, or have finished. -/
structure TwinAfter (s s' : DBusString) (d : ℕ) (r u u' : TypeReader) : Prop
    extends Twin s s' d u u' where
  after : r.typePos ≤ u.typePos
  moved : u.finished = true ∨ r.typePos < u.typePos

/-- What the outcomes of `next` on two readers are like, the first of which is `r`. -/
structure TwinNext (s s' : DBusString) (d : ℕ) (r : TypeReader) (x y : Bool × TypeReader) : Prop where
  more : y.1 = x.1
  twin : Twin s s' d x.2 y.2
  after : r.typePos ≤ x.2.typePos
  moved : r.getCurrentType ≠ .ok .invalid → x.2.finished = true ∨ r.typePos < x.2.typePos
  more_lt : x.1 = true → r.typePos < x.2.typePos ∧ x.2.typePos < s.len

/-- The `next` calls on two readers end together. -/
abbrev NextTogether (s s' : DBusString) (d : ℕ) (x y : Res (Bool × TypeReader)) (r : TypeReader) :
    Prop := Together x y (TwinNext s s' d r) Stop.Plain

theorem Twin.skipRest {next next' : TypeReader → Res (Bool × TypeReader)}
    (hnext : ∀ {u u'}, Twin s s' d u u' → s.len < n + u.typePos → s.len < n' + u.typePos →
      NextTogether s s' d (next u) (next' u') u) {k k' : ℕ}
    (h : Twin s s' d r r') (hn : s.len < n + r.typePos) (hn' : s.len < n' + r.typePos)
    (hk : s.len < k + r.typePos) (hk' : s.len < k' + r.typePos) :
    Together (skipRest next k r) (skipRest next' k' r')
      (fun u u' => Twin s s' d u u' ∧ r.typePos ≤ u.typePos) Stop.Plain := by
  have hle := h.le
  induction k generalizing r r' k' with
  | zero => omega
  | succ k ih =>
    obtain _ | k' := k'
    · omega
    refine (hnext h hn hn').bind ?_
    rintro ⟨more, u⟩ ⟨more', u'⟩ hu
    obtain rfl : more' = more := hu.more
    have hu' : Twin s s' d u u' := hu.twin
    cases more' with
    | false => exact ⟨hu', hu.after⟩
    | true =>
      obtain ⟨hm, hlt⟩ : r.typePos < u.typePos ∧ u.typePos < s.len := hu.more_lt rfl
      refine (ih hu' (by omega) (by omega) (by omega) (by omega) hlt.le).mono
        fun v v' hv => ⟨hv.1, hm.le.trans hv.2⟩

theorem Twin.move (h : Twin s s' d r r') (hp : p ≤ s.len) :
    Twin s s' d { r with typePos := p } { r' with typePos := d + p } :=
  ⟨h.typesOnly, h.klass, h.finished, h.typeStr, h.typeStr', rfl, hp⟩

section
variable {next next' : TypeReader → Res (Bool × TypeReader)} (hs : SigText s)
  (ht : TextsAgree s s' d)
  (hnext : ∀ {u u'}, Twin s s' d u u' → s.len < n + u.typePos → s.len < n' + u.typePos →
    NextTogether s s' d (next u) (next' u') u)
  (h : Twin s s' d r r') (hlt : r.typePos < s.len) (hn : s.len < n + (r.typePos + 1))
  (hn' : s.len < n' + (r.typePos + 1))
include hs ht hnext h hlt hn hn'

theorem Twin.skipContents : Together (r.skipContents next n) (r'.skipContents next' n')
      (fun u u' => Twin s s' d u u' ∧ r.typePos < u.typePos) Stop.Plain := by
  refine (h.recurse hs ht hlt).bind ?_
  rintro u u' ⟨hu, hps, -⟩
  rw [← hps] at hn hn'
  refine (hu.skipRest hnext hn hn' hn hn').mono fun v v' hv => ⟨hv.1, ?_⟩
  omega

theorem Twin.baseNext (t : TypeCode) : Together (r.baseNext next n t) (r'.baseNext next' n' t)
      (fun u u' => Twin s s' d u u' ∧ r.typePos < u.typePos ∧ u.klass = r.klass ∧
        u.finished = r.finished) Stop.Plain := by
  have hmv : r'.typePos + 1 = d + (r.typePos + 1) := by rw [h.typePos, Nat.add_assoc]
  have hst : Twin s s' d { r with typePos := r.typePos + 1 } { r' with typePos := r'.typePos + 1 } := by
    rw [hmv]
    exact h.move hlt
  have hk : r'.klass.typesOnly = true := by rw [h.klass, h.typesOnly]
  simp only [TypeReader.baseNext, h.typesOnly, hk]
  cases t with
  | struct k =>
    refine (h.skipContents hs ht hnext hlt hn hn').bind ?_
    rintro u u' ⟨hu, hps⟩
    have hm := h.move hu.le
    rw [← hu.typePos] at hm
    exact ⟨hm, hps, rfl, rfl⟩
  | array =>
    have hsk := hs.typeSignatureNext ht hlt
    rw [← h.typePos, ← h.typeStr, ← h.typeStr'] at hsk
    refine hsk.bind ?_
    rintro q _ ⟨rfl, hpq, hq⟩
    rw [h.typeStr] at hq
    exact ⟨h.move hq, hpq, rfl, rfl⟩
  | _ => exact ⟨hst, Nat.lt_succ_self _, rfl, rfl⟩

theorem Twin.classNext (t : TypeCode) :
    Together (r.classNext next n t) (r'.classNext next' n' t) (TwinAfter s s' d r) Stop.Plain := by
  have hb := h.baseNext hs ht hnext hlt hn hn' t
  have hto := h.typesOnly
  unfold TypeReader.classNext
  rw [h.klass]
  split
  · exact hb.mono fun u u' hu => ⟨hu.1, hu.2.1.le, .inr hu.2.1⟩
  · exact hb.mono fun u u' hu => ⟨hu.1, hu.2.1.le, .inr hu.2.1⟩
  · refine hb.bind ?_
    rintro u u' ⟨hu, hps, -, -⟩
    have hby := hs.getByte ht hu.le
    rw [← hu.typePos, ← hu.typeStr, ← hu.typeStr'] at hby
    refine hby.bind_together fun c hc => ?_
    rw [hu.typeStr] at hc
    split
    · next hend =>
      have hlt' : u.typePos < s.len := hs.lt hu.le hc (by rw [hend]; rintro ⟨⟩)
      refine ⟨⟨hu.typesOnly, hu.klass, rfl, hu.typeStr, hu.typeStr', ?_, hlt'⟩, ?_, .inl rfl⟩
      · change u'.typePos + 1 = d + (u.typePos + 1)
        rw [hu.typePos, Nat.add_assoc]
      · exact hps.le.trans (Nat.le_succ _)
    · exact ⟨hu, hps.le, .inr hps⟩
  · exact ⟨⟨h.typesOnly, rfl, rfl, h.typeStr, h.typeStr', h.typePos, h.le⟩, le_refl _, .inl rfl⟩
  · next hk => rw [hk] at hto; cases hto

end

section
variable (hs : SigText s) (ht : TextsAgree s s' d) (h : Twin s s' d r r')
include hs ht h

theorem Twin.readerNext (hn : s.len < n + r.typePos) (hn' : s.len < n' + r.typePos) :
    NextTogether s s' d (r.readerNext n) (r'.readerNext n') r := by
  have hle := h.le
  induction n generalizing r r' n' with
  | zero => omega
  | succ n ih =>
    obtain _ | n' := n'
    · omega
    have hcr := h.getCurrentType hs ht
    cases hty : r.getCurrentType with
    | error e =>
      rw [hty] at hcr
      rw [readerNext, readerNext, hcr.1, hty]
      exact ⟨rfl, hcr.2⟩
    | ok t =>
      rw [hty] at hcr
      rw [readerNext, readerNext, hcr.1, hty, ok_bind, ok_bind]
      split
      · next hi => exact ⟨rfl, h, le_refl _, fun hne => absurd (hi ▸ hty) hne, (by simp)⟩
      · next hne =>
        obtain ⟨-, hlt⟩ := hcr.2 hne
        refine (h.classNext hs ht (fun hu hn hn' => ih hu hn hn' hu.le) hlt (by omega)
          (by omega) t).bind fun u u' hu => ?_
        refine (hu.getCurrentType hs ht).bind_together fun t' ht' => ?_
        refine ⟨rfl, hu.toTwin, hu.after, fun _ => hu.moved, fun hm => ?_⟩
        obtain ⟨hf, hlt'⟩ := ht' (bne_iff_ne.1 hm)
        exact ⟨hu.moved.resolve_left (by rw [hf]; rintro ⟨⟩), hlt'⟩

/-- **Twin readers move together.** -/
theorem Twin.next : NextTogether s s' d r.next r'.next r := by
  have := ht.len_le
  refine h.readerNext hs ht ?_ ?_
  · rw [h.typeStr]; omega
  · rw [h.typeStr']; omega

end

end

end DBus
