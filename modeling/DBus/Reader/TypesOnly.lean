/-
  Types-only readers over any signature.

  Whatever bytes the signature is made of, the reader looks at no byte behind the NUL that
  ends it.  The two walkers over a body, the validator and the swapper, need no more of the
  reader than this.
-/
import DBus.Reader.Defs

namespace DBus

open Outcome TypeReader

/-- Every byte of the string can be read, and the one that ends it. -/
def DBusString.Terminated (s : DBusString) : Prop := ∀ i, i ≤ s.len → (s.str i).isSome

/-- A types-only reader of the signature `s`. -/
structure TypesOnly (s : DBusString) (r : TypeReader) : Prop where
  typesOnly : r.klass.typesOnly = true
  typeStr : r.typeStr = s

theorem typesOnly_init (s : DBusString) (p : ℕ) : TypesOnly s (.initTypesOnly s p) := ⟨rfl, rfl⟩

theorem terminated_ofBytes (bs : List UInt8) : (DBusString.ofBytes bs).Terminated := fun i hi => by
  rcases Nat.lt_or_eq_of_le hi with h | h
  · simp [ofBytes_str_of_lt h]
  · rw [h]
    exact (congrArg Option.isSome (ofBytes_str_len bs)).trans rfl

section
variable {s : DBusString} {r : TypeReader} {p : ℕ} {Q : Unit → Prop}
  {next : TypeReader → Res (Bool × TypeReader)} {t : TypeCode} {n : ℕ}

theorem assert_sat {c : Prop} [Decidable c] (h : c → Q ()) : Sat (assert c) Q Stop.Plain :=
  sat_ensure h fun _ => trivial

theorem sat_safe {α : Type} {x : Res α} {Q : α → Prop} (h : Sat x Q Stop.Plain) :
    Sat x Q (· ≠ .outside) := h.mono (fun _ ha => ha) fun _ he => he.ne_outside

/-! ## Signatures -/

section
variable (h : s.Terminated)
include h

theorem deref_sat (hp : p ≤ s.len) : Sat (s.deref p) (fun c => s.str p = some c) Stop.Plain := by
  obtain ⟨c, hc⟩ := Option.isSome_iff_exists.1 (h p hp)
  rw [DBusString.deref_eq_ok.2 hc]
  exact hc

theorem getByte_sat : Sat (s.getByte p) (fun _ => p ≤ s.len) Stop.Plain :=
  (assert_sat fun hp => hp).bind fun _ hp => (deref_sat h hp).mono (fun _ _ => hp) fun _ he => he

theorem firstTypeInSignature_sat :
    Sat (firstTypeInSignature s p) (fun _ => p ≤ s.len) Stop.Plain := by
  refine (getByte_sat h).bind fun c hp => ?_
  cases TypeCode.ofByte c <;> first | exact hp | trivial

theorem skipArrayCodes_sat (hend : s.str s.len = some 0) (n : ℕ) (hp : p ≤ s.len) :
    Sat (skipArrayCodes s n p) (fun q => q ≤ s.len) (· ≠ .outside) := by
  induction n generalizing p with
  | zero => exact nofun
  | succ n ih =>
    refine (sat_safe (deref_sat h hp)).bind fun c hc => ?_
    split
    · next har =>
      refine ih (Nat.lt_of_le_of_ne hp fun heq => ?_)
      rw [heq, hend, Option.some.injEq] at hc
      rw [← hc] at har
      exact absurd har (by decide)
    · exact hp

end

theorem lt_of_deref (hend : s.str s.len = some 0) {c : UInt8} (hp : p ≤ s.len)
    (hc : s.str p = some c) (hne : TypeCode.ofByte c ≠ .invalid) : p < s.len := by
  refine Nat.lt_of_le_of_ne hp fun heq => hne ?_
  rw [heq, hend, Option.some.injEq] at hc
  rw [← hc]
  rfl

section
variable (h : s.Terminated) (hend : s.str s.len = some 0)
include h hend

theorem skipBrackets_sat (k : StructKind) (n : ℕ) {depth : ℕ} (hp : p ≤ s.len) :
    Sat (skipBrackets s k n depth p) (fun _ => True) (· ≠ .outside) := by
  induction n generalizing p depth with
  | zero => exact nofun
  | succ n ih =>
    refine (sat_safe (deref_sat h hp)).bind fun c hc => ?_
    refine (sat_safe (assert_sat (Q := fun _ => p + 1 ≤ s.len) fun hne => lt_of_deref hend hp hc hne)).bind
      fun _ hp' => ?_
    refine (sat_safe (deref_sat h hp')).bind fun c' _ => ?_
    refine (sat_safe (assert_sat (Q := fun _ => True) fun _ => trivial)).bind fun _ _ => ?_
    split
    · exact ih hp'
    · split
      · split
        · trivial
        · exact ih hp'
      · exact ih hp'

theorem typeSignatureNext_sat (hp : p ≤ s.len) :
    Sat (typeSignatureNext s p) (fun _ => True) (· ≠ .outside) := by
  refine (sat_safe (deref_sat h hp)).bind fun c _ => ?_
  refine (sat_safe (assert_sat (Q := fun _ => True) fun _ => trivial)).bind fun _ _ => ?_
  refine (skipArrayCodes_sat h hend _ hp).bind fun q hq => ?_
  refine (sat_safe (deref_sat h hq)).bind fun c' _ => ?_
  refine (sat_safe (assert_sat (Q := fun _ => True) fun _ => trivial)).bind fun _ _ => ?_
  split
  · exact skipBrackets_sat h hend _ _ hq
  · trivial

end

/-! ## The calls -/

section
variable (hr : TypesOnly s r)
include hr

theorem TypesOnly.checkFinished : r.checkFinished = .ok false := by
  have := hr.typesOnly
  unfold TypeReader.checkFinished
  split
  · next hk => rw [hk] at this; exact absurd this nofun
  · rfl

theorem TypesOnly.atEnd_sat : Plainly r.atEnd := by
  unfold atEnd
  split
  · trivial
  · rw [hr.checkFinished]
    trivial

section
variable (h : s.Terminated)
include h

theorem TypesOnly.getCurrentType_sat :
    Sat r.getCurrentType (fun t => t ≠ .invalid → r.typePos ≤ s.len) Stop.Plain := by
  refine hr.atEnd_sat.bind fun b _ => ?_
  refine Sat.bind (P := fun t => t ≠ .invalid → r.typePos ≤ s.len) ?_ fun t ht => ?_
  · cases b with
    | true => exact fun hne => absurd rfl hne
    | false =>
      rw [cond_false, hr.typeStr]
      exact (firstTypeInSignature_sat h).mono (fun _ hp _ => hp) fun _ he => he
  · exact (assert_sat (Q := fun _ => True) fun _ => trivial).bind fun _ _ => ht

theorem TypesOnly.getElementType_sat : Plainly r.getElementType := by
  refine (hr.getCurrentType_sat h).bind fun t _ => ?_
  refine (assert_sat (Q := fun _ => True) fun _ => trivial).bind fun _ _ => ?_
  rw [hr.typeStr]
  exact (firstTypeInSignature_sat h).mono (fun _ _ => trivial) fun _ he => he

theorem TypesOnly.recurse_sat : Sat r.recurse (TypesOnly s) Stop.Plain := by
  have hst : ∀ k, Sat (r.structTypesOnlyRecurse (.struct k true)) (TypesOnly s)
      Stop.Plain := fun k => by
    have hb := getByte_sat (p := r.typePos) h
    rw [← hr.typeStr] at hb
    refine hb.bind fun c _ => ?_
    exact (assert_sat (Q := fun _ => True) fun _ => trivial).bind fun _ _ => ⟨rfl, hr.typeStr⟩
  rw [recurse, hr.typeStr, hr.typesOnly]
  refine (firstTypeInSignature_sat h).bind fun t _ => ?_
  cases t <;> first | exact hst _ | exact ⟨rfl, hr.typeStr⟩ | trivial

end

theorem TypesOnly.recurse_of_getElementType (ht : r.getElementType = .ok t) :
    ∃ sub, r.recurse = .ok sub := by
  simp only [getElementType, bind_eq_ok, assert_eq_ok, exists_const] at ht
  obtain ⟨_, hc, rfl, -⟩ := ht
  simp only [getCurrentType, bind_eq_ok, pure_eq_ok, Except.ok.injEq] at hc
  obtain ⟨b, -, _, hfr, -, -, rfl⟩ := hc
  cases b with
  | true => cases hfr
  | false =>
    rw [cond_false] at hfr
    rw [recurse, hfr, ok_bind, hr.typesOnly]
    exact ⟨_, rfl⟩

end

theorem TypesOnly.skipRest_sat
    (hnext : ∀ r, TypesOnly s r → Sat (next r) (fun out => TypesOnly s out.2) (· ≠ .outside))
    (n : ℕ) (hr : TypesOnly s r) :
    Sat (skipRest next n r) (TypesOnly s) (· ≠ .outside) := by
  induction n generalizing r with
  | zero => exact nofun
  | succ n ih =>
    refine (hnext r hr).bind fun ⟨more, sub⟩ hsb => ?_
    cases more with
    | true => exact ih hsb
    | false => exact hsb

section
variable (h : s.Terminated) (hend : s.str s.len = some 0) (hnext : ∀ r, TypesOnly s r → Sat
  (next r) (fun out => TypesOnly s out.2) (· ≠ .outside)) (hr : TypesOnly s r) (hp : r.typePos ≤ s.len)
include h hend hnext hr hp

theorem TypesOnly.baseNext_sat : Sat (r.baseNext next n t) (TypesOnly s) (· ≠ .outside) := by
  have hkp : ∀ pos, TypesOnly s { r with typePos := pos } := fun pos => ⟨hr.typesOnly, hr.typeStr⟩
  have hsk : Sat (typeSignatureNext r.typeStr r.typePos) (fun _ => True) (· ≠ Stop.outside) := by
    rw [hr.typeStr]
    exact typeSignatureNext_sat h hend hp
  unfold baseNext
  rw [hr.typesOnly]
  split
  · have hcn : Sat (r.skipContents next n) (TypesOnly s) (· ≠ Stop.outside) :=
      (sat_safe (hr.recurse_sat h)).bind fun sub hsb => hsb.skipRest_sat hnext n
    exact hcn.bind fun sub _ => hkp _
  · next hk => exact absurd hk nofun
  · exact hkp _
  · next hk => exact absurd hk nofun
  · exact hsk.bind fun pos _ => hkp pos
  · next hk => exact absurd hk nofun
  · exact hkp _
  · next hk => exact absurd hk nofun

theorem TypesOnly.classNext_sat : Sat (r.classNext next n t) (TypesOnly s) (· ≠ .outside) := by
  have hb := hr.baseNext_sat (n := n) (t := t) h hend hnext hp
  have hto := hr.typesOnly
  unfold classNext
  split
  · exact hb
  · exact hb
  · refine hb.bind fun r' hr' => ?_
    have hby := sat_safe (getByte_sat (p := r'.typePos) h)
    rw [← hr'.typeStr] at hby
    refine hby.bind fun c _ => ?_
    split
    · exact ⟨hr'.typesOnly, hr'.typeStr⟩
    · exact hr'
  · exact ⟨hto, hr.typeStr⟩
  · next hk => rw [hk] at hto; exact absurd hto nofun

end

section
variable (h : s.Terminated) (hend : s.str s.len = some 0)
include h hend

theorem TypesOnly.readerNext_sat (n : ℕ) (hr : TypesOnly s r) :
    Sat (r.readerNext n) (fun out => TypesOnly s out.2) (· ≠ .outside) := by
  induction n generalizing r with
  | zero => exact nofun
  | succ n ih =>
    refine (sat_safe (hr.getCurrentType_sat h)).bind fun t ht => ?_
    split
    · exact hr
    · next hne =>
      refine (hr.classNext_sat h hend (fun r hr => ih hr) (ht hne)).bind fun r' hr' => ?_
      exact (sat_safe (hr'.getCurrentType_sat h)).bind fun _ _ => hr'

theorem TypesOnly.next_sat (hr : TypesOnly s r) :
    Sat r.next (fun out => TypesOnly s out.2) (· ≠ .outside) :=
  hr.readerNext_sat h hend _

end

end

end DBus
