/-
  No assertion of the body validator fails where brackets nest.

  The signature validator accepts brackets that cross, and the type reader fails on these.
  If the brackets of the signature of a body nest, and those of every variant that the
  validator meets, then the validator accepts the body or rejects it (`traceHelper_calm`).
-/
import DBus.Body.Decode
import DBus.Body.Total

namespace DBus

open Outcome Memory Align Endian Traced List

/-- No assertion fails in the run of `x`. -/
abbrev Calm {α : Type} (x : Res α) : Prop := Avoids .assertion x

variable {o : ByteOrder} {m : ℕ → Option UInt8} {e n p : ℕ} {r : TypeReader}

section
variable {c : Prop} [Decidable c]

theorem calm_require {v : DBusValidity} {hv : v ≠ .valid} : Calm (require c v hv) :=
  avoids_ensure fun _ => by rintro ⟨⟩

theorem calm_assert (h : c) : Calm (assert c) := avoids_of_eq_ok (assert_of h)

end

theorem SameVerdict.calm {α : Type} {x y : Res α} {Q : α → Prop} (h : SameVerdict x y Q) : Calm y :=
  fun he => h.2.of_error (h.1.symm.trans he)

theorem checkBoolean_calm (h : 4 ∣ p) : Calm (checkBoolean o m p) := by
  refine Avoids.bind ((calm_assert (alignUp_of_dvd h)).bind fun _ _ => ?_) fun _ _ => calm_require
  exact (avoids_valueOr (by rintro ⟨⟩) _).bind fun _ _ => avoids_ok _

/-! ## The run of the validator -/

/-- The brackets in the signature of a variant nest. -/
def Part.nests : Part → Bool
  | .variant sig => bracketsNest sig
  | _ => true

/-- No assertion fails, if the brackets of every variant that is met nest. -/
abbrev CalmIf {α : Type} (x : Traced Part Stop α) : Prop := AvoidsIf (·.nests = true) .assertion x

theorem traceBoolean_calm (h : 4 ∣ p) : CalmIf (traceBoolean o m p) :=
  .note_bind fun _ => avoidsIf_lift (checkBoolean_calm h)

theorem traceFixed_calm (hm : InRange (restrict m p e) m p e) (f : FixedType) :
    CalmIf (traceFixed o m e f p) := by
  have hpd (hae : require (alignUp p f.size < e) .invalidNotEnoughData = .ok ()) :=
    (hm.pad f.size_pos (require_eq_ok.1 hae).le).calm
  cases f with
  | byte => exact avoidsIf_pure _
  | boolean =>
    refine .lift_bind calm_require fun _ hae => .lift_bind (hpd hae) fun _ _ => ?_
    exact (traceBoolean_calm dvd_alignUp).bind fun _ _ => avoidsIf_pure _
  | _ =>
    refine .lift_bind calm_require fun _ hae => .lift_bind (hpd hae) fun _ _ => ?_
    exact (avoidsIf_pure ()).bind fun _ _ => avoidsIf_pure _

theorem traceBooleans_calm {arrayEnd : ℕ} (h : 4 ∣ p) :
    CalmIf (traceBooleans o m arrayEnd n p) := by
  induction n generalizing p with
  | zero => exact avoidsIf_lift (avoids_error (by rintro ⟨⟩))
  | succ n ih =>
    rw [traceBooleans]
    split
    · exact (traceBoolean_calm h).bind fun _ _ => ih (Nat.dvd_add h (Nat.dvd_refl 4))
    · exact avoidsIf_pure p

theorem traceLoop_calm {elem : ℕ → Traced Part Stop ℕ} {arrayEnd : ℕ}
    (h : ∀ p, p < arrayEnd → CalmIf (elem p)) : CalmIf (traceLoop elem arrayEnd n p) := by
  induction n generalizing p with
  | zero => exact avoidsIf_lift (avoids_error (by rintro ⟨⟩))
  | succ n ih =>
    rw [traceLoop]
    split
    · next hlt => exact (h p hlt).bind fun _ _ => ih
    · exact avoidsIf_pure p

/-- With fuel `n`, no assertion fails in a run of the helper with a reader of types. -/
def CalmRuns (o : ByteOrder) (m : ℕ → Option UInt8) (e n : ℕ) : Prop :=
  ∀ {r : TypeReader} {ts : List Ty} {d p : ℕ} (walk : Bool), TypesLeft r ts d → p ≤ e →
    CalmIf (traceHelper o m e n r walk p)

section
variable (ih : CalmRuns o m e n) {ts : List Ty} {d : ℕ} (hm : InRange (restrict m p e) m p e)
include ih hm

theorem CalmRuns.array {el : Ty} (hl : TypesLeft r (.array el :: ts) d) :
    CalmIf (traceArray o m e (traceHelper o m e n) n r p) := by
  have hst : Calm (arrayStart o m e r p) := by
    refine hm.claimedLen.calm.bind fun ⟨len, q⟩ hq => ?_
    have hpq := (hm.claimedLen.1 ▸ hm.claimedLen.2).of_ok hq
    dsimp only
    rw [hl.getElementType, ok_bind]
    refine calm_require.bind fun _ _ => ?_
    rw [el.getAlignment_code, ok_bind]
    refine calm_require.bind fun _ hae => ?_
    refine ((hm.mono hpq.1).pad el.alignment_pos (require_eq_ok.1 hae)).calm.bind fun _ _ => ?_
    exact calm_require.bind fun _ _ => calm_require.bind fun _ _ => avoids_ok _
  refine .lift_bind hst fun ⟨t, len, a⟩ hs => .note_bind fun _ => ?_
  obtain ⟨ht, -, -, -, -, hae, al, hal, rfl, -⟩ := arrayStart_eq_ok.1 hs
  obtain ⟨sub, hrc, hsb, -⟩ := hl.recurse_array
  split
  · refine AvoidsIf.bind ?_ fun _ _ => .lift_bind calm_require fun _ _ => avoidsIf_pure _
    rw [traceElements, lift_bind_of_ok hrc, lift_bind_of_ok ht]
    cases hfx : t.fixed? with
    | none => exact traceLoop_calm fun p hlt => ih false hsb (hlt.le.trans hae)
    | some f =>
      cases f with
      | boolean =>
        obtain rfl := TypeCode.eq_of_fixed hfx
        cases hal
        exact traceBooleans_calm dvd_alignUp
      | _ => exact avoidsIf_pure _
  · exact avoidsIf_pure _

theorem CalmRuns.variant (hrd : Readable m p e) (hp : p < e) :
    CalmIf (traceVariant m e (traceHelper o m e n) p) := by
  refine .lift_bind (hm.variantStart hp).calm fun ⟨sig, a⟩ hs => .note_bind fun hn => ?_
  obtain ⟨u, us, hl, -⟩ := variantStart_types hrd hs hn
  obtain ⟨sub, hnx, hsb, -⟩ := hl.next
  obtain ⟨-, -, -, -, -, -, -, -, -, -, -, hae, -⟩ := (variantStart_eq_ok hrd).1 hs
  refine (ih false hl hae).bind fun q _ => ?_
  rw [lift_bind_of_ok hnx]
  refine .lift_bind calm_require fun _ hone => ?_
  obtain rfl : us = [] := by simpa using require_eq_ok.1 hone
  rw [lift_bind_of_ok hsb.getCurrentType_nil]
  exact .lift_bind (calm_assert rfl) fun _ _ => avoidsIf_pure q

theorem CalmRuns.struct {k : StructKind} {fs : List Ty} (hl : TypesLeft r (.struct k fs :: ts) d) :
    CalmIf (traceStruct m e (traceHelper o m e n) r p) := by
  obtain ⟨sub, hrc, hsb, -⟩ := hl.recurse_struct
  have hst : Calm (structStart m e r p) :=
    calm_require.bind fun _ hae => (hm.pad (by decide) (require_eq_ok.1 hae)).calm.bind fun _ _ =>
      (avoids_of_eq_ok hrc).bind fun _ _ => avoids_ok _
  refine .lift_bind hst fun ⟨sub', a⟩ hs => ?_
  obtain ⟨hrc', -, hae, -⟩ := structStart_eq_ok.1 hs
  obtain rfl : sub' = sub := Except.ok.inj (hrc'.symm.trans hrc)
  exact ih true hsb hae

theorem CalmRuns.value {t : Ty} (hrd : Readable m p e) (he : e ≤ stringMaxMaxLength) (hp : p < e)
    (hl : TypesLeft r (t :: ts) d) :
    CalmIf (traceValue o m e (traceHelper o m e n) n r p t.code) := by
  match t with
  | .basic (.fixed f) => exact traceFixed_calm hm f
  | .basic (.str .string) | .basic (.str .objectPath) =>
    exact avoidsIf_lift (SameVerdict.calm (hm.validateString_of (fun _ h => h) (.inl he) _))
  | .basic (.str .signature) => exact avoidsIf_lift (hm.validateSignatureValue hp).calm
  | .variant => exact ih.variant hm hrd hp
  | .array el => exact ih.array hm hl
  | .struct k fs => exact ih.struct hm hl

end

/-- **No assertion fails where brackets nest.** -/
theorem traceHelper_calm (hm : Readable m 0 e) (he : e ≤ stringMaxMaxLength) (n : ℕ) :
    CalmRuns o m e n := by
  induction n with
  | zero => exact fun _ _ _ => avoidsIf_lift (avoids_error (by rintro ⟨⟩))
  | succ n ih =>
    intro r ts d p walk hl hp
    have hrd := hm.mono (Nat.zero_le p)
    rw [traceHelper]
    cases ts with
    | nil =>
      rw [lift_bind_of_ok hl.getCurrentType_nil]
      exact avoidsIf_pure p
    | cons t ts =>
      rw [lift_bind_of_ok hl.getCurrentType_cons, if_neg t.code_ne_invalid]
      refine .lift_bind calm_require fun _ hne => ?_
      have hlt := Nat.lt_of_le_of_ne hp (require_eq_ok.1 hne)
      refine (ih.value (inRange_restrict hrd) hrd he hlt hl).bind fun q _ => ?_
      refine .lift_bind calm_require fun _ hqe => ?_
      split
      · obtain ⟨r', hnx, hl', -⟩ := hl.next
        rw [lift_bind_of_ok hnx]
        exact ih _ hl' (require_eq_ok.1 hqe)
      · exact avoidsIf_pure q

end DBus
