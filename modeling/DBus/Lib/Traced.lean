/-
  Computations that note what they meet.

  A traced computation has an outcome and the notes it made on the way, which are kept if it
  stops.  It `Ends` if it returned and all its notes satisfy a predicate; it is `Exact` if it
  stopped for one given reason exactly if one of its notes does not.
-/
import DBus.Lib.Outcome

open Outcome

/-- A computation that makes notes in `ι`. -/
structure Traced (ι ε α : Type) where
  notes : List ι
  out : Except ε α

namespace Traced

open List

variable {ι ε α β : Type} {x : Traced ι ε α} {P : ι → Prop} {f : α → Traced ι ε β} {a : α} {b : β}
  {y : Except ε α} {i : ι} {bad : ε} {Q : α → Prop}

/-- A computation that makes no notes. -/
def lift (x : Except ε α) : Traced ι ε α := ⟨[], x⟩

/-- Make a note. -/
def note (i : ι) : Traced ι ε Unit := ⟨[i], .ok ()⟩

instance : Monad (Traced ι ε) where
  pure a := lift (.ok a)
  bind x f :=
    match x.out with
    | .ok a => ⟨x.notes ++ (f a).notes, (f a).out⟩
    | .error e => ⟨x.notes, .error e⟩

@[simp] theorem out_lift (x : Except ε α) : (lift x : Traced ι ε α).out = x := rfl

@[simp] theorem out_note (i : ι) : (note i : Traced ι ε Unit).out = .ok () := rfl

@[simp] theorem out_pure (a : α) : (pure a : Traced ι ε α).out = .ok a := rfl

@[simp] theorem out_bind (x : Traced ι ε α) (f : α → Traced ι ε β) :
    (x >>= f).out = x.out >>= fun a => (f a).out := by
  obtain ⟨notes, out⟩ := x
  cases out <;> rfl

theorem bind_of_ok {a : α} (h : x.out = .ok a) (f : α → Traced ι ε β) :
    x >>= f = ⟨x.notes ++ (f a).notes, (f a).out⟩ := by
  obtain ⟨notes, out⟩ := x
  subst h
  rfl

theorem bind_of_error {e : ε} (h : x.out = .error e) (f : α → Traced ι ε β) :
    x >>= f = ⟨x.notes, .error e⟩ := by
  obtain ⟨notes, out⟩ := x
  subst h
  rfl

theorem lift_bind_of_ok {y : Except ε α} {f : α → Traced ι ε β} (h : y = .ok a) :
    lift y >>= f = f a := by
  subst h
  rfl

/-! ## Notes -/

theorem forall_notes_lift : ∀ i ∈ (lift y : Traced ι ε α).notes, P i := by
  simp [lift]

theorem forall_notes_note (h : P i) : ∀ j ∈ (note i : Traced ι ε Unit).notes, P j := by
  simpa [note] using h

theorem forall_notes_bind (hx : ∀ i ∈ x.notes, P i)
    (hf : ∀ a, x.out = .ok a → ∀ i ∈ (f a).notes, P i) : ∀ i ∈ (x >>= f).notes, P i := by
  cases h : x.out with
  | error e => rwa [bind_of_error h]
  | ok a =>
    rw [bind_of_ok h]
    intro i hi
    exact (mem_append.1 hi).elim (hx i) (hf a h i)

/-! ## Runs that return -/

/-- The computation returns `a`, and all its notes satisfy `P`. -/
def Ends (P : ι → Prop) (x : Traced ι ε α) (a : α) : Prop := x.out = .ok a ∧ ∀ i ∈ x.notes, P i

@[simp] theorem ends_lift : Ends P (lift y) a ↔ y = .ok a := by simp [Ends, lift]

@[simp] theorem ends_note {u : Unit} : Ends P (note i : Traced ι ε Unit) u ↔ P i := by
  simp [Ends, note]

@[simp] theorem ends_pure {c : α} : Ends P (pure c : Traced ι ε α) a ↔ c = a := by
  rw [← Except.ok.injEq (ε := ε)]
  exact ends_lift

@[simp] theorem ends_bind : Ends P (x >>= f) b ↔ ∃ a, Ends P x a ∧ Ends P (f a) b := by
  cases h : x.out with
  | error e => simp [Ends, bind_of_error h, h]
  | ok a =>
    simp only [Ends, bind_of_ok h, h, Except.ok.injEq, mem_append]
    constructor
    · rintro ⟨ho, hn⟩
      exact ⟨a, ⟨rfl, fun i hi => hn i (.inl hi)⟩, ho, fun i hi => hn i (.inr hi)⟩
    · rintro ⟨_, ⟨rfl, hx⟩, ho, hf⟩
      exact ⟨ho, fun i hi => hi.elim (hx i) (hf i)⟩

/-! ## Runs that stop -/

/-- The computation stops with the reason `bad` exactly if one of its notes does not satisfy `P`; if
    not, the run of `y` has the same outcome, and a value that is returned satisfies `Q`. -/
structure Exact (P : ι → Prop) (bad : ε) (x : Traced ι ε α) (y : Except ε α) (Q : α → Prop) :
    Prop where
  stops_iff : x.out = .error bad ↔ ∃ i ∈ x.notes, ¬ P i
  out_eq : x.out ≠ .error bad → y = x.out
  post : ∀ a, x.out = .ok a → Q a

theorem exact_lift {z : Except ε α} (h : Agree z y Q (· ≠ bad)) :
    Exact P bad (lift z : Traced ι ε α) y Q where
  stops_iff := by
    have hz : z ≠ .error bad := fun hz => h.2.of_error hz rfl
    simp [lift, hz]
  out_eq _ := h.1
  post _ ha := h.2.of_ok ha

theorem exact_pure (h : Q a) : Exact P bad (pure a : Traced ι ε α) (pure a) Q :=
  exact_lift ⟨rfl, h⟩

theorem Exact.mono {Q' : α → Prop} (h : Exact P bad x y Q) (hQ : ∀ a, Q a → Q' a) :
    Exact P bad x y Q' := ⟨h.stops_iff, h.out_eq, fun a ha => hQ a (h.post a ha)⟩

theorem Exact.note_bind {f : Unit → Traced ι ε α} (hi : P i) (h : Exact P bad (f ()) y Q) :
    Exact P bad (note i >>= f) y Q := by
  refine ⟨h.stops_iff.trans ?_, h.out_eq, h.post⟩
  have hnt : (note i >>= f : Traced ι ε α).notes = i :: (f ()).notes := rfl
  rw [hnt]
  simp [hi]

theorem Exact.bind {g : α → Except ε β} {S : β → Prop} (hx : Exact P bad x y Q)
    (hf : ∀ a, Q a → Exact P bad (f a) (g a) S) : Exact P bad (x >>= f) (y >>= g) S := by
  cases h : x.out with
  | error e =>
    have hif := hx.stops_iff
    rw [h, Except.error.injEq] at hif
    refine ⟨by rwa [bind_of_error h, Except.error.injEq], fun hne => ?_, fun a ha => ?_⟩
    · rw [bind_of_error h, Ne, Except.error.injEq] at hne
      rw [bind_of_error h, hx.out_eq (by rwa [h, Ne, Except.error.injEq]), h, error_bind]
    · simp [bind_of_error h] at ha
  | ok a =>
    obtain ⟨hif, ho, hp⟩ := hf a (hx.post a h)
    have hP : ∀ i ∈ x.notes, P i := fun i hi => by
      by_contra hn
      have := hx.stops_iff.2 ⟨i, hi, hn⟩
      simp [h] at this
    rw [hx.out_eq (by rw [h]; nofun), h, ok_bind, bind_of_ok h]
    refine ⟨hif.trans ?_, ho, hp⟩
    simp only [mem_append]
    constructor
    · rintro ⟨i, hi, hn⟩
      exact ⟨i, .inr hi, hn⟩
    · rintro ⟨i, hi | hi, hn⟩
      · exact absurd (hP i hi) hn
      · exact ⟨i, hi, hn⟩

/-- If all its notes satisfy `P`, the computation does not stop with the reason `bad`. -/
def AvoidsIf (P : ι → Prop) (bad : ε) (x : Traced ι ε α) : Prop :=
  (∀ i ∈ x.notes, P i) → Avoids bad x.out

theorem avoidsIf_lift (h : Avoids bad y) : AvoidsIf P bad (lift y : Traced ι ε α) := fun _ => h

theorem avoidsIf_pure (a : α) : AvoidsIf P bad (pure a : Traced ι ε α) := avoidsIf_lift (avoids_ok a)

theorem AvoidsIf.bind (hx : AvoidsIf P bad x)
    (hf : ∀ a, x.out = .ok a → AvoidsIf P bad (f a)) : AvoidsIf P bad (x >>= f) := by
  intro hP
  cases h : x.out with
  | error e =>
    rw [bind_of_error h] at hP ⊢
    exact avoids_error fun he => hx hP (h.trans (congrArg _ he))
  | ok a =>
    rw [bind_of_ok h] at hP ⊢
    exact hf a h fun i hi => hP i (mem_append.2 (.inr hi))

theorem AvoidsIf.lift_bind {f : α → Traced ι ε β} (hy : Avoids bad y)
    (hf : ∀ a, y = .ok a → AvoidsIf P bad (f a)) : AvoidsIf P bad (lift y >>= f) :=
  (avoidsIf_lift hy).bind hf

theorem AvoidsIf.note_bind {f : Unit → Traced ι ε β} (h : P i → AvoidsIf P bad (f ())) :
    AvoidsIf P bad (note i >>= f) :=
  fun hP => h (hP i (mem_cons_self ..)) fun j hj => hP j (mem_cons_of_mem i hj)

/-! ## Runs that another run follows -/

section
variable {γ δ : Type} {y : Except ε γ} {R : γ → Prop} {z : Except ε α}

/-- Where the computation returns `a`, the run of `y` returns a value in `R` if all
    the notes satisfy `P`, and stops with the reason `bad` if not. -/
def Followed (P : ι → Prop) (bad : ε) (x : Traced ι ε α) (a : α) (y : Except ε γ)
    (R : γ → Prop) : Prop :=
  x.out = .ok a →
    ((∀ i ∈ x.notes, P i) → ∃ c, y = .ok c ∧ R c) ∧ ((∃ i ∈ x.notes, ¬ P i) → y = .error bad)

theorem followed_of_forall (hP : ∀ i ∈ x.notes, P i)
    (h : x.out = .ok a → ∃ c, y = .ok c ∧ R c) : Followed P bad x a y R := fun hx =>
  ⟨fun _ => h hx, fun ⟨i, hi, hn⟩ => absurd (hP i hi) hn⟩

theorem followed_lift (h : z = .ok a → ∃ c, y = .ok c ∧ R c) : Followed P bad (lift z) a y R :=
  followed_of_forall (by simp [lift]) h

theorem followed_pure {a' : α} (h : a' = a → ∃ c, y = .ok c ∧ R c) :
    Followed P bad (pure a') a y R :=
  followed_lift fun hz => h (Except.ok.inj hz)

theorem Followed.bind {g : γ → Except ε δ} {R : α → γ → Prop} {S : δ → Prop}
    (hx : ∀ a, x.out = .ok a → (f a).out = .ok b → Followed P bad x a y (R a))
    (hf : ∀ a c, x.out = .ok a → R a c → Followed P bad (f a) b (g c) S) :
    Followed P bad (x >>= f) b (y >>= g) S := by
  intro hb
  rw [out_bind, bind_eq_ok] at hb
  obtain ⟨a, ha, hb⟩ := hb
  obtain ⟨hg, hbd⟩ := hx a ha hb ha
  rw [bind_of_ok ha]
  simp only [mem_append]
  constructor
  · intro hP
    obtain ⟨c, rfl, hc⟩ := hg fun i hi => hP i (.inl hi)
    exact (hf a c ha hc hb).1 fun i hi => hP i (.inr hi)
  · rintro ⟨i, hi, hn⟩
    by_cases hP : ∀ i ∈ x.notes, P i
    · obtain ⟨c, rfl, hc⟩ := hg hP
      refine (hf a c ha hc hb).2 ⟨i, hi.resolve_left fun hi => hn (hP i hi), hn⟩
    · push Not at hP
      rw [hbd hP, error_bind]

theorem Followed.lift_bind (h : ∀ a, z = .ok a → Followed P bad (f a) b y R) :
    Followed P bad (lift z >>= f) b y R := by
  intro hb
  rw [out_bind, bind_eq_ok] at hb
  obtain ⟨a, ha, hb⟩ := hb
  rw [bind_of_ok ha]
  exact h a ha hb

variable {f : Unit → Traced ι ε β}

theorem Followed.note_of (hi : P i) (h : Followed P bad (f ()) b y R) :
    Followed P bad (note i >>= f) b y R := by
  intro hb
  obtain ⟨hg, hbd⟩ := h hb
  have hnt : (note i >>= f : Traced ι ε β).notes = i :: (f ()).notes := rfl
  rw [hnt]
  refine ⟨fun hP => hg fun j hj => hP j (mem_cons_of_mem _ hj), ?_⟩
  rintro ⟨j, hj, hn⟩
  obtain rfl | hj := mem_cons.1 hj
  · exact absurd hi hn
  · exact hbd ⟨j, hj, hn⟩

theorem Followed.note_bind {c : Prop} [Decidable c] {g : Unit → Except ε γ} (hc : P i ↔ c)
    (h : Followed P bad (f ()) b (g ()) R) :
    Followed P bad (note i >>= f) b (ensure c bad >>= g) R := by
  refine Followed.bind (R := fun _ _ => True) (fun u _ _ _ => ?_) fun u c _ _ => h
  simp only [note, mem_singleton, forall_eq, exists_eq_left, hc]
  exact ⟨fun hi => ⟨(), ensure_of hi, trivial⟩, fun hi => ensure_not hi⟩

end

end Traced
