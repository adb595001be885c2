/-
  Computations that allocate.

  An `Allocator` lists, for the allocations to come, whether they fail (those it does not
  list succeed), and remembers whether one has failed.  `Follows` relates a computation to one
  that does not allocate: unless an allocation fails, the two have the same outcome.
  `Steady` is for computations that go on behind a failure.
-/
import DBus.Lib.Outcome

open Outcome

/-- Which of the next allocations fail, and whether one has failed. -/
structure Allocator where
  fails : List Bool
  failed : Bool
deriving DecidableEq, Repr

/-- The allocator of which no allocation fails. -/
def Allocator.plenty : Allocator := ⟨[], false⟩

/-- How many allocations succeed before the first that fails. -/
def Allocator.firstFailure (a : Allocator) : Option ℕ := a.fails.findIdx? id

/-- A computation that allocates. -/
def Alloc (ε α : Type) := Allocator → Except ε α × Allocator

namespace Alloc

open List

variable {ε α β : Type} {x : Alloc ε α} {b : α} {a a' : Allocator} {y : Except ε α} {f : α → Alloc ε β}
  {oom : ε} {x' : Alloc ε α} {F : Except ε α → Prop} {G : Except ε β → Prop} {e : ε} {c d : Prop}
  {Q Q' : α → Prop} {R : β → Prop} {p : Prop} {m : ℕ → Prop}

/-- A computation that does not allocate. -/
def lift (x : Except ε α) : Alloc ε α := fun a => (x, a)

/-- Allocate, or stop with the reason `e`. -/
def allocate (e : ε) : Alloc ε Unit := fun a =>
  match a.fails with
  | [] => (.ok (), a)
  | false :: fs => (.ok (), ⟨fs, a.failed⟩)
  | true :: fs => (.error e, ⟨fs, true⟩)

/-- Allocate and go on with `k`, or with `fail` if there is no memory. -/
def withMemory (fail k : Alloc ε α) : Alloc ε α := fun a =>
  match a.fails with
  | [] => k a
  | false :: fs => k ⟨fs, a.failed⟩
  | true :: fs => fail ⟨fs, true⟩

instance : Monad (Alloc ε) where
  pure x := lift (.ok x)
  bind x f := fun a =>
    match x a with
    | (.ok b, a') => f b a'
    | (.error e, a') => (.error e, a')

/-- The outcome of a computation, as a value. -/
def attempt (x : Alloc ε α) : Alloc ε (Except ε α) := fun a => (.ok (x a).1, (x a).2)

theorem bind_apply (x : Alloc ε α) (f : α → Alloc ε β) (a : Allocator) :
    (x >>= f) a = match x a with
      | (.ok b, a') => f b a'
      | (.error e, a') => (.error e, a') := rfl

theorem bind_of_ok (h : x a = (.ok b, a')) (f : α → Alloc ε β) :
    (x >>= f) a = f b a' := by
  rw [bind_apply, h]

theorem bind_of_error {e : ε} (h : x a = (.error e, a')) (f : α → Alloc ε β) :
    (x >>= f) a = (.error e, a') := by
  rw [bind_apply, h]

theorem bind_congr {y : Alloc ε α} (h : x a = y a) (f : α → Alloc ε β) :
    (x >>= f) a = (y >>= f) a := by
  rw [bind_apply, h, bind_apply]

theorem bind_assoc {γ : Type} (x : Alloc ε α) (f : α → Alloc ε β) (g : β → Alloc ε γ) :
    (x >>= f) >>= g = x >>= fun b => f b >>= g := by
  funext a
  rcases h : x a with ⟨out, a'⟩
  cases out with
  | ok b =>
    rw [bind_of_ok h fun b => f b >>= g]
    rcases h' : f b a' with ⟨out', a''⟩
    have hxf : (x >>= f) a = (out', a'') := (bind_of_ok h f).trans h'
    cases out' with
    | ok c => rw [bind_of_ok hxf, bind_of_ok h']
    | error e => rw [bind_of_error hxf, bind_of_error h']
  | error e => rw [bind_of_error h, bind_of_error (bind_of_error h f)]

theorem lift_bind (h : y = .ok b) (f : α → Alloc ε β) (a : Allocator) :
    (lift y >>= f) a = f b a := bind_of_ok (by rw [h]; rfl) f

theorem attempt_bind {r : Except ε α} (h : x a = (r, a'))
    (f : Except ε α → Alloc ε β) : (attempt x >>= f) a = f r a' :=
  bind_of_ok (by rw [attempt, h]) f

/-! ## Computations that follow one which does not allocate -/

/-- What a run may leave of an allocator. -/
structure Leaves (a a' : Allocator) : Prop where
  suffix : a'.fails <:+ a.fails
  failed : a'.failed = true → a.failed = true ∨ true ∈ a.fails

theorem leaves_refl (a : Allocator) : Leaves a a := ⟨suffix_rfl, .inl⟩

theorem Leaves.trans {a'' : Allocator} (h : Leaves a a') (h' : Leaves a' a'') : Leaves a a'' :=
  ⟨h'.suffix.trans h.suffix, fun hf =>
    (h'.failed hf).elim h.failed fun hm => .inr (h.suffix.subset hm)⟩

theorem leaves_bind (hx : ∀ a, Leaves a (x a).2) (hf : ∀ b a, Leaves a (f b a).2) (a : Allocator) :
    Leaves a ((x >>= f) a).2 := by
  have hl := hx a
  rcases hxa : x a with ⟨out, a'⟩
  rw [hxa] at hl
  cases out with
  | ok b => rw [bind_of_ok hxa]; exact hl.trans (hf b a')
  | error e => rw [bind_of_error hxa]; exact hl

theorem Leaves.plenty (h : Leaves .plenty a) : a = .plenty := by
  obtain ⟨fails, failed⟩ := a
  obtain ⟨hs, hf⟩ := h
  obtain rfl : fails = [] := suffix_nil.1 hs
  cases failed with
  | false => rfl
  | true => rcases hf rfl with h | h <;> cases h

/-- Unless an allocation fails, the outcome of `x` is `y`; if one fails, `x` stops with
    the reason `oom`. -/
structure Follows (oom : ε) (x : Alloc ε α) (y : Except ε α) : Prop where
  leaves : ∀ a, Leaves a (x a).2
  outcome : ∀ a, a.failed = false →
    ((x a).2.failed = false ∧ (x a).1 = y) ∨ ((x a).2.failed = true ∧ (x a).1 = .error oom)

theorem follows_lift : Follows oom (lift y) y :=
  ⟨fun a => leaves_refl a, fun _ ha => .inl ⟨ha, rfl⟩⟩

theorem follows_pure : Follows oom (pure b) (.ok b) := follows_lift

theorem follows_allocate (oom : ε) : Follows oom (allocate oom) (.ok ()) := by
  constructor
  · rintro ⟨fails, failed⟩
    rcases fails with _ | ⟨_ | _, fs⟩
    · exact leaves_refl _
    · exact ⟨suffix_cons .., .inl⟩
    · exact ⟨suffix_cons .., fun _ => .inr mem_cons_self⟩
  · rintro ⟨fails, failed⟩ rfl
    rcases fails with _ | ⟨_ | _, fs⟩
    · exact .inl ⟨rfl, rfl⟩
    · exact .inl ⟨rfl, rfl⟩
    · exact .inr ⟨rfl, rfl⟩

theorem Follows.bind {g : α → Except ε β} (hx : Follows oom x y)
    (hf : ∀ b, Follows oom (f b) (g b)) : Follows oom (x >>= f) (y >>= g) := by
  refine ⟨leaves_bind hx.leaves fun b => (hf b).leaves, fun a ha => ?_⟩
  rcases hxa : x a with ⟨out, a'⟩
  have ho := hx.outcome a ha
  rw [hxa] at ho
  rcases ho with ⟨hok, rfl⟩ | ⟨hfl, rfl⟩
  · cases out with
    | ok b => rw [bind_of_ok hxa]; exact (hf b).outcome a' hok
    | error e => rw [bind_of_error hxa]; exact .inl ⟨hok, rfl⟩
  · rw [bind_of_error hxa]
    exact .inr ⟨hfl, rfl⟩

theorem Follows.lift_bind {g : α → Except ε β} (hf : ∀ b, Follows oom (f b) (g b)) :
    Follows oom (lift y >>= f) (y >>= g) := follows_lift.bind hf

theorem Follows.ite [Decidable c] {y' : Except ε α} (ht : Follows oom x y)
    (hf : Follows oom x' y') : Follows oom (if c then x else x') (if c then y else y') := by
  split
  · exact ht
  · exact hf

theorem Follows.allocate_bind {f : Unit → Alloc ε α} (hf : Follows oom (f ()) y) :
    Follows oom (allocate oom >>= f) y := by
  have := (follows_allocate oom).bind fun u : Unit => (hf : Follows oom (f u) y)
  exact this

/-- With memory, both do the same. -/
theorem Follows.plenty (h : Follows oom x y) : x .plenty = (y, .plenty) := by
  have hl := (h.leaves .plenty).plenty
  rcases h.outcome .plenty rfl with ⟨-, ho⟩ | ⟨hf, -⟩
  · exact Prod.ext ho hl
  · rw [hl] at hf
    cases hf

theorem Follows.attempt_plenty (h : Follows oom x y) : attempt x .plenty = (.ok y, .plenty) := by
  rw [attempt, h.plenty]

/-! ## Computations that answer failures themselves -/

/-- Unless an allocation fails, the outcome is the one without failures; if one fails,
    the outcome satisfies `F`. -/
structure Steady (F : Except ε α → Prop) (x : Alloc ε α) : Prop where
  leaves : ∀ a, Leaves a (x a).2
  outcome : ∀ a, a.failed = false → ((x a).2.failed = false ∧ (x a).1 = (x .plenty).1) ∨
    ((x a).2.failed = true ∧ F (x a).1)

/-- What a computation makes of a failure that has just happened. -/
def Answers (F : Except ε α → Prop) (x : Alloc ε α) : Prop :=
  ∀ a, a.failed = true → (x a).2.failed = true ∧ F (x a).1

theorem answers_lift (h : F y) : Answers F (lift y) := fun _ ha => ⟨ha, h⟩

theorem steady_lift (F : Except ε α → Prop) (y : Except ε α) : Steady F (lift y) :=
  ⟨fun a => leaves_refl a, fun _ ha => .inl ⟨ha, rfl⟩⟩

theorem Steady.plenty (h : Steady F x) : x .plenty = ((x .plenty).1, .plenty) :=
  Prod.ext rfl (h.leaves .plenty).plenty

theorem Follows.steady (h : Follows oom x y) : Steady (· = .error oom) x := by
  refine ⟨h.leaves, fun a ha => ?_⟩
  rw [h.plenty]
  exact h.outcome a ha

theorem Steady.mono {G : Except ε α → Prop} (h : Steady F x) (hFG : ∀ out, F out → G out) :
    Steady G x :=
  ⟨h.leaves, fun a ha => (h.outcome a ha).imp id fun ⟨hf, hF⟩ => ⟨hf, hFG _ hF⟩⟩

/-- Where `f` answers the failures of `x` as it should, and is steady for what `x` returns,
    the sequence of them is steady. -/
theorem Steady.bind_returned (hx : Steady F x) (hl : ∀ b a, Leaves a (f b a).2)
    (hf : ∀ b, x .plenty = (.ok b, .plenty) → Steady G (f b))
    (her : ∀ e, F (.error e) → G (.error e)) (hok : ∀ b, F (.ok b) → Answers G (f b)) :
    Steady G (x >>= f) := by
  refine ⟨leaves_bind hx.leaves hl, fun a ha => ?_⟩
  rcases hxa : x a with ⟨out, a'⟩
  have ho := hx.outcome a ha
  rw [hxa] at ho
  have hp := hx.plenty
  rcases ho with ⟨hno, heq⟩ | ⟨hfl, hF⟩
  · rw [← heq] at hp
    cases out with
    | ok b => rw [bind_of_ok hxa, bind_of_ok hp]; exact (hf b hp).outcome a' hno
    | error e => rw [bind_of_error hxa, bind_of_error hp]; exact .inl ⟨hno, rfl⟩
  · cases out with
    | ok b => rw [bind_of_ok hxa]; exact .inr (hok b hF a' hfl)
    | error e => rw [bind_of_error hxa]; exact .inr ⟨hfl, her e hF⟩

theorem Steady.bind_of (hx : Steady F x) (hf : ∀ b, Steady G (f b))
    (her : ∀ e, F (.error e) → G (.error e)) (hok : ∀ b, F (.ok b) → Answers G (f b)) :
    Steady G (x >>= f) :=
  hx.bind_returned (fun b => (hf b).leaves) (fun b _ => hf b) her hok

theorem Steady.lift_bind (hf : ∀ b, Steady G (f b)) : Steady G (lift y >>= f) :=
  (steady_lift (fun _ => False) y).bind_of hf (fun _ h => h.elim) fun _ h => h.elim

theorem Steady.attempt (h : Steady F x) :
    Steady (fun out => ∃ r, F r ∧ out = .ok r) (attempt x) := by
  refine ⟨h.leaves, fun a ha => ?_⟩
  rcases h.outcome a ha with ⟨hno, heq⟩ | ⟨hfl, hF⟩
  · exact .inl ⟨hno, congrArg Except.ok heq⟩
  · exact .inr ⟨hfl, _, hF, rfl⟩

theorem Steady.attempt_bind {f : Except ε α → Alloc ε β} (hx : Steady (· = .error oom) x)
    (hf : ∀ r, Steady G (f r)) (ho : Answers G (f (.error oom))) :
    Steady G (Alloc.attempt x >>= f) := by
  refine hx.attempt.bind_of hf ?_ ?_
  · rintro e ⟨r, -, h⟩
    cases h
  · rintro r ⟨r', rfl, h⟩
    cases h
    exact ho

/-! ## With nothing to fail -/

@[simp] theorem withMemory_plenty (f k : Alloc ε α) : withMemory f k .plenty = k .plenty := rfl

/-- With nothing to fail, `x` returns a value of which `Q` holds if `c` does, and stops
    with the reason `e` if not. -/
structure Lands (e : ε) (c : Prop) (x : Alloc ε α) (Q : α → Prop) : Prop where
  returns : c → ∃ b, x .plenty = (.ok b, .plenty) ∧ Q b
  stops : ¬ c → x .plenty = (.error e, .plenty)

theorem lands_pure (h : Q b) : Lands e True (pure b : Alloc ε α) Q :=
  ⟨fun _ => ⟨b, rfl, h⟩, fun hc => absurd trivial hc⟩

theorem lands_lift (h : Decides c e y b) : Lands e c (lift y) (· = b) :=
  ⟨fun hc => ⟨b, by rw [h.1 hc]; rfl, rfl⟩, fun hc => by rw [h.2 hc]; rfl⟩

theorem lands_of (h : x .plenty = (.ok b, .plenty)) : Lands e True x (· = b) :=
  ⟨fun _ => ⟨b, h, rfl⟩, fun hc => absurd trivial hc⟩

theorem lands_lift_ok (h : y = .ok b) : Lands e True (lift y) (· = b) := lands_of (by rw [h]; rfl)

theorem Lands.withMemory {f : Alloc ε α} (h : Lands e c x Q) : Lands e c (withMemory f x) Q :=
  ⟨h.returns, h.stops⟩

section
variable (h : Lands e c x Q)
include h

theorem Lands.congr (hcd : c ↔ d) : Lands e d x Q :=
  ⟨fun hd => h.returns (hcd.2 hd), fun hd => h.stops fun hc => hd (hcd.1 hc)⟩

theorem Lands.mono (hQ : ∀ b, Q b → Q' b) : Lands e c x Q' := by
  refine ⟨fun hc => ?_, h.stops⟩
  obtain ⟨b, hb, hq⟩ := h.returns hc
  exact ⟨b, hb, hQ b hq⟩

theorem Lands.bind (hf : c → ∀ b, Q b → Lands e d (f b) R) : Lands e (c ∧ d) (x >>= f) R := by
  by_cases hc : c
  · obtain ⟨b, hb, hq⟩ := h.returns hc
    have hfb := hf hc b hq
    constructor
    · rintro ⟨-, hd⟩
      obtain ⟨r, hr, hR⟩ := hfb.returns hd
      exact ⟨r, by rw [bind_of_ok hb, hr], hR⟩
    · intro hcd
      rw [bind_of_ok hb, hfb.stops fun hd => hcd ⟨hc, hd⟩]
  · refine ⟨fun hcd => absurd hcd.1 hc, fun _ => ?_⟩
    rw [bind_of_error (h.stops hc)]

end

theorem Lands.bind_true (h : Lands e True x Q) (hf : ∀ b, Q b → Lands e d (f b) R) :
    Lands e d (x >>= f) R :=
  (h.bind fun _ => hf).congr (Iff.of_eq (true_and d))

theorem Lands.bind_eq (h : Lands e True x (· = b)) (hf : Lands e d (f b) R) :
    Lands e d (x >>= f) R :=
  h.bind_true fun _ hb => hb ▸ hf

theorem Lands.ite [Decidable p] (ht : p → Lands e c x Q) (hf : ¬ p → Lands e c x' Q) :
    Lands e c (if p then x else x') Q := by
  split
  · exact ht ‹_›
  · exact hf ‹_›

/-! ## Failures that are met again -/

/-- Forget the failures so far. -/
def forget : Alloc ε Unit := fun a => (.ok (), ⟨a.fails, false⟩)

/-- Unless an allocation fails the outcome is the one without failures, and a failure uses
    up an entry of the allocator. -/
structure Regular (x : Alloc ε α) : Prop where
  suffix : ∀ a, (x a).2.fails <:+ a.fails
  keeps : ∀ a, a.failed = true → (x a).2.failed = true
  outcome : ∀ a, a.failed = false → (x a).2.failed = false → (x a).1 = (x .plenty).1
  spends : ∀ a, a.failed = false → (x a).2.failed = true → (x a).2.fails.length < a.fails.length
  plenty : (x .plenty).2 = .plenty

theorem regular_lift : Regular (lift y) := by
  refine ⟨fun _ => suffix_rfl, fun _ h => h, fun _ _ _ => rfl, fun a h h' => ?_, rfl⟩
  have h' : a.failed = true := h'
  rw [h] at h'
  cases h'

theorem regular_pure : Regular (pure b : Alloc ε α) := regular_lift

theorem Regular.withMemory {f : Alloc ε α} (hf : Regular f) (hx : Regular x) :
    Regular (withMemory f x) := by
  refine ⟨?_, ?_, ?_, ?_, hx.plenty⟩
  · rintro ⟨fails, failed⟩
    rcases fails with _ | ⟨_ | _, fs⟩
    · exact hx.suffix _
    · exact (hx.suffix _).trans (suffix_cons ..)
    · exact (hf.suffix _).trans (suffix_cons ..)
  · rintro ⟨fails, failed⟩ h
    rcases fails with _ | ⟨_ | _, fs⟩
    · exact hx.keeps _ h
    · exact hx.keeps _ h
    · exact hf.keeps _ rfl
  · rintro ⟨fails, failed⟩ h h'
    rcases fails with _ | ⟨_ | _, fs⟩
    · exact hx.outcome _ h h'
    · exact hx.outcome _ h h'
    · rw [show (Alloc.withMemory f x ⟨true :: fs, failed⟩) = f ⟨fs, true⟩ from rfl,
        hf.keeps _ rfl] at h'
      cases h'
  · rintro ⟨fails, failed⟩ h h'
    rcases fails with _ | ⟨_ | _, fs⟩
    · exact hx.spends _ h h'
    · exact Nat.lt_succ_of_lt (hx.spends _ h h')
    · exact Nat.lt_succ_of_le (hf.suffix _).length_le

theorem Regular.bind (hx : Regular x) (hf : ∀ b, Regular (f b)) : Regular (x >>= f) := by
  have hcs : ∀ a, (∃ b, (x a).1 = .ok b ∧ (x >>= f) a = f b (x a).2) ∨
      ∃ e, (x a).1 = .error e ∧ (x >>= f) a = (.error e, (x a).2) := by
    intro a
    obtain ⟨out, a', h⟩ : ∃ out a', x a = (out, a') := ⟨_, _, rfl⟩
    cases out with
    | ok b => exact .inl ⟨b, by rw [h], by rw [bind_of_ok h, h]⟩
    | error e => exact .inr ⟨e, by rw [h], by rw [bind_of_error h, h]⟩
  refine ⟨fun a => ?_, fun a h => ?_, fun a h h' => ?_, fun a h h' => ?_, ?_⟩
  · rcases hcs a with ⟨b, -, hb⟩ | ⟨e, -, he⟩
    · rw [hb]
      exact ((hf b).suffix _).trans (hx.suffix a)
    · rw [he]
      exact hx.suffix a
  · rcases hcs a with ⟨b, -, hb⟩ | ⟨e, -, he⟩
    · rw [hb]
      exact (hf b).keeps _ (hx.keeps a h)
    · rw [he]
      exact hx.keeps a h
  · -- the first part has not failed, or the second would have
    have hfr : (x a).2.failed = false := by
      rcases hcs a with ⟨b, -, hb⟩ | ⟨e, -, he⟩
      · by_contra hne
        rw [hb, (hf b).keeps _ (by simpa using hne)] at h'
        cases h'
      · rw [he] at h'
        exact h'
    have hsm := hx.outcome a h hfr
    rcases hcs a with ⟨b, hok, hb⟩ | ⟨e, her, he⟩
    · have hp : x .plenty = (.ok b, .plenty) := Prod.ext (hsm.symm.trans hok) hx.plenty
      rw [hb] at h' ⊢
      rw [bind_of_ok hp]
      exact (hf b).outcome _ hfr h'
    · have hp : x .plenty = (.error e, .plenty) := Prod.ext (hsm.symm.trans her) hx.plenty
      rw [he, bind_of_error hp]
  · rcases hcs a with ⟨b, -, hb⟩ | ⟨e, -, he⟩
    · rw [hb] at h' ⊢
      cases hfr : (x a).2.failed with
      | false => exact Nat.lt_of_lt_of_le ((hf b).spends _ hfr h') (hx.suffix a).length_le
      | true => exact Nat.lt_of_le_of_lt ((hf b).suffix _).length_le (hx.spends a h hfr)
    · rw [he] at h' ⊢
      exact hx.spends a h h'
  · rcases hcs .plenty with ⟨b, -, hb⟩ | ⟨e, -, he⟩
    · rw [hb, hx.plenty]
      exact (hf b).plenty
    · rw [he]
      exact hx.plenty

theorem Regular.lift_bind (hf : ∀ b, Regular (f b)) : Regular (lift y >>= f) :=
  regular_lift.bind hf

theorem Regular.ite [Decidable p] (ht : Regular x) (hf : Regular x') :
    Regular (if p then x else x') := by
  split
  · exact ht
  · exact hf

/-- Whatever is returned, with failures or without, satisfies `Q`. -/
def Ensures (x : Alloc ε α) (Q : α → Prop) : Prop := ∀ a b a', x a = (.ok b, a') → Q b

theorem ensures_pure (h : Q b) : Ensures (pure b : Alloc ε α) Q := by
  intro a b' a' hb
  cases hb
  exact h

theorem ensures_any : Ensures x fun _ => True := fun _ _ _ _ => trivial

theorem Ensures.withMemory {f : Alloc ε α} (hf : Ensures f Q) (hx : Ensures x Q) :
    Ensures (withMemory f x) Q := by
  rintro ⟨fails, failed⟩ b a' hb
  rcases fails with _ | ⟨_ | _, fs⟩
  · exact hx _ _ _ hb
  · exact hx _ _ _ hb
  · exact hf _ _ _ hb

theorem Ensures.bind (hx : Ensures x Q) (hf : ∀ b, Q b → Ensures (f b) R) :
    Ensures (x >>= f) R := by
  intro a r a' hr
  rcases h : x a with ⟨out, a1⟩
  cases out with
  | ok b =>
    rw [bind_of_ok h] at hr
    exact hf b (hx a b a1 h) a1 r a' hr
  | error e => simp [bind_of_error h] at hr

/-! ## Failures that are noticed -/

/-- Whenever an allocation fails, `x` returns a value of which `Q` holds. -/
def Heeds (x : Alloc ε α) (Q : α → Prop) : Prop :=
  ∀ a, a.failed = false → (x a).2.failed = true → ∃ b, (x a).1 = .ok b ∧ Q b

/-- If the first allocation that fails is one of those that may, `x` returns a value of
    which `Q` holds. -/
def Survives (mayFail : ℕ → Prop) (x : Alloc ε α) (Q : α → Prop) : Prop :=
  ∀ a n, a.failed = false → a.firstFailure = some n → mayFail n → (x a).2.failed = true →
    ∃ b, (x a).1 = .ok b ∧ Q b

/-- All allocations may fail. -/
def Always (_ : ℕ) : Prop := True

/-- No allocation may fail. -/
def Never (_ : ℕ) : Prop := False

/-- The next allocation may fail, and behind it those of `m`. -/
def Next (m : ℕ → Prop) : ℕ → Prop
  | 0 => True
  | n + 1 => m n

/-- The next allocation may not fail; behind it those of `m` may. -/
def Skip (m : ℕ → Prop) : ℕ → Prop
  | 0 => False
  | n + 1 => m n

theorem heeds_lift : Heeds (lift y) Q := by
  intro a ha hf
  have hf : a.failed = true := hf
  simp [ha] at hf

theorem heeds_pure : Heeds (pure b : Alloc ε α) Q := heeds_lift

theorem Heeds.withMemory (hb : Q b) (hx : Heeds x Q) : Heeds (withMemory (pure b) x) Q := by
  rintro ⟨fails, failed⟩ ha hf
  rcases fails with _ | ⟨_ | _, fs⟩
  · exact hx _ ha hf
  · exact hx _ ha hf
  · exact ⟨b, rfl, hb⟩

theorem Heeds.ite [Decidable p] (ht : p → Heeds x Q) (hf : ¬ p → Heeds x' Q) :
    Heeds (if p then x else x') Q := by
  split
  · exact ht ‹_›
  · exact hf ‹_›

theorem Heeds.mono (h : Heeds x Q) (hQ : ∀ b, Q b → Q' b) : Heeds x Q' := by
  intro a ha hf
  obtain ⟨b, hb, hq⟩ := h a ha hf
  exact ⟨b, hb, hQ b hq⟩

theorem Heeds.lift_bind (hf : ∀ b, y = .ok b → Heeds (f b) R) : Heeds (lift y >>= f) R := by
  cases y with
  | ok b => exact hf b rfl
  | error e => exact heeds_lift (y := .error e)

/-- Unless an allocation of `x` fails, `f` goes on with what `x` returns without failures. -/
theorem Heeds.bind (hx : Heeds x Q) (hrg : Regular x)
    (hf : ∀ b, x .plenty = (.ok b, .plenty) → Heeds (f b) R)
    (hq : ∀ b, Q b → ∃ r, f b = pure r ∧ R r) : Heeds (x >>= f) R := by
  intro a ha hfl
  rcases h : x a with ⟨out, a'⟩
  have ho := hx a ha
  have hsm := hrg.outcome a ha
  rw [h] at ho hsm
  cases hno : a'.failed with
  | true =>
    obtain ⟨b, rfl, hb⟩ := ho hno
    obtain ⟨r, hr, hR⟩ := hq b hb
    rw [bind_of_ok h, hr]
    exact ⟨r, rfl, hR⟩
  | false =>
    cases out with
    | ok b =>
      rw [bind_of_ok h] at hfl ⊢
      exact hf b (Prod.ext (hsm hno).symm hrg.plenty) a' hno hfl
    | error e =>
      rw [bind_of_error h] at hfl
      simp [hno] at hfl

/-- What heeds all failures survives any. -/
theorem Heeds.survives (h : Heeds x Q) : Survives m x Q := fun a _ ha _ _ hf => h a ha hf

theorem survives_never : Survives Never x Q := fun _ _ _ _ h => h.elim

theorem Survives.withMemory (hb : Q b) (hx : Survives m x Q) :
    Survives (Next m) (withMemory (pure b) x) Q := by
  rintro ⟨fails, failed⟩ n ha hn hm hf
  match fails, n with
  | [], _ => cases hn
  | true :: fs, _ => exact ⟨b, rfl, hb⟩
  | false :: fs, 0 => simp [Allocator.firstFailure, findIdx?_cons] at hn
  | false :: fs, n + 1 =>
    have hn : (⟨fs, failed⟩ : Allocator).firstFailure = some n := by
      simpa [Allocator.firstFailure, findIdx?_cons] using hn
    exact hx _ n ha hn hm hf

theorem Survives.skip {f : Alloc ε α} (hx : Survives m x Q) : Survives (Skip m) (Alloc.withMemory f x) Q := by
  rintro ⟨fails, failed⟩ n ha hn hm hf
  match fails, n with
  | [], _ => cases hn
  | true :: fs, 0 => exact hm.elim
  | true :: fs, n + 1 => simp [Allocator.firstFailure, findIdx?_cons] at hn
  | false :: fs, 0 => exact hm.elim
  | false :: fs, n + 1 =>
    have hn : (⟨fs, failed⟩ : Allocator).firstFailure = some n := by
      simpa [Allocator.firstFailure, findIdx?_cons] using hn
    exact hx _ n ha hn hm hf

theorem Survives.lift_bind (hf : ∀ b, y = .ok b → Survives m (f b) R) :
    Survives m (lift y >>= f) R := by
  intro a n ha hn hm hfl
  cases y with
  | ok b => exact hf b rfl a n ha hn hm hfl
  | error e =>
    have hfl : a.failed = true := hfl
    simp [ha] at hfl

/-- What comes behind `x` does not allocate, and hands on what `x` returns where an
    allocation fails. -/
theorem Survives.bind_pure {f : α → β} (hx : Survives m x Q) (hq : ∀ b, Q b → R (f b)) :
    Survives m (x >>= fun b => pure (f b)) R := by
  intro a n ha hn hm hfl
  rcases h : x a with ⟨out, a'⟩
  have ho := hx a n ha hn hm
  rw [h] at ho
  cases out with
  | ok b =>
    rw [bind_of_ok h] at hfl ⊢
    obtain ⟨b', hb', hQ⟩ := ho hfl
    cases hb'
    exact ⟨f b, rfl, hq b hQ⟩
  | error e =>
    rw [bind_of_error h] at hfl
    obtain ⟨b', hb', -⟩ := ho hfl
    cases hb'

theorem Survives.ite [Decidable p] (ht : p → Survives m x Q) (hf : ¬ p → Survives m x' Q) :
    Survives m (if p then x else x') Q := by
  split
  · exact ht ‹_›
  · exact hf ‹_›

theorem Survives.mono (h : Survives m x Q) (hQ : ∀ b, Q b → Q' b) : Survives m x Q' := by
  intro a n ha hn hm hf
  obtain ⟨b, hb, hq⟩ := h a n ha hn hm hf
  exact ⟨b, hb, hQ b hq⟩

theorem withMemory_bind (f x : Alloc ε α) (g : α → Alloc ε β) :
    withMemory f x >>= g = withMemory (f >>= g) (x >>= g) := by
  funext a
  obtain ⟨fails, failed⟩ := a
  rcases fails with _ | ⟨_ | _, fs⟩
  · rfl
  · rfl
  · rfl

end Alloc
