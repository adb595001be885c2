/-
  Computations that may stop: a small program logic for `Except`.

  `Sat x Q E` says that `x` returns a value satisfying `Q` or stops with a reason satisfying
  `E`.  `ensure` is the run-time check that stops unless its condition holds, and `valueOr`
  reads an optional value or stops.  `Decides c e x a` says that `x` returns `a` if `c` holds
  and stops with the reason `e` if not.  `Together` relates the outcomes of two runs.
-/
import Mathlib.Tactic.Common

namespace Outcome

universe u v

variable {ε : Type u} {α β : Type v} {x : Except ε α} {f : α → Except ε β} {c : Prop} {e : ε}
  {a : α} {Q : α → Prop} {E : ε → Prop} {d : Prop} {y : Except ε α}

/-- Stop with the reason `e` unless `c` holds. -/
def ensure (c : Prop) [Decidable c] (e : ε) : Except ε Unit :=
  if c then .ok () else .error e

/-- The value of an option, or stop with the reason `e`. -/
def valueOr (e : ε) : Option α → Except ε α
  | some a => .ok a
  | none => .error e

/-! ## Successful runs -/

theorem bind_eq_ok {b : β} : (x >>= f) = .ok b ↔ ∃ a, x = .ok a ∧ f a = .ok b := by
  cases x <;> simp [bind, Except.bind]

@[simp] theorem ok_bind (a : α) (f : α → Except ε β) : ((.ok a : Except ε α) >>= f) = f a := rfl

@[simp] theorem error_bind (e : ε) (f : α → Except ε β) :
    ((.error e : Except ε α) >>= f) = .error e := rfl

@[simp] theorem pure_eq_ok (a : α) : (pure a : Except ε α) = .ok a := rfl

theorem ensure_eq_ok [Decidable c] {u : Unit} : ensure c e = .ok u ↔ c := by
  by_cases h : c <;> simp [ensure, h]

theorem ensure_of [Decidable c] (h : c) : ensure c e = .ok () :=
  if_pos h

theorem ensure_not [Decidable c] (h : ¬ c) : ensure c e = .error e :=
  if_neg h

theorem valueOr_eq_ok {o : Option α} : valueOr e o = .ok a ↔ o = some a := by
  cases o <;> simp [valueOr]

@[simp] theorem valueOr_some (e : ε) (a : α) : valueOr e (some a) = .ok a := rfl

@[simp] theorem valueOr_none (e : ε) : valueOr e (none : Option α) = .error e := rfl

/-! ## Both outcomes -/

/-- The run of `x` returns a value satisfying `Q`, or stops with a reason satisfying `E`. -/
def Sat (x : Except ε α) (Q : α → Prop) (E : ε → Prop) : Prop :=
  match x with
  | .ok a => Q a
  | .error e => E e

@[simp] theorem sat_ok : Sat (.ok a) Q E ↔ Q a := Iff.rfl

@[simp] theorem sat_error : Sat (.error e : Except ε α) Q E ↔ E e := Iff.rfl

theorem sat_bind {Q : β → Prop} : Sat (x >>= f) Q E ↔ Sat x (fun a => Sat (f a) Q E) E := by
  cases x <;> rfl

theorem Sat.mono {Q' : α → Prop} {E' : ε → Prop} (h : Sat x Q E) (hQ : ∀ a, Q a → Q' a)
    (hE : ∀ e, E e → E' e) : Sat x Q' E' := by
  cases x with
  | ok a => exact hQ a h
  | error e => exact hE e h

theorem Sat.bind {P : α → Prop} {Q : β → Prop} (h : Sat x P E) (hf : ∀ a, P a → Sat (f a) Q E) :
    Sat (x >>= f) Q E :=
  sat_bind.2 (h.mono hf fun _ he => he)

theorem sat_ensure [Decidable c] {Q : Unit → Prop} (ht : c → Q ()) (hf : ¬ c → E e) :
    Sat (ensure c e) Q E := by
  by_cases h : c
  · rw [ensure_of h]; exact ht h
  · rw [ensure_not h]; exact hf h

theorem Sat.cases (h : Sat x Q E) : (∃ a, x = .ok a ∧ Q a) ∨ ∃ e, x = .error e ∧ E e := by
  cases x with
  | ok a => exact .inl ⟨a, rfl, h⟩
  | error e => exact .inr ⟨e, rfl, h⟩

theorem Sat.of_ok_iff {P : α → Prop} (h : Sat x Q E) (hx : ∀ a, x = .ok a ↔ P a) :
    Sat x P fun e => E e ∧ ∀ a, ¬ P a := by
  cases x with
  | ok a => exact (hx a).1 rfl
  | error e => exact ⟨h, fun a ha => nomatch (hx a).2 ha⟩

theorem Sat.of_ok (h : Sat x Q E) (hx : x = .ok a) : Q a := by
  subst hx; exact h

theorem Sat.of_error (h : Sat x Q E) (hx : x = .error e) : E e := by
  subst hx; exact h

/-! ## A reason that does not occur -/

/-- The run of `x` does not stop with the reason `e`. -/
def Avoids (e : ε) (x : Except ε α) : Prop := x ≠ .error e

theorem avoids_ok (a : α) : Avoids e (.ok a : Except ε α) := by
  rintro ⟨⟩

theorem avoids_error_iff {e' : ε} : Avoids e (.error e' : Except ε α) ↔ e' ≠ e := by
  rw [Avoids, Ne, Except.error.injEq]

theorem avoids_error {e' : ε} (h : e' ≠ e) : Avoids e (.error e' : Except ε α) := avoids_error_iff.2 h

theorem avoids_of_eq_ok (h : x = .ok a) : Avoids e x := h ▸ avoids_ok a

theorem Avoids.bind (hx : Avoids e x) (hf : ∀ a, x = .ok a → Avoids e (f a)) :
    Avoids e (x >>= f) := by
  cases x with
  | ok a => exact hf a rfl
  | error e' => exact avoids_error (avoids_error_iff.1 hx)

theorem avoids_ensure [Decidable c] {e' : ε} (h : ¬ c → e' ≠ e) : Avoids e (ensure c e') := by
  by_cases hc : c
  · exact avoids_of_eq_ok (ensure_of hc)
  · rw [ensure_not hc]
    exact avoids_error (h hc)

theorem avoids_valueOr {e' : ε} (h : e' ≠ e) (v : Option α) : Avoids e (valueOr e' v) := by
  cases v with
  | none => exact avoids_error h
  | some a => exact avoids_ok a

/-! ## Exactly one reason to stop -/

/-- The run of `x` returns `a` if `c` holds, and stops with the reason `e` if not. -/
def Decides (c : Prop) (e : ε) (x : Except ε α) (a : α) : Prop :=
  (c → x = .ok a) ∧ (¬ c → x = .error e)

theorem decides_ok (h : c) : Decides c e (.ok a : Except ε α) a :=
  ⟨fun _ => rfl, fun hc => absurd h hc⟩

theorem decides_ensure [Decidable c] : Decides c e (ensure c e) () := ⟨ensure_of, ensure_not⟩

theorem Decides.congr (h : Decides c e x a) (hcd : c ↔ d) : Decides d e x a :=
  ⟨fun hd => h.1 (hcd.2 hd), fun hd => h.2 fun hc => hd (hcd.1 hc)⟩

theorem Decides.bind {b : β} (h : Decides c e x a) (hf : Decides d e (f a) b) :
    Decides (c ∧ d) e (x >>= f) b := by
  refine ⟨fun hcd => ?_, fun hcd => ?_⟩
  · rw [h.1 hcd.1, ok_bind, hf.1 hcd.2]
  · by_cases hc : c
    · rw [h.1 hc, ok_bind, hf.2 fun hd => hcd ⟨hc, hd⟩]
    · rw [h.2 hc, error_bind]

theorem Decides.of_ok (h : Decides c e x a) {b : α} (hx : x = .ok b) : c ∧ b = a := by
  by_cases hc : c
  · exact ⟨hc, Except.ok.inj (hx.symm.trans (h.1 hc))⟩
  · simp [h.2 hc] at hx

/-! ## Runs with the same outcome -/

/-- Both runs have one outcome: a value satisfying `Q`, or a stop with a reason satisfying `E`. -/
def Agree (x y : Except ε α) (Q : α → Prop) (E : ε → Prop) : Prop := y = x ∧ Sat x Q E

theorem Sat.agree (h : Sat x Q E) : Agree x x Q E := ⟨rfl, h⟩

theorem Agree.mono {E' : ε → Prop} (h : Agree x y Q E) (hE : ∀ e, E e → E' e) : Agree x y Q E' :=
  ⟨h.1, h.2.mono (fun _ hq => hq) hE⟩

theorem Agree.bind {g : α → Except ε β} {S : β → Prop} (h : Agree x y Q E)
    (hf : ∀ a, Q a → Agree (f a) (g a) S E) : Agree (x >>= f) (y >>= g) S E := by
  obtain ⟨rfl, hx⟩ := h
  cases y with
  | error e => exact ⟨rfl, hx⟩
  | ok a => exact hf a hx

theorem Agree.of_returned {S : α → Prop} (h : Agree x y Q E) (hS : ∀ a, x = .ok a → Q a → S a) :
    Agree x y S E := by
  obtain ⟨rfl, hx⟩ := h
  cases y with
  | error e => exact ⟨rfl, hx⟩
  | ok a => exact ⟨rfl, hS a rfl hx⟩

theorem agree_ensure [Decidable c] (he : E e) : Agree (ensure c e) (ensure c e) (fun _ => c) E :=
  ⟨rfl, sat_ensure (fun hc => hc) fun _ => he⟩

/-! ## Runs that return together -/

/-- Where the run of `x` returns, the run of `y` returns a related value. -/
def Leads {γ : Type v} (x : Except ε α) (y : Except ε γ) (R : α → γ → Prop) : Prop :=
  ∀ a, x = .ok a → ∃ c, y = .ok c ∧ R a c

section
variable {γ δ : Type v} {z : Except ε γ} {R : α → γ → Prop}

theorem leads_refl (x : Except ε α) : Leads x x Eq := fun a ha => ⟨a, ha, rfl⟩

theorem leads_error (e : ε) : Leads (.error e : Except ε α) z R := nofun

theorem Leads.bind {g : γ → Except ε δ} {S : β → δ → Prop}
    (h : Leads x z R) (hf : ∀ a c, R a c → Leads (f a) (g c) S) :
    Leads (x >>= f) (z >>= g) S := by
  intro b hb
  obtain ⟨a, ha, hb⟩ := bind_eq_ok.1 hb
  obtain ⟨c, rfl, hc⟩ := h a ha
  exact hf a c hc b hb

theorem Leads.ite [Decidable c] {x' : Except ε α} {z' : Except ε γ}
    (ht : Leads x z R) (hf : Leads x' z' R) :
    Leads (if c then x else x') (if c then z else z') R := by
  split
  · exact ht
  · exact hf

end

/-! ## Runs that end together -/

/-- Both runs return, related values, or both stop, with one reason, which satisfies `E`. -/
def Together {γ : Type v} (x : Except ε α) (y : Except ε γ) (R : α → γ → Prop) (E : ε → Prop) :
    Prop :=
  match x, y with
  | .ok a, .ok c => R a c
  | .error e, .error e' => e' = e ∧ E e
  | _, _ => False

section
variable {γ δ : Type v} {z : Except ε γ} {R : α → γ → Prop} {S : β → δ → Prop}

theorem Agree.together (h : Agree x y Q E) : Together x y (fun a b => b = a ∧ Q a) E := by
  obtain ⟨rfl, hx⟩ := h
  cases y with
  | ok a | error e => exact ⟨rfl, hx⟩

theorem Together.bind {g : γ → Except ε δ} (h : Together x z R E)
    (hf : ∀ a c, R a c → Together (f a) (g c) S E) : Together (x >>= f) (z >>= g) S E := by
  cases x with
  | ok a =>
    cases z with
    | ok c => exact hf a c h
    | error e => exact h.elim
  | error e =>
    cases z with
    | ok c => exact h.elim
    | error e' => exact h

theorem Agree.bind_together {g : α → Except ε δ} (h : Agree x y Q E)
    (hf : ∀ a, Q a → Together (f a) (g a) S E) : Together (x >>= f) (y >>= g) S E :=
  h.together.bind fun a _ hc => hc.1 ▸ hf a hc.2

variable {S : α → γ → Prop}

theorem Together.of_returned (h : Together x z R E) (hS : ∀ a c, x = .ok a → R a c → S a c) :
    Together x z S E := by
  cases x with
  | ok a =>
    cases z with
    | ok c => exact hS a c rfl h
    | error e => exact h
  | error e =>
    cases z with
    | ok c | error e' => exact h

theorem Together.mono (h : Together x z R E) (hR : ∀ a c, R a c → S a c) : Together x z S E :=
  h.of_returned fun a c _ => hR a c

theorem Together.agree (h : Together x y (fun a b => b = a ∧ Q a) E) :
    Agree x y Q E := by
  cases x with
  | ok a =>
    cases y with
    | ok b => exact ⟨congrArg _ h.1, h.2⟩
    | error e => exact h.elim
  | error e =>
    cases y with
    | ok b => exact h.elim
    | error e' => exact ⟨congrArg _ h.1, h.2⟩

end

end Outcome
