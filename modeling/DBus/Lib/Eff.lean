/-
  Computations on a state that allocate, report errors and may be aborted.

  A computation is run from a state and from what becomes of the allocations to come
  (`true` for one that fails; those behind the end of the list succeed).  It returns a
  value or reports an error, in both cases with the state it leaves, or it is aborted
  by a fault, which leaves nothing.

  From each state there is a number of allocations such that, if none of these fails, it does
  what it does with nothing to fail (`metered`), so a run without failures is one run.
-/
import Mathlib.Data.List.Basic
import Mathlib.Tactic.Common

/-- A computation: `σ` is the state, `ε` the errors, `φ` the faults. -/
structure Eff (φ σ ε α : Type) where
  run : σ → List Bool → Except φ (Except ε α × σ) × List Bool
  metered : ∀ s, ∃ k, ∀ fails : List Bool, (∀ b ∈ fails.take k, b = false) →
    run s fails = ((run s []).1, fails.drop k)
  suffix : ∀ s fails, (run s fails).2 <:+ fails

namespace Eff

open List

variable {φ σ ε α β γ : Type}

/-- The outcome with nothing to fail. -/
def outcome (x : Eff φ σ ε α) (s : σ) : Except φ (Except ε α × σ) := (x.run s []).1

theorem run_nil (x : Eff φ σ ε α) (s : σ) : x.run s [] = (x.outcome s, []) := by
  obtain ⟨k, hk⟩ := x.metered s
  have h := hk [] (by simp)
  rw [drop_nil] at h
  exact h

/-- A computation that does not allocate. -/
def lift (f : σ → Except φ (Except ε α × σ)) : Eff φ σ ε α where
  run s fails := (f s, fails)
  metered _ := ⟨0, fun _ _ => rfl⟩
  suffix _ _ := suffix_rfl

/-- Allocate, or report the error `e`. -/
def allocate (e : ε) : Eff φ σ ε Unit where
  run s fails :=
    match fails with
    | [] => (.ok (.ok (), s), [])
    | false :: rest => (.ok (.ok (), s), rest)
    | true :: rest => (.ok (.error e, s), rest)
  metered s := by
    refine ⟨1, fun fails h => ?_⟩
    match fails, h with
    | [], _ => rfl
    | false :: rest, _ => rfl
    | true :: rest, h => exact absurd (h true (by simp)) (by simp)
  suffix s fails := by
    match fails with
    | [] => exact suffix_rfl
    | false :: rest => exact suffix_cons ..
    | true :: rest => exact suffix_cons ..

/-- What is run behind the first part of a sequence. -/
def continued (f : α → Eff φ σ ε β) :
    Except φ (Except ε α × σ) × List Bool → Except φ (Except ε β × σ) × List Bool
  | (.ok (.ok a, s), fails) => (f a).run s fails
  | (.ok (.error e, s), fails) => (.ok (.error e, s), fails)
  | (.error w, fails) => (.error w, fails)

instance : Monad (Eff φ σ ε) where
  pure a := lift fun s => .ok (.ok a, s)
  bind x f := {
    run := fun s fails => continued f (x.run s fails)
    metered := by
      intro s
      obtain ⟨k, hk⟩ := x.metered s
      rw [x.run_nil s]
      rcases hx : x.outcome s with w | ⟨e | a, s'⟩
      · exact ⟨k, fun fails h => by rw [hk fails h]; change continued f (x.outcome s, _) = _; rw [hx]; rfl⟩
      · exact ⟨k, fun fails h => by rw [hk fails h]; change continued f (x.outcome s, _) = _; rw [hx]; rfl⟩
      · obtain ⟨k', hk'⟩ := (f a).metered s'
        refine ⟨k + k', fun fails h => ?_⟩
        rw [take_add] at h
        rw [hk fails fun b hb => h b (mem_append_left _ hb)]
        change continued f (x.outcome s, _) = _
        rw [hx]
        change (f a).run s' _ = (((f a).run s' []).1, _)
        rw [hk' _ fun b hb => h b (mem_append_right _ hb), drop_drop]
    suffix := by
      intro s fails
      have h := x.suffix s fails
      obtain ⟨out, rest, hx⟩ : ∃ out rest, x.run s fails = (out, rest) := ⟨_, _, rfl⟩
      rw [hx] at h ⊢
      match out with
      | .error w => exact h
      | .ok (.error e, s') => exact h
      | .ok (.ok a, s') => exact ((f a).suffix s' rest).trans h }

/-- The value or the error of a computation, as a value. -/
def attempt (x : Eff φ σ ε α) : Eff φ σ ε (Except ε α) where
  run s fails := ((x.run s fails).1.map fun r => (.ok r.1, r.2), (x.run s fails).2)
  metered s := by
    obtain ⟨k, hk⟩ := x.metered s
    exact ⟨k, fun fails h => by rw [hk fails h]⟩
  suffix := x.suffix

/-- The state. -/
def get : Eff φ σ ε σ := lift fun s => .ok (.ok s, s)

/-- Change the state. -/
def modify (f : σ → σ) : Eff φ σ ε Unit := lift fun s => .ok (.ok (), f s)

/-- Report an error. -/
def throw (e : ε) : Eff φ σ ε α := lift fun s => .ok (.error e, s)

/-- Go on unless a run-time check fails. -/
def check (x : Except φ α) : Eff φ σ ε α := lift fun s => x.map fun a => (.ok a, s)

/-- Run `cleanup` if `x` reports an error, and report that error. -/
def onError (x : Eff φ σ ε α) (cleanup : Eff φ σ ε Unit) : Eff φ σ ε α :=
  attempt x >>= fun r =>
    match r with
    | .ok a => pure a
    | .error e => cleanup >>= fun _ => throw e

/-- One computation for each element of a list, in order. -/
def forEach (f : α → Eff φ σ ε Unit) : List α → Eff φ σ ε Unit
  | [] => pure ()
  | a :: as => f a >>= fun _ => forEach f as

/-! ## What a run ends with -/

/-- Whether allocations may fail, and the faults that are let pass. -/
structure Mode (φ : Type) where
  oom : Prop
  fault : φ → Prop

/-- What an outcome ends with. -/
def Ends (F : φ → Prop) (Q : α → σ → Prop) (E : ε → σ → Prop) : Except φ (Except ε α × σ) → Prop
  | .ok (.ok a, s) => Q a s
  | .ok (.error e, s) => E e s
  | .error w => F w

theorem Ends.mono {F : φ → Prop} {Q Q' : α → σ → Prop} {E E' : ε → σ → Prop}
    {out : Except φ (Except ε α × σ)} (h : Ends F Q E out) (hQ : ∀ a s, Q a s → Q' a s)
    (hE : ∀ e s, E e s → E' e s) : Ends F Q' E' out := by
  match out, h with
  | .ok (.ok a, s), h => exact hQ a s h
  | .ok (.error e, s), h => exact hE e s h
  | .error _, h => exact h

/-- The run of `x` from `s` ends with a value and a state of which `Q` holds, or with an error and a
    state of which `E` holds, whatever becomes of its allocations if `M` lets them fail. -/
def Sat (M : Mode φ) (x : Eff φ σ ε α) (s : σ) (Q : α → σ → Prop) (E : ε → σ → Prop) : Prop :=
  ∀ fails : List Bool, (true ∈ fails → M.oom) → Ends M.fault Q E (x.run s fails).1

section
variable {M : Mode φ} {x : Eff φ σ ε α} {s : σ} {Q Q' : α → σ → Prop} {E E' : ε → σ → Prop}
  {f : α → Eff φ σ ε β} {R : β → σ → Prop}

section
variable (h : Sat M x s Q E)
include h

theorem Sat.outcome : Ends M.fault Q E (x.outcome s) := h [] (by simp)

theorem Sat.mono (hQ : ∀ a s, Q a s → Q' a s) (hE : ∀ e s, E e s → E' e s) :
    Sat M x s Q' E' := fun fails hf => (h fails hf).mono hQ hE

theorem Sat.imp (hQ : ∀ a s, Q a s → Q' a s) : Sat M x s Q' E := h.mono hQ fun _ _ he => he

end

theorem sat_lift {f : σ → Except φ (Except ε α × σ)} :
    Sat M (lift f) s Q E ↔ Ends M.fault Q E (f s) :=
  ⟨fun h => h [] (by simp), fun h _ _ => h⟩

@[simp] theorem sat_pure {a : α} : Sat M (pure a : Eff φ σ ε α) s Q E ↔ Q a s := sat_lift

@[simp] theorem sat_throw {e : ε} : Sat M (throw e : Eff φ σ ε α) s Q E ↔ E e s := sat_lift

@[simp] theorem sat_get {Q : σ → σ → Prop} : Sat M (get : Eff φ σ ε σ) s Q E ↔ Q s s := sat_lift

@[simp] theorem sat_modify {f : σ → σ} {Q : Unit → σ → Prop} :
    Sat M (modify f : Eff φ σ ε Unit) s Q E ↔ Q () (f s) := sat_lift

theorem sat_check {y : Except φ α} {a : α} (hy : y = .ok a) (h : Q a s) :
    Sat M (check y : Eff φ σ ε α) s Q E := by
  subst hy
  exact sat_lift.2 h

theorem sat_allocate {e : ε} {Q : Unit → σ → Prop} (h : Q () s) (he : M.oom → E e s) :
    Sat M (allocate e : Eff φ σ ε Unit) s Q E := by
  intro fails hf
  match fails, hf with
  | [], _ => exact h
  | false :: _, _ => exact h
  | true :: _, hf => exact he (hf (by simp))

theorem Sat.bind (h : Sat M x s Q E) (hf : ∀ a s', Q a s' → Sat M (f a) s' R E')
    (he : ∀ e s', E e s' → E' e s') : Sat M (x >>= f) s R E' := by
  intro fails hfl
  have hx := h fails hfl
  have hl := x.suffix s fails
  change Ends M.fault R E' (continued f (x.run s fails)).1
  rcases hrn : x.run s fails with ⟨out, rest⟩
  rw [hrn] at hx hl
  match out, hx with
  | .error w, hx => exact hx
  | .ok (.error e, s'), hx => exact he e s' hx
  | .ok (.ok a, s'), hx => exact hf a s' hx rest fun ht => hfl (hl.subset ht)

theorem Sat.next (h : Sat M x s (fun a s' => Sat M (f a) s' R E) E) : Sat M (x >>= f) s R E :=
  h.bind (fun _ _ h => h) fun _ _ h => h

theorem Sat.attempt {Q : Except ε α → σ → Prop}
    (h : Sat M x s (fun a => Q (.ok a)) fun e => Q (.error e)) :
    Sat M (Eff.attempt x) s Q E := by
  intro fails hf
  have hx := h fails hf
  change Ends M.fault Q E ((x.run s fails).1.map _)
  match (x.run s fails).1, hx with
  | .error w, hx | .ok (.error e, s'), hx | .ok (.ok a, s'), hx => exact hx

theorem Sat.onError {cleanup : Eff φ σ ε Unit}
    (h : Sat M x s Q fun e s' => Sat M cleanup s' (fun _ => E e) E) :
    Sat M (x.onError cleanup) s Q E := by
  refine .bind (.attempt (Q := fun r s' => match r with
    | .ok a => Q a s'
    | .error e => Sat M cleanup s' (fun _ => E e) E) (E := E) h) ?_ fun _ _ he => he
  rintro (e | a) s' hr
  · exact hr.bind (fun _ _ he => sat_throw.2 he) fun _ _ he => he
  · exact sat_pure.2 hr

theorem Sat.ite {c : Prop} [Decidable c] {y : Eff φ σ ε α} (ht : c → Sat M x s Q E)
    (hf : ¬ c → Sat M y s Q E) : Sat M (if c then x else y) s Q E := by
  split
  · exact ht ‹_›
  · exact hf ‹_›

/-- The invariant rule of loops. -/
theorem sat_forEach {f : α → Eff φ σ ε Unit} (I : List α → σ → Prop)
    (h : ∀ a as s, I (a :: as) s → Sat M (f a) s (fun _ => I as) E) (as : List α) (s : σ)
    (hI : I as s) : Sat M (forEach f as) s (fun _ => I []) E := by
  induction as generalizing s with
  | nil => exact sat_pure.2 hI
  | cons a as ih => exact .next ((h a as s hI).imp fun _ s' hs => ih s' hs)

end

end Eff
