/-
  Computations that stay within a preorder on the states.

  `Leads M N R s x` says that `x`, run from `s`, ends in a state related to `s` by `R`,
  with a value or with an error of which `N` holds.  `Always M N R x` says so for every
  state.  If `R` is a preorder, a sequence leads where its parts lead, so that what a
  program does to a part of its state is shown function by function.
-/
import DBus.Lib.Eff
import Mathlib.Order.Defs.Unbundled

namespace Eff

variable {φ σ ε α β : Type} {M : Mode φ} {N N' : ε → Prop} {R R' : σ → σ → Prop} {x : Eff φ σ ε α}
  {s : σ}

section
variable (M : Mode φ) (N : ε → Prop) (R : σ → σ → Prop)

/-- From `s`, a computation ends in a state related to `s`. -/
def Leads (s : σ) (x : Eff φ σ ε α) : Prop :=
  Sat M x s (fun _ => R s) fun e s' => N e ∧ R s s'

/-- From every state, a computation ends in a state related to it. -/
def Always (x : Eff φ σ ε α) : Prop :=
  ∀ s, Leads M N R s x

end

theorem Leads.mono (h : Leads M N R s x) (hN : ∀ e, N e → N' e)
    (hR : ∀ s', R s s' → R' s s') : Leads M N' R' s x :=
  Sat.mono h (fun _ s' h => hR s' h) fun e s' h => ⟨hN e h.1, hR s' h.2⟩

theorem Always.mono (h : Always M N R x) (hN : ∀ e, N e → N' e)
    (hR : ∀ s s', R s s' → R' s s') : Always M N' R' x :=
  fun s => (h s).mono hN (hR s)

theorem Leads.modify {f : σ → σ} (h : R s (f s)) : Leads M N R s (Eff.modify f) := sat_modify.2 h

theorem Leads.get {f : σ → Eff φ σ ε β} (h : Leads M N R s (f s)) : Leads M N R s (Eff.get >>= f) :=
  .next (sat_get.2 h)

theorem Leads.ite {c : Prop} [Decidable c] {y : Eff φ σ ε α} (ht : c → Leads M N R s x)
    (hf : ¬ c → Leads M N R s y) : Leads M N R s (if c then x else y) :=
  Sat.ite ht hf

section
variable [IsPreorder σ R] {f : α → Eff φ σ ε β}

theorem Leads.pure {a : α} : Leads M N R s (Pure.pure a : Eff φ σ ε α) := sat_pure.2 (refl s)

theorem Leads.throw {e : ε} (h : N e) : Leads M N R s (Eff.throw e : Eff φ σ ε α) :=
  sat_throw.2 ⟨h, refl s⟩

theorem Leads.allocate {e : ε} (h : M.oom → N e) : Leads M N R s (Eff.allocate e) :=
  sat_allocate (refl s) fun ho => ⟨h ho, refl s⟩

theorem Leads.seq {Q : α → σ → Prop}
    (h : Sat M x s (fun a s' => R s s' ∧ Q a s') fun e s' => N e ∧ R s s')
    (hf : ∀ a s', R s s' → Q a s' → Leads M N R s' (f a)) : Leads M N R s (x >>= f) := by
  refine .bind h (fun a s' hQ => ?_) fun _ _ he => he
  refine .mono (hf a s' hQ.1 hQ.2) (fun _ _ h => trans_of R hQ.1 h) fun _ _ h => ?_
  exact ⟨h.1, trans_of R hQ.1 h.2⟩

theorem Leads.bind (h : Leads M N R s x) (hf : ∀ a s', R s s' → Leads M N R s' (f a)) :
    Leads M N R s (x >>= f) :=
  .seq (Q := fun _ _ => True) (.imp h fun _ _ h => ⟨h, trivial⟩) fun a s' h _ => hf a s' h

theorem Leads.attempt {f : Except ε α → Eff φ σ ε β} (h : Leads M N' R s x)
    (hok : ∀ a s', R s s' → Leads M N R s' (f (.ok a)))
    (her : ∀ e s', R s s' → N' e → Leads M N R s' (f (.error e))) :
    Leads M N R s (Eff.attempt x >>= f) := by
  have hx : Sat M (Eff.attempt x) s
      (fun r s' => R s s' ∧ ∀ e, r = .error e → N' e) fun e s' => N e ∧ R s s' := by
    refine .attempt (.mono h ?_ ?_)
    · intro a s' ha
      exact ⟨ha, nofun⟩
    · rintro e s' ⟨he, hs⟩
      refine ⟨hs, ?_⟩
      rintro _ ⟨⟩
      exact he
  refine .seq hx ?_
  rintro (e | a) s' hs he
  · exact her e s' hs (he e rfl)
  · exact hok a s' hs

/-- A clean-up may only do what the function may. -/
theorem Leads.onError {cleanup : Eff φ σ ε Unit} (h : Leads M N R s x)
    (hc : Always M N R cleanup) : Leads M N R s (x.onError cleanup) := by
  refine .attempt h (fun a s' _ => .pure) fun e s' _ he => ?_
  exact .bind (hc s') fun _ s'' _ => .throw he

/-- A loop does what its rounds do. -/
theorem Always.forEach {f : α → Eff φ σ ε Unit} {as : List α} (h : ∀ a ∈ as, Always M N R (f a)) :
    Always M N R (Eff.forEach f as) := by
  induction as with
  | nil => exact fun s => .pure
  | cons a as ih =>
    have htl := ih fun b hb => h b (List.mem_cons_of_mem a hb)
    exact fun s => .bind (h a List.mem_cons_self s) fun _ s' _ => htl s'

end

/-! ## One pattern of failures -/

/-- What holds of all runs holds of one that returns. -/
theorem Sat.run_ok {s' : σ} {Q : α → σ → Prop} {E : ε → σ → Prop} (h : Sat M x s Q E)
    (hM : M.oom) {fails rest : List Bool} {out : Except ε α}
    (hrn : x.run s fails = (.ok (out, s'), rest)) :
    (∃ a, out = .ok a ∧ Q a s') ∨ ∃ e, out = .error e ∧ E e s' := by
  have hen := h fails fun _ => hM
  rw [hrn] at hen
  cases out with
  | ok a => exact .inl ⟨a, rfl, hen⟩
  | error e => exact .inr ⟨e, rfl, hen⟩

end Eff
