/-
  Lists that are split at a separator.
-/
import Mathlib.Data.List.Basic

namespace Separated

open List

variable {α : Type} {sep c : α} {P Q R : List α → Prop} {xs : List α}

/-- `xs` consists of a first element in `P` and elements in `Q`, each behind a separator. -/
def Joined (sep : α) (P Q : List α → Prop) (xs : List α) : Prop :=
  ∃ (e : List α) (es : List (List α)), xs = e ++ es.flatMap (sep :: ·) ∧ P e ∧ ∀ x ∈ es, Q x

theorem joined_nil : Joined sep P Q [] ↔ P [] := by
  constructor
  · rintro ⟨e, es, hxs, hP, -⟩
    rwa [(append_eq_nil_iff.1 hxs.symm).1] at hP
  · intro h
    exact ⟨[], [], rfl, h, nofun⟩

theorem joined_cons : Joined sep P Q (c :: xs) ↔
    (c = sep ∧ P [] ∧ Joined sep Q Q xs) ∨ Joined sep (fun e => P (c :: e)) Q xs := by
  constructor
  · rintro ⟨_ | ⟨d, e⟩, es, hxs, hP, hQ⟩
    · cases es with
      | nil => cases hxs
      | cons x es =>
        obtain ⟨rfl, rfl⟩ := List.cons.inj hxs
        exact .inl ⟨rfl, hP, x, es, rfl, hQ x mem_cons_self,
          fun y hy => hQ y (mem_cons_of_mem _ hy)⟩
    · obtain ⟨rfl, rfl⟩ := List.cons.inj hxs
      exact .inr ⟨e, es, rfl, hP, hQ⟩
  · rintro (⟨rfl, hP, e, es, rfl, hQ, hal⟩ | ⟨e, es, rfl, hP, hQ⟩)
    · exact ⟨[], e :: es, rfl, hP, forall_mem_cons.2 ⟨hQ, hal⟩⟩
    · exact ⟨c :: e, es, rfl, hP, hQ⟩

theorem joined_congr (h : ∀ e, P e ↔ R e) : Joined sep P Q xs ↔ Joined sep R Q xs := by
  simp only [Joined, h]

theorem joined_and {R : Prop} : Joined sep (fun e => R ∧ P e) Q xs ↔ R ∧ Joined sep P Q xs := by
  constructor
  · rintro ⟨e, es, hxs, ⟨hR, hP⟩, hQ⟩
    exact ⟨hR, e, es, hxs, hP, hQ⟩
  · rintro ⟨hR, e, es, hxs, hP, hQ⟩
    exact ⟨e, es, hxs, ⟨hR, hP⟩, hQ⟩

end Separated
