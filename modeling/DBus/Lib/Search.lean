/-
  Binary search in a list.

  What is looked for is given by how it compares with an element.  The list has to be
  `Sifted` by it: where it is not behind an element, it is before all that follow.
-/
import Mathlib.Data.List.Basic
import Mathlib.Data.List.TakeDrop
import Mathlib.Order.Basic
import Mathlib.Tactic.Common

namespace Search

open List

variable {α : Type*} {compare : α → Ordering} {l : List α}

/-- Where a search ends: at an element, or at the place where it would have to be. -/
inductive Place where
  | found (k : ℕ)
  | missing (i : ℕ)
deriving DecidableEq, Repr

/-- The loop between `i` and `j`, with as many rounds as there are elements. -/
def searchLoop (compare : α → Ordering) (l : List α) : ℕ → ℕ → ℕ → Place
  | 0, i, _ => .missing i
  | n + 1, i, j =>
    if i < j then
      match l[(i + j) / 2]?.map compare with
      | some .eq => .found ((i + j) / 2)
      | some .lt => searchLoop compare l n i ((i + j) / 2)
      | some .gt => searchLoop compare l n ((i + j) / 2 + 1) j
      | none => .missing i
    else .missing i

/-- Search in a whole list. -/
def search (compare : α → Ordering) (l : List α) : Place :=
  searchLoop compare l l.length 0 l.length

/-- First the elements that what is looked for is behind of, last those that it is before. -/
def Sifted (compare : α → Ordering) (l : List α) : Prop :=
  l.Pairwise fun x y => compare x ≠ .gt → compare y = .lt

/-- What the place means. -/
def Place.Correct (compare : α → Ordering) (l : List α) : Place → Prop
  | found k => ∃ x, l[k]? = some x ∧ compare x = .eq
  | missing i => i ≤ l.length ∧ (∀ x ∈ l.take i, compare x = .gt) ∧ ∀ x ∈ l.drop i, compare x = .lt

section
variable (h : Sifted compare l)
include h

theorem Sifted.around {k : ℕ} {x : α} (hx : l[k]? = some x) :
    (compare x ≠ .lt → ∀ y ∈ l.take k, compare y = .gt) ∧
      (compare x ≠ .gt → ∀ y ∈ l.drop (k + 1), compare y = .lt) := by
  obtain ⟨hk, rfl⟩ := List.getElem?_eq_some_iff.1 hx
  rw [Sifted, ← take_append_drop k l, pairwise_append, drop_eq_getElem_cons hk, pairwise_cons] at h
  obtain ⟨-, ⟨haf, -⟩, hb⟩ := h
  refine ⟨fun hlt y hy => ?_, fun hgt y hy => haf y hy hgt⟩
  by_contra hy'
  exact hlt (hb y hy _ mem_cons_self hy')

theorem searchLoop_correct :
    ∀ n i j, j - i ≤ n → i ≤ j → j ≤ l.length → (∀ x ∈ l.take i, compare x = .gt) →
      (∀ x ∈ l.drop j, compare x = .lt) → (searchLoop compare l n i j).Correct compare l := by
  intro n
  induction n with
  | zero =>
    intro i j hn hij hj hb haf
    obtain rfl : i = j := by omega
    exact ⟨hj, hb, haf⟩
  | succ n ih =>
    intro i j hn hij hj hb haf
    rw [searchLoop]
    split
    · have hk : (i + j) / 2 < l.length := by omega
      have hx := getElem?_eq_getElem hk
      obtain ⟨htk, hdr⟩ := h.around hx
      rw [hx, Option.map_some]
      cases hc : compare l[(i + j) / 2] with
      | eq => exact ⟨_, hx, hc⟩
      | lt =>
        refine ih i _ (by omega) (by omega) (by omega) hb fun x hm => ?_
        rw [drop_eq_getElem_cons hk] at hm
        rcases mem_cons.1 hm with rfl | hm
        · exact hc
        · exact hdr (by rw [hc]; nofun) x hm
      | gt =>
        refine ih _ j (by omega) (by omega) hj (fun x hm => ?_) haf
        rw [take_succ_eq_append_getElem hk, mem_append, mem_singleton] at hm
        rcases hm with hm | rfl
        · exact htk (by rw [hc]; nofun) x hm
        · exact hc
    · obtain rfl : i = j := by omega
      exact ⟨hj, hb, haf⟩

/-- **Bisection finds the place** in a sifted list. -/
theorem search_correct : (search compare l).Correct compare l :=
  searchLoop_correct h _ 0 _ (by omega) (Nat.zero_le _) (Nat.le_refl _) (by simp) (by simp)

end

end Search
