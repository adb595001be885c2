/-
  Lists of rules of which the last one that applies decides.

  Leaving out elements that a later one covers changes what decides only if the deciding one
  is left out (`Lost`), and then nothing decides any more, as long as elements that apply are
  covered by the same ones (`governing_pruned`).
-/
import Mathlib.Data.List.Basic
import Mathlib.Tactic.Common

namespace LastWins

open List

variable {α : Type} {a : α → Bool} {covers : α → α → Bool} {l : List α}

/-- The last element that applies. -/
def governing (a : α → Bool) : List α → Option α
  | [] => none
  | r :: rest => (governing a rest).or (if a r then some r else none)

/-- The list without the elements that a later one covers. -/
def pruned (covers : α → α → Bool) : List α → List α
  | [] => []
  | r :: rest => if rest.any (covers · r) then pruned covers rest else r :: pruned covers rest

/-- The last element that applies is covered by a later one. -/
def Lost (a : α → Bool) (covers : α → α → Bool) (l : List α) : Prop :=
  ∃ pre r post, l = pre ++ r :: post ∧ a r = true ∧ (∀ r' ∈ post, a r' = false) ∧
    ∃ r' ∈ post, covers r' r = true

theorem governing_eq_none : governing a l = none ↔ ∀ r ∈ l, a r = false := by
  induction l with
  | nil => simp [governing]
  | cons r rest ih =>
    rw [governing, Option.or_eq_none_iff, ih, forall_mem_cons, and_comm]
    simp

theorem pruned_subset : pruned covers l ⊆ l := by
  induction l with
  | nil => exact List.Subset.refl _
  | cons r rest ih =>
    rw [pruned]
    split
    · exact List.Subset.trans ih (subset_cons_self ..)
    · exact cons_subset_cons _ ih

/-- The later list goes first. -/
theorem governing_append (a : α → Bool) (l l' : List α) :
    governing a (l ++ l') = (governing a l').or (governing a l) := by
  induction l with
  | nil => simp [governing]
  | cons r rest ih => rw [cons_append, governing, ih, governing, Option.or_assoc]

theorem governing_eq_some {r : α} : governing a l = some r ↔
    ∃ pre post, l = pre ++ r :: post ∧ a r = true ∧ ∀ r' ∈ post, a r' = false := by
  constructor
  · intro h
    induction l with
    | nil => cases h
    | cons r' rest ih =>
      rw [governing] at h
      cases hrs : governing a rest with
      | some g =>
        rw [hrs, Option.some_or] at h
        cases h
        obtain ⟨pre, post, rfl, hr⟩ := ih hrs
        exact ⟨r' :: pre, post, rfl, hr⟩
      | none =>
        rw [hrs, Option.none_or] at h
        split at h
        · cases h
          exact ⟨[], rest, rfl, ‹_›, governing_eq_none.1 hrs⟩
        · cases h
  · rintro ⟨pre, post, rfl, hr, hp⟩
    rw [governing_append, governing, governing_eq_none.2 hp]
    simp [hr]

theorem lost_cons {r : α} {rest : List α} (hrs : governing a rest ≠ none) :
    Lost a covers (r :: rest) ↔ Lost a covers rest := by
  constructor
  · rintro ⟨pre, x, post, hl, hx, hp, hc⟩
    cases pre with
    | nil =>
      cases hl
      exact absurd (governing_eq_none.2 hp) hrs
    | cons y pre =>
      cases hl
      exact ⟨pre, x, post, rfl, hx, hp, hc⟩
  · rintro ⟨pre, x, post, rfl, hx, hp, hc⟩
    exact ⟨r :: pre, x, post, rfl, hx, hp, hc⟩

/-- **Pruning keeps what governs**, or nothing if that is lost. -/
theorem governing_pruned
    (hcv : ∀ x r r', a r = true → a r' = true → covers x r = covers x r') (l : List α) :
    (¬ Lost a covers l → governing a (pruned covers l) = governing a l) ∧
      (Lost a covers l → governing a (pruned covers l) = none) := by
  induction l with
  | nil =>
    refine ⟨fun _ => rfl, ?_⟩
    rintro ⟨pre, x, post, hl, -⟩
    cases pre <;> cases hl
  | cons r rest ih =>
    cases hrs : governing a rest with
    | some g =>
      have hne : governing a rest ≠ none := by simp [hrs]
      have hl : governing a (r :: rest) = some g := by rw [governing, hrs, Option.some_or]
      rw [lost_cons hne, hl, pruned]
      constructor
      · intro hnt
        have hg := ih.1 hnt
        rw [hrs] at hg
        split
        · exact hg
        · rw [governing, hg, Option.some_or]
      · intro hls
        have hg := ih.2 hls
        split
        · exact hg
        · rename_i hkp
          rw [governing, hg, Option.none_or, if_neg]
          -- an element that applies is covered by what covers the deciding one
          intro har
          obtain ⟨pre, x, post, rfl, hx, -, c, hc, hcx⟩ := hls
          refine hkp (any_eq_true.2 ⟨c, by simp [hc], ?_⟩)
          rw [hcv c r x har hx]
          exact hcx
    | none =>
      have hal := governing_eq_none.1 hrs
      have hpr : governing a (pruned covers rest) = none :=
        governing_eq_none.2 fun x hx => hal x (pruned_subset hx)
      by_cases har : a r = true
      · have hls : Lost a covers (r :: rest) ↔ rest.any (covers · r) = true := by
          rw [any_eq_true]
          constructor
          · rintro ⟨pre, x, post, hl, hx, -, hc⟩
            cases pre with
            | nil =>
              cases hl
              exact hc
            | cons y pre =>
              cases hl
              exact absurd (hal x (by simp)) (by simp [hx])
          · intro hc
            exact ⟨[], r, rest, rfl, har, hal, hc⟩
        rw [hls, pruned, governing, hrs]
        constructor
        · intro hnt
          rw [if_neg hnt, governing, hpr]
        · intro hc
          rw [if_pos hc, hpr]
      · have hnn : governing a (r :: rest) = none := by simp [governing, hrs, har]
        have hp : governing a (pruned covers (r :: rest)) = none :=
          governing_eq_none.2 fun x hx => governing_eq_none.1 hnn x (pruned_subset hx)
        exact ⟨fun _ => hp.trans hnn.symm, fun _ => hp⟩

end LastWins
