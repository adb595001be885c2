/-
  Partial memories: which cell holds what, and where nothing may be read.

  `Holds m i xs` says that the cells from `i` on hold the list `xs`; `readN` reads a block of
  cells and succeeds exactly on the blocks the memory holds.
-/
import Mathlib.Tactic.Common
import Mathlib.Data.List.Basic

namespace Memory

open List Option

variable {α : Type*} {m : ℕ → Option α} {i j n : ℕ} {x : α} {xs ys : List α} {m' : ℕ → Option α}

/-- The cells from `i` on hold the list `xs`. -/
def Holds (m : ℕ → Option α) (i : ℕ) (xs : List α) : Prop :=
  ∀ k (h : k < xs.length), m (i + k) = some xs[k]

/-- The memory whose cells are the elements of a list, from address `0` on. -/
def ofList (xs : List α) (i : ℕ) : Option α := xs[i]?

/-- The `n` cells of the memory `m` from the address `i` on and the one behind
    them, as a memory of their own. -/
def window (m : ℕ → Option α) (i n k : ℕ) : Option α := if k ≤ n then m (i + k) else none

/-- The memory `m` where only the addresses in `[i, j)` may be read. -/
def restrict (m : ℕ → Option α) (i j k : ℕ) : Option α := if i ≤ k ∧ k < j then m k else none

/-- The memory `m` after the list `xs` was stored at the address `i`. -/
def store (m : ℕ → Option α) (i : ℕ) (xs : List α) (k : ℕ) : Option α :=
  if i ≤ k ∧ k < i + xs.length then xs[k - i]? else m k

/-- The `n` cells from `i` on. -/
def readN (m : ℕ → Option α) : ℕ → ℕ → Option (List α)
  | _, 0 => some []
  | i, n + 1 => do
    let x ← m i
    let xs ← readN m (i + 1) n
    return x :: xs

@[simp] theorem holds_nil : Holds m i [] := fun _ h => absurd h (Nat.not_lt_zero _)

@[simp] theorem holds_cons : Holds m i (x :: xs) ↔ m i = some x ∧ Holds m (i + 1) xs := by
  constructor
  · intro h
    refine ⟨h 0 (Nat.succ_pos _), fun k hk => ?_⟩
    have h' := h (k + 1) (by simpa using hk)
    rwa [getElem_cons_succ, show i + (k + 1) = i + 1 + k by omega] at h'
  · rintro ⟨h0, h⟩ k hk
    cases k with
    | zero => simpa using h0
    | succ k =>
      rw [getElem_cons_succ, show i + (k + 1) = i + 1 + k by omega]
      exact h k (by simpa using hk)

@[simp] theorem holds_append :
    Holds m i (xs ++ ys) ↔ Holds m i xs ∧ Holds m (i + xs.length) ys := by
  induction xs generalizing i with
  | nil => simp
  | cons x xs ih =>
    simp only [cons_append, holds_cons, ih, length_cons, and_assoc]
    rw [show i + (xs.length + 1) = i + 1 + xs.length by omega]

theorem Holds.unique (hx : Holds m i xs) (hy : Holds m i ys) (hl : xs.length = ys.length) :
    xs = ys :=
  ext_getElem hl fun k h1 h2 => some_inj.1 ((hx k h1).symm.trans (hy k h2))

theorem holds_ofList : Holds (ofList xs) 0 xs := fun k h => by
  simp [ofList, h]

theorem holds_ofList_append (zs : List α) : Holds (ofList (xs ++ (ys ++ zs))) xs.length ys := by
  have h : Holds (ofList (xs ++ (ys ++ zs))) 0 (xs ++ (ys ++ zs)) := holds_ofList
  rw [holds_append, holds_append, Nat.zero_add] at h
  exact h.2.1

theorem holds_ofList_right : Holds (ofList (xs ++ ys)) xs.length ys := by
  have h : Holds (ofList (xs ++ (ys ++ []))) xs.length ys := holds_ofList_append []
  rwa [append_nil] at h

theorem ofList_eq_none (h : xs.length ≤ i) : ofList xs i = none := getElem?_eq_none h

theorem ofList_of_lt (h : i < xs.length) : ofList xs i = some xs[i] := getElem?_eq_getElem h

theorem holds_window (h : xs.length ≤ n + 1) : Holds (window m i n) 0 xs ↔ Holds m i xs := by
  refine forall_congr' fun k => forall_congr' fun hk => ?_
  rw [window, Nat.zero_add, if_pos (by omega)]

theorem window_congr (h : ∀ k, k ≤ n → m (i + k) = m' (i + k)) : window m i n = window m' i n := by
  funext k
  unfold window
  split
  · next hk => exact h k hk
  · rfl

theorem readN_eq_some : readN m i n = some xs ↔ xs.length = n ∧ Holds m i xs := by
  induction n generalizing i xs with
  | zero =>
    constructor
    · intro h; cases h; exact ⟨rfl, holds_nil⟩
    · rintro ⟨h, -⟩; rw [length_eq_zero_iff.1 h]; rfl
  | succ n ih =>
    simp only [readN, Option.bind_eq_bind, Option.bind_eq_some_iff, Option.pure_def,
      Option.some.injEq, ih]
    constructor
    · rintro ⟨x, hx, xs', ⟨hl, hxs⟩, rfl⟩
      exact ⟨by simp [hl], holds_cons.2 ⟨hx, hxs⟩⟩
    · rintro ⟨hl, h⟩
      cases xs with
      | nil => simp at hl
      | cons x xs' => exact ⟨x, (holds_cons.1 h).1, xs', ⟨by simpa using hl, (holds_cons.1 h).2⟩, rfl⟩

theorem readN_isSome (h : ∀ k, k < n → (m (i + k)).isSome) : ∃ xs, readN m i n = some xs := by
  induction n generalizing i with
  | zero => exact ⟨[], rfl⟩
  | succ n ih =>
    obtain ⟨x, hx⟩ := isSome_iff_exists.1 (by simpa using h 0 (by omega))
    obtain ⟨xs, hxs⟩ : ∃ xs, readN m (i + 1) n = some xs := ih fun k hk => by
      rw [show i + 1 + k = i + (k + 1) by omega]; exact h (k + 1) (by omega)
    exact ⟨x :: xs, by simp [readN, hx, hxs]⟩

theorem readN_congr (h : ∀ k, k < n → m (i + k) = m' (i + k)) : readN m i n = readN m' i n := by
  induction n generalizing i with
  | zero => rfl
  | succ n ih =>
    have h0 : m i = m' i := by simpa using h 0 (by omega)
    simp only [readN, h0]
    rw [ih fun k hk => ?_]
    rw [show i + 1 + k = i + (k + 1) by omega]
    exact h (k + 1) (by omega)

/-! ## Storing -/

/-- What was stored is there. -/
theorem holds_store : Holds (store m i xs) i xs := fun k hk => by
  rw [store, if_pos ⟨Nat.le_add_right .., by omega⟩, Nat.add_sub_cancel_left,
    getElem?_eq_getElem hk]

theorem store_of_lt {k : ℕ} (h : k < i) : store m i xs k = m k := if_neg (by omega)

theorem store_of_ge {k : ℕ} (h : i + xs.length ≤ k) : store m i xs k = m k := if_neg (by omega)

theorem holds_store_of_le (h : i + xs.length ≤ j) : Holds (store m i xs) j ys ↔ Holds m j ys := by
  refine forall_congr' fun k => forall_congr' fun hk => ?_
  rw [store_of_ge (by omega)]

@[simp] theorem store_nil : store m i ([] : List α) = m := by
  funext k
  exact if_neg (by simp only [length_nil]; omega)

theorem store_append : store m i (xs ++ ys) = store (store m i xs) (i + xs.length) ys := by
  funext k
  by_cases h1 : k < i
  · rw [store_of_lt h1, store_of_lt (by omega), store_of_lt h1]
  · by_cases h2 : k < i + xs.length
    · rw [store_of_lt h2, store, store, if_pos (by rw [length_append]; omega),
        if_pos (by omega), getElem?_append_left (by omega)]
    · by_cases h3 : k < i + xs.length + ys.length
      · rw [store, store, if_pos (by rw [length_append]; omega), if_pos (by omega),
          getElem?_append_right (by omega), Nat.sub_sub]
      · rw [store_of_ge (by rw [length_append]; omega), store_of_ge (by omega),
          store_of_ge (by omega)]

theorem store_of_holds (h : Holds m i xs) : store m i xs = m := by
  funext k
  unfold store
  split
  · next hk =>
    have := h (k - i) (by omega)
    rw [Nat.add_sub_cancel' hk.1] at this
    rw [this, getElem?_eq_getElem]
  · rfl

theorem isSome_store (h : Holds m i ys) (hl : xs.length = ys.length) (k : ℕ) :
    (store m i xs k).isSome = (m k).isSome := by
  unfold store
  split
  · next hk =>
    have := h (k - i) (by omega)
    rw [Nat.add_sub_cancel' hk.1] at this
    rw [this, getElem?_eq_getElem (by omega)]
    rfl
  · rfl

end Memory
