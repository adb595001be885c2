/-
  Streams that are cut into items.

  A `Scanner` looks at what has arrived of a stream: an item starts there, or more has to
  arrive before this can be told, or the stream is bad.  Feeding the stream in chunks and
  cutting after each of them gives the items of the whole stream (`feed_cut`).
-/
import Mathlib.Tactic.Common

namespace Framing

open List

/-- What is at the start of a stream: too little to tell, nothing that is an item, or an
    item and the length that it takes. -/
inductive Verdict (α : Type) where
  | wait
  | bad
  | item (a : α) (n : ℕ)

/-- A way to find the first item of a stream.  What it finds stays found. -/
structure Scanner (σ α : Type) where
  look : List σ → Verdict α
  item_le : ∀ {xs : List σ} {a : α} {n : ℕ}, look xs = .item a n → 0 < n ∧ n ≤ xs.length
  item_append : ∀ {xs : List σ} {a : α} {n : ℕ} (ys : List σ), look xs = .item a n →
    look (xs ++ ys) = .item a n
  bad_append : ∀ {xs : List σ} (ys : List σ), look xs = .bad → look (xs ++ ys) = .bad

/-- The items taken off a stream, whether what follows is bad, and what is left. -/
structure Cut (σ α : Type) where
  items : List α
  bad : Bool
  rest : List σ

variable {σ α : Type} {S : Scanner σ α} {xs ys : List σ} {a : α} {n : ℕ}

/-- Take items off a stream. -/
def Scanner.cut (S : Scanner σ α) (xs : List σ) : Cut σ α :=
  match h : S.look xs with
  | .wait => ⟨[], false, xs⟩
  | .bad => ⟨[], true, xs⟩
  | .item a n =>
    have := S.item_le h
    let c := S.cut (xs.drop n)
    ⟨a :: c.items, c.bad, c.rest⟩
termination_by xs.length
decreasing_by rw [length_drop]; omega

theorem cut_wait (h : S.look xs = .wait) : S.cut xs = ⟨[], false, xs⟩ := by
  rw [Scanner.cut]
  split <;> simp_all

theorem cut_bad (h : S.look xs = .bad) : S.cut xs = ⟨[], true, xs⟩ := by
  rw [Scanner.cut]
  split <;> simp_all

theorem cut_item (h : S.look xs = .item a n) :
    S.cut xs = ⟨a :: (S.cut (xs.drop n)).items, (S.cut (xs.drop n)).bad, (S.cut (xs.drop n)).rest⟩ := by
  rw [Scanner.cut]
  split <;> simp_all

theorem Scanner.induction (S : Scanner σ α) {P : List σ → Prop} (wait : ∀ xs, S.look xs = .wait → P xs)
    (bad : ∀ xs, S.look xs = .bad → P xs)
    (item : ∀ xs a n, S.look xs = .item a n → P (xs.drop n) → P xs) (xs : List σ) : P xs := by
  induction hk : xs.length using Nat.strongRecOn generalizing xs with
  | ind k ih =>
    cases h : S.look xs with
    | wait => exact wait xs h
    | bad => exact bad xs h
    | item a n =>
      have := S.item_le h
      exact item xs a n h (ih _ (by rw [length_drop]; omega) _ rfl)

/-! ## Chunks -/

/-- The next chunk arrives. -/
def Cut.feed (S : Scanner σ α) (c : Cut σ α) (ys : List σ) : Cut σ α :=
  if c.bad then { c with rest := c.rest ++ ys }
  else
    let d := S.cut (c.rest ++ ys)
    ⟨c.items ++ d.items, d.bad, d.rest⟩

/-- **Cutting is independent of how the stream arrives.** -/
theorem feed_cut (xs ys : List σ) : (S.cut xs).feed S ys = S.cut (xs ++ ys) := by
  induction xs using S.induction with
  | wait xs h => rw [cut_wait h]; rfl
  | bad xs h => rw [cut_bad h, cut_bad (S.bad_append ys h)]; rfl
  | item xs a n h ih =>
    have hdr : (xs ++ ys).drop n = xs.drop n ++ ys := drop_append_of_le_length (S.item_le h).2
    rw [cut_item h, cut_item (S.item_append ys h), hdr, ← ih]
    unfold Cut.feed
    split <;> rfl

/-- A bad stream stays bad. -/
theorem bad_cut_append (h : (S.cut xs).bad = true) (ys : List σ) : (S.cut (xs ++ ys)).bad = true := by
  rw [← feed_cut, Cut.feed, if_pos h]
  exact h

/-! ## What is cut off -/

/-- No symbol is lost or added. -/
theorem flatten_cut {bytes : α → List σ}
    (h : ∀ {xs : List σ} {a : α} {n : ℕ}, S.look xs = .item a n → bytes a = xs.take n) (xs : List σ) :
    ((S.cut xs).items.map bytes).flatten ++ (S.cut xs).rest = xs := by
  induction xs using S.induction with
  | wait xs hx => rw [cut_wait hx]; rfl
  | bad xs hx => rw [cut_bad hx]; rfl
  | item xs a n hx ih =>
    rw [cut_item hx, map_cons, flatten_cons, append_assoc, ih, h hx, take_append_drop]

/-- Items at the start are cut. -/
theorem items_prefix_cut (parts : List (α × List σ))
    (h : ∀ part ∈ parts, S.look part.2 = .item part.1 part.2.length) (rest : List σ) :
    parts.map Prod.fst <+: (S.cut ((parts.map Prod.snd).flatten ++ rest)).items := by
  induction parts with
  | nil => exact nil_prefix
  | cons part parts ih =>
    obtain ⟨a, xs⟩ := part
    rw [forall_mem_cons] at h
    have hl := S.item_append ((parts.map Prod.snd).flatten ++ rest) h.1
    rw [map_cons, map_cons, flatten_cons, append_assoc, cut_item hl, drop_left]
    exact cons_prefix_cons.2 ⟨rfl, ih h.2⟩

/-- A stream of items that has arrived up to somewhere. -/
theorem cut_arrived (h0 : S.look [] = .wait) (parts : List (α × List σ))
    (h : ∀ part ∈ parts, S.look part.2 = .item part.1 part.2.length)
    (hx : xs <+: (parts.map Prod.snd).flatten) :
    (S.cut xs).bad = false ∧ (S.cut xs).items <+: parts.map Prod.fst ∧
      (xs = (parts.map Prod.snd).flatten → (S.cut xs).items = parts.map Prod.fst) := by
  induction parts generalizing xs with
  | nil =>
    obtain rfl : xs = [] := prefix_nil.1 hx
    rw [cut_wait h0]
    exact ⟨rfl, nil_prefix, fun _ => rfl⟩
  | cons part parts ih =>
    obtain ⟨a, bs⟩ := part
    rw [forall_mem_cons] at h
    simp only [map_cons, flatten_cons] at hx ⊢
    rcases Nat.lt_or_ge xs.length bs.length with hlt | hle
    · -- what has arrived of the item is too little to tell, for it does not end there
      obtain ⟨ys, rfl⟩ := prefix_of_prefix_length_le hx (prefix_append bs _) (Nat.le_of_lt hlt)
      have hw : S.look xs = .wait := by
        cases hl : S.look xs with
        | wait => rfl
        | bad => cases h.1.symm.trans (S.bad_append ys hl)
        | item b n =>
          have hn := (S.item_le hl).2
          have heq := Verdict.item.inj (h.1.symm.trans (S.item_append ys hl))
          exact absurd (Nat.lt_of_le_of_lt hn hlt) (Nat.not_lt.2 (Nat.le_of_eq heq.2))
      rw [cut_wait hw]
      refine ⟨rfl, nil_prefix, fun heq => ?_⟩
      have := congrArg length heq
      rw [length_append] at this
      omega
    · obtain ⟨ys, rfl⟩ := prefix_of_prefix_length_le (prefix_append bs _) hx hle
      rw [prefix_append_right_inj] at hx
      obtain ⟨hb, hp, he⟩ := ih h.2 hx
      rw [cut_item (S.item_append ys h.1), drop_left, append_cancel_left_eq]
      exact ⟨hb, cons_prefix_cons.2 ⟨rfl, hp⟩, fun heq => congrArg _ (he heq)⟩

end Framing
