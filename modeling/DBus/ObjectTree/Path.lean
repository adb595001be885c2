/-
  Object paths and their elements (`_dbus_decompose_path`, `flatten_path` of
  `dbus-object-tree.c`).

  A valid path is the flattened form of its elements (`flatten_of_pathValid`), and taking it
  apart gives them back (`decomposePath_flatten`).
-/
import DBus.Text

namespace DBus

open Outcome List

abbrev ObjectPath := List (List UInt8)

/-- An element of a path: not empty, without slash. -/
structure IsElement (name : List UInt8) : Prop where
  nonempty : name ≠ []
  slash : '/'.toUInt8 ∉ name

def slashed (path : ObjectPath) : List UInt8 := path.flatMap ('/'.toUInt8 :: ·)

/-- `flatten_path` -/
def flattenPath (path : ObjectPath) : List UInt8 :=
  if path = [] then ['/'.toUInt8] else slashed path

/-- The loop of `_dbus_decompose_path` that takes `n` elements from `i` on: the elements, and
    where it stands then. -/
def decomposeLoop (data : List UInt8) : ℕ → ℕ → Res (ObjectPath × ℕ)
  | 0, i => .ok ([], i)
  | n + 1, i => do
    assert (i < data.length)
    let i := if data[i]? = some '/'.toUInt8 then i + 1 else i
    let name := (data.drop i).takeWhile (· ≠ '/'.toUInt8)
    let j := i + name.length
    assert (i < j)
    assert (data[i]? ≠ some '/'.toUInt8)
    assert (j = data.length ∨ data[j]? = some '/'.toUInt8)
    let (names, i) ← decomposeLoop data n j
    return (name :: names, i)

/-- `_dbus_decompose_path` -/
def decomposePath (data : List UInt8) : Res ObjectPath := do
  let components := if 1 < data.length then data.count '/'.toUInt8 else 0
  let (path, i) ← decomposeLoop data components (if components = 0 then 1 else 0)
  assert (i = data.length)
  return path

/-! ## Taking apart -/

section
variable {path : ObjectPath} {name : List UInt8}

theorem slashed_cons (name : List UInt8) (path : ObjectPath) :
    slashed (name :: path) = '/'.toUInt8 :: (name ++ slashed path) := by
  simp [slashed]

theorem count_slashed (h : ∀ name ∈ path, IsElement name) :
    (slashed path).count '/'.toUInt8 = path.length := by
  induction path with
  | nil => rfl
  | cons name path ih =>
    have hnm : name.count '/'.toUInt8 = 0 := count_eq_zero.2 (h name mem_cons_self).slash
    rw [slashed_cons, count_cons_self, count_append, hnm, Nat.zero_add,
      ih fun n hn => h n (mem_cons_of_mem _ hn), length_cons]

theorem takeWhile_element (h : IsElement name) (path : ObjectPath) :
    (name ++ slashed path).takeWhile (· ≠ '/'.toUInt8) = name := by
  have hnm : ∀ c ∈ name, decide (c ≠ '/'.toUInt8) = true := by
    intro c hc
    exact decide_eq_true fun he => h.slash (he ▸ hc)
  rw [takeWhile_append_of_pos hnm]
  cases path with
  | nil => exact append_nil _
  | cons next path =>
    rw [slashed_cons, takeWhile_cons]
    simp

section
variable (h : ∀ name ∈ path, IsElement name)
include h

theorem decomposeLoop_slashed (front : List UInt8) :
    decomposeLoop (front ++ slashed path) path.length front.length =
      .ok (path, (front ++ slashed path).length) := by
  induction path generalizing front with
  | nil => simp [decomposeLoop, slashed]
  | cons name path ih =>
    have hnm := h name mem_cons_self
    have hp : 0 < name.length := length_pos_iff.2 hnm.nonempty
    -- the rest, read from the next slash on
    have hrs := ih (fun n hn => h n (mem_cons_of_mem _ hn)) (front ++ '/'.toUInt8 :: name)
    have hsp : front ++ '/'.toUInt8 :: name ++ slashed path = front ++ slashed (name :: path) := by
      rw [slashed_cons, append_assoc, cons_append]
    rw [hsp] at hrs
    have hsl : (front ++ slashed (name :: path))[front.length]? = some '/'.toUInt8 := by
      rw [slashed_cons, getElem?_append_right (Nat.le_refl _), Nat.sub_self]
      rfl
    have hdr : (front ++ slashed (name :: path)).drop (front.length + 1) = name ++ slashed path := by
      rw [slashed_cons, ← drop_drop, drop_left]
      rfl
    have hlen : (front ++ '/'.toUInt8 :: name).length = front.length + 1 + name.length := by
      rw [length_append, length_cons]
      omega
    have hfr : (front ++ slashed (name :: path))[front.length + 1]? ≠ some '/'.toUInt8 := by
      rw [← head?_drop, hdr]
      obtain ⟨c, cs, rfl⟩ := exists_cons_of_ne_nil hnm.nonempty
      intro he
      exact hnm.slash (by rw [← Option.some.inj he]; exact mem_cons_self)
    have hend : front.length + 1 + name.length = (front ++ slashed (name :: path)).length ∨
        (front ++ slashed (name :: path))[front.length + 1 + name.length]? = some '/'.toUInt8 := by
      rw [← head?_drop, ← drop_drop, hdr, drop_left]
      cases path with
      | nil =>
        left
        rw [slashed_cons, length_append, length_cons]
        simp [slashed]
        omega
      | cons next path => exact .inr (by rw [slashed_cons]; rfl)
    rw [hlen] at hrs
    rw [length_cons, decomposeLoop, assert_of (by rw [← hsp, length_append, hlen]; omega)]
    simp only [ok_bind, hsl, if_true, hdr, takeWhile_element hnm]
    rw [assert_bind (by omega), assert_bind hfr, assert_bind hend, hrs]
    rfl

/-- A path is read back from its text. -/
theorem decomposePath_flatten : decomposePath (flattenPath path) = .ok path := by
  cases path with
  | nil => rfl
  | cons name path =>
    have hp : 0 < name.length := length_pos_iff.2 (h name mem_cons_self).nonempty
    have hl := decomposeLoop_slashed h []
    rw [nil_append] at hl
    have hln : 1 < (slashed (name :: path)).length := by
      rw [slashed_cons, length_cons, length_append]
      omega
    rw [decomposePath, flattenPath, if_neg (cons_ne_nil _ _), if_pos hln, count_slashed h,
      if_neg (by simp)]
    simp only [length_nil] at hl
    rw [hl, ok_bind]
    simp only
    simp [assert_of trivial]

end

end

/-! ## Valid paths -/

theorem PathElement.isElement {name : List UInt8} (h : PathElement name) : IsElement name where
  nonempty := h.1
  slash hs := absurd (h.2 _ hs) (by decide)

/-- A valid path is the text of one. -/
theorem flatten_of_pathValid {bs : List UInt8} (h : PathValid bs) :
    ∃ path : ObjectPath, (∀ name ∈ path, IsElement name) ∧ bs = flattenPath path := by
  rcases pathValid_iff.1 h with rfl | ⟨rest, rfl, name, path, rfl, hnm, hp⟩
  · exact ⟨[], by simp, rfl⟩
  · have hal : ∀ n ∈ name :: path, PathElement n := forall_mem_cons.2 ⟨hnm, hp⟩
    exact ⟨name :: path, fun n hn => (hal n hn).isElement, by simp [flattenPath, slashed]⟩

end DBus
