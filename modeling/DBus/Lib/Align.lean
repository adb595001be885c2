/-
  Alignment of positions in a buffer.

  `alignUp n a` is the least multiple of `a` that is at least `n`, and
  `padding n a` the distance to it.
-/
import Mathlib.Tactic.Common
import Mathlib.Algebra.Order.Group.Nat

namespace Align

/-- The position `n` rounded up to the boundary `a`. -/
def alignUp (n a : ℕ) : ℕ := (n + (a - 1)) / a * a

/-- How far `n` is from the next boundary `a`. -/
def padding (n a : ℕ) : ℕ := alignUp n a - n

variable {n k a : ℕ}

theorem le_alignUp (h : 0 < a) : n ≤ alignUp n a := by
  have hd := Nat.div_add_mod (n + (a - 1)) a
  have hm := Nat.mod_lt (n + (a - 1)) h
  rw [Nat.mul_comm] at hd
  unfold alignUp; omega

theorem alignUp_lt (h : 0 < a) : alignUp n a < n + a := by
  have hd := Nat.div_mul_le_self (n + (a - 1)) a
  unfold alignUp; omega

theorem dvd_alignUp : a ∣ alignUp n a := Nat.dvd_mul_left _ _

theorem alignUp_of_dvd (h : a ∣ n) : alignUp n a = n := by
  obtain ⟨q, rfl⟩ := h
  rcases Nat.eq_zero_or_pos a with rfl | ha
  · simp [alignUp]
  · have hq : (a * q + (a - 1)) / a = q := by
      rw [Nat.mul_add_div ha, Nat.div_eq_of_lt (by omega), Nat.add_zero]
    rw [alignUp, hq, Nat.mul_comm]

theorem alignUp_le (ha : 0 < a) (hd : a ∣ k) (h : n ≤ k) : alignUp n a ≤ k := by
  by_contra hlt
  have hdv : a ∣ alignUp n a - k := Nat.dvd_sub dvd_alignUp hd
  have := Nat.le_of_dvd (by omega) hdv
  have := alignUp_lt (n := n) ha
  omega

@[simp] theorem alignUp_alignUp : alignUp (alignUp n a) a = alignUp n a :=
  alignUp_of_dvd dvd_alignUp

@[simp] theorem alignUp_one : alignUp n 1 = n := by simp [alignUp]

theorem alignUp_add {d : ℕ} (ha : 0 < a) (h : a ∣ d) : alignUp (n + d) a = alignUp n a + d := by
  refine Nat.le_antisymm (alignUp_le ha (Nat.dvd_add dvd_alignUp h) ?_) ?_
  · exact Nat.add_le_add_right (le_alignUp ha) d
  · have hle : n + d ≤ alignUp (n + d) a := le_alignUp ha
    have hd : a ∣ alignUp (n + d) a - d := Nat.dvd_sub dvd_alignUp h
    have := alignUp_le ha hd (show n ≤ alignUp (n + d) a - d by omega)
    omega

theorem add_padding (h : 0 < a) : n + padding n a = alignUp n a := by
  have := le_alignUp (n := n) h
  unfold padding; omega

theorem padding_of_dvd (h : a ∣ n) : padding n a = 0 := by
  rw [padding, alignUp_of_dvd h, Nat.sub_self]

end Align
