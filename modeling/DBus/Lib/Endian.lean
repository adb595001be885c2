/-
  Fixed-width words in either byte order.

  `toBytes o w n` is the encoding of `n` in `w` bytes and `fromBytes o` its
  inverse on the numbers that fit.  Reversing the bytes of a word turns one
  order into the other (`reverse_toBytes`).
-/
import Mathlib.Tactic.Common
import Mathlib.Algebra.Order.Group.Nat

namespace Endian

open List

/-- The two byte orders. -/
inductive ByteOrder where
  | little
  | big
deriving DecidableEq, Repr

/-- The other byte order. -/
def ByteOrder.other : ByteOrder → ByteOrder
  | .little => .big
  | .big => .little

theorem ByteOrder.other_other (o : ByteOrder) : o.other.other = o := by cases o <;> rfl

/-- The `w` low bytes of `n`, the least significant first. -/
def toBytesLE : ℕ → ℕ → List UInt8
  | 0, _ => []
  | w + 1, n => UInt8.ofNat n :: toBytesLE w (n / 256)

/-- The number whose bytes are given, the least significant first. -/
def fromBytesLE : List UInt8 → ℕ
  | [] => 0
  | b :: bs => b.toNat + 256 * fromBytesLE bs

/-- The encoding of `n` in `w` bytes. -/
def toBytes : ByteOrder → ℕ → ℕ → List UInt8
  | .little, w, n => toBytesLE w n
  | .big, w, n => (toBytesLE w n).reverse

/-- The number a block of bytes encodes. -/
def fromBytes : ByteOrder → List UInt8 → ℕ
  | .little, bs => fromBytesLE bs
  | .big, bs => fromBytesLE bs.reverse

@[simp] theorem length_toBytesLE (w n : ℕ) : (toBytesLE w n).length = w := by
  induction w generalizing n with
  | zero => rfl
  | succ w ih => simp [toBytesLE, ih]

@[simp] theorem length_toBytes (o : ByteOrder) (w n : ℕ) : (toBytes o w n).length = w := by
  cases o <;> simp [toBytes]

theorem fromBytesLE_lt (bs : List UInt8) : fromBytesLE bs < 256 ^ bs.length := by
  induction bs with
  | nil => simp [fromBytesLE]
  | cons b bs ih =>
    have hb := b.toNat_lt
    simp only [fromBytesLE, length_cons, Nat.pow_succ]
    omega

theorem fromBytes_lt (o : ByteOrder) (bs : List UInt8) : fromBytes o bs < 256 ^ bs.length := by
  cases o
  · exact fromBytesLE_lt bs
  · simpa [fromBytes] using fromBytesLE_lt bs.reverse

theorem fromBytesLE_toBytesLE {w n : ℕ} (h : n < 256 ^ w) : fromBytesLE (toBytesLE w n) = n := by
  induction w generalizing n with
  | zero => simp only [Nat.pow_zero] at h; simp only [toBytesLE, fromBytesLE]; omega
  | succ w ih =>
    have hd : n / 256 < 256 ^ w := by
      rw [Nat.div_lt_iff_lt_mul (by decide), ← Nat.pow_succ]; exact h
    simp only [toBytesLE, fromBytesLE, ih hd, UInt8.toNat_ofNat']
    omega

theorem toBytesLE_fromBytesLE (bs : List UInt8) : toBytesLE bs.length (fromBytesLE bs) = bs := by
  induction bs with
  | nil => rfl
  | cons b bs ih =>
    have hb := b.toNat_lt
    have hdiv : (b.toNat + 256 * fromBytesLE bs) / 256 = fromBytesLE bs := by omega
    have hmod : UInt8.ofNat (b.toNat + 256 * fromBytesLE bs) = b := by
      apply UInt8.toNat_inj.1
      rw [UInt8.toNat_ofNat']; omega
    simp only [fromBytesLE, length_cons, toBytesLE, hdiv, hmod, ih]

section
variable (o : ByteOrder)

/-- Numbers are read back. -/
theorem fromBytes_toBytes {w n : ℕ} (h : n < 256 ^ w) : fromBytes o (toBytes o w n) = n := by
  cases o
  · exact fromBytesLE_toBytesLE h
  · simpa [fromBytes, toBytes] using fromBytesLE_toBytesLE h

theorem toBytes_fromBytes {bs : List UInt8} {w : ℕ} (h : bs.length = w) :
    toBytes o w (fromBytes o bs) = bs := by
  subst h
  cases o
  · exact toBytesLE_fromBytesLE bs
  · have h := toBytesLE_fromBytesLE bs.reverse
    rw [length_reverse] at h
    simp only [toBytes, fromBytes, h, reverse_reverse]

theorem reverse_toBytes (w n : ℕ) : (toBytes o w n).reverse = toBytes o.other w n := by
  cases o <;> simp [toBytes, ByteOrder.other]

end

end Endian
