/-
  Value trees and their encoding.

  `encode o off v` is what the value `v` looks like at the position `off` of a block in byte
  order `o`, with the padding before it.  `Value.WF` collects what makes a tree a value of its
  type, and `Value.fits` that no array is longer than the protocol allows; the second depends
  on the position, since padding counts.
-/
import DBus.Types
import DBus.Text
import DBus.Signature.Validate

namespace DBus

open Align Endian List

/-- A value tree. -/
inductive Value where
  | fixed (f : FixedType) (n : ℕ)
  | str (s : StringType) (bs : List UInt8)
  | variant (v : Value)
  | array (elem : Ty) (vs : List Value)
  | struct (k : StructKind) (vs : List Value)

/-- What a string type asks of the bytes of a string. -/
def StringType.Contents : StringType → List UInt8 → Prop
  | .string, bs => Utf8Valid bs
  | .objectPath, bs => PathValid bs
  | .signature, bs => ValidSignature bs

theorem StringType.Contents.zero_notMem {s : StringType} {bs : List UInt8} (h : s.Contents bs) :
    0 ∉ bs := by
  cases s with
  | string => exact Utf8Valid.zero_notMem h
  | objectPath => exact PathValid.zero_notMem h
  | signature => exact ValidSignature.zero_notMem h

/-- The number that is stored for a value: booleans are normalised. -/
def FixedType.word : FixedType → ℕ → ℕ
  | .boolean, n => if n = 0 then 0 else 1
  | _, n => n

/-- A single type that may stand in a variant: its signature is accepted and its brackets nest. -/
structure Ty.Complete (t : Ty) : Prop where
  formed : t.formed true false = true
  valid : ValidSignature t.sig

namespace Value

mutual
def ty : Value → Ty
  | .fixed f _ => .basic (.fixed f)
  | .str s _ => .basic (.str s)
  | .variant _ => .variant
  | .array e _ => .array e
  | .struct k vs => .struct k (tyList vs)
def tyList : List Value → List Ty
  | [] => []
  | v :: vs => v.ty :: tyList vs
end

mutual
/-- A value of its type: numbers fit, strings have the contents their type asks
    for and fit with their NUL into a `DBusString`, the elements of an array have
    the element type, and the type of the value in a variant is complete. -/
def WF : Value → Prop
  | .fixed f n => n < 256 ^ f.size
  | .str s bs => s.Contents bs ∧ bs.length < stringMaxMaxLength
  | .variant v => v.ty.Complete ∧ v.WF
  | .array e vs => (∀ t ∈ tyList vs, t = e) ∧ WFList vs
  | .struct _ vs => WFList vs
def WFList : List Value → Prop
  | [] => True
  | v :: vs => v.WF ∧ WFList vs
end

mutual
/-- The value that is read back: booleans are normalised. -/
def normalise : Value → Value
  | .fixed f n => .fixed f (f.word n)
  | .str s bs => .str s bs
  | .variant v => .variant v.normalise
  | .array e vs => .array e (normaliseList vs)
  | .struct k vs => .struct k (normaliseList vs)
def normaliseList : List Value → List Value
  | [] => []
  | v :: vs => v.normalise :: normaliseList vs
end

/-! ## Encoding -/

/-- The padding from `n` to the boundary `a`. -/
def pad (n a : ℕ) : List UInt8 := .replicate (padding n a) 0

/-- A signature inside a block of values: its length, its text and a NUL. -/
def sigBytes (cs : List UInt8) : List UInt8 := UInt8.ofNat cs.length :: (cs ++ [0])

mutual
/-- The bytes of a value at the position `off`, which has its alignment. -/
def content (o : ByteOrder) (off : ℕ) : Value → List UInt8
  | .fixed f n => toBytes o f.size (f.word n)
  | .str .signature bs => sigBytes bs
  | .str _ bs => toBytes o 4 bs.length ++ (bs ++ [0])
  | .variant v =>
    let start := off + (sigBytes v.ty.sig).length
    sigBytes v.ty.sig ++ (pad start v.ty.alignment ++ v.content o (alignUp start v.ty.alignment))
  | .array e vs =>
    let elems := encodeList o (alignUp (off + 4) e.alignment) vs
    toBytes o 4 elems.length ++ (pad (off + 4) e.alignment ++ elems)
  | .struct _ vs => encodeList o off vs
/-- The bytes of a list of values at the position `off`. -/
def encodeList (o : ByteOrder) (off : ℕ) : List Value → List UInt8
  | [] => []
  | v :: vs =>
    let bs := pad off v.ty.alignment ++ v.content o (alignUp off v.ty.alignment)
    bs ++ encodeList o (off + bs.length) vs
end

/-- The bytes of a value at the position `off`, with the padding before them. -/
def encode (o : ByteOrder) (off : ℕ) (v : Value) : List UInt8 :=
  pad off v.ty.alignment ++ v.content o (alignUp off v.ty.alignment)

mutual
/-- Every array of a value at the aligned position `off` satisfies `P`, which is
    given its element type and the length of its elements in bytes. -/
def everyArray (P : Ty → ℕ → Prop) (o : ByteOrder) (off : ℕ) : Value → Prop
  | .fixed _ _ => True
  | .str _ _ => True
  | .variant v => v.everyArray P o (alignUp (off + (sigBytes v.ty.sig).length) v.ty.alignment)
  | .array e vs =>
    P e (encodeList o (alignUp (off + 4) e.alignment) vs).length ∧
      everyArrayList P o (alignUp (off + 4) e.alignment) vs
  | .struct _ vs => everyArrayList P o off vs
/-- Every array of a list of values at the position `off` satisfies `P`. -/
def everyArrayList (P : Ty → ℕ → Prop) (o : ByteOrder) (off : ℕ) : List Value → Prop
  | [] => True
  | v :: vs =>
    v.everyArray P o (alignUp off v.ty.alignment) ∧
      everyArrayList P o (off + (v.encode o off).length) vs
end

/-- No array of a value at the aligned position `off` is longer than the protocol allows. -/
def fits (o : ByteOrder) (off : ℕ) (v : Value) : Prop :=
  v.everyArray (fun _ len => len ≤ maximumArrayLength) o off

/-- No array of a list of values at the position `off` is too long. -/
def fitsList (o : ByteOrder) (off : ℕ) (vs : List Value) : Prop :=
  everyArrayList (fun _ len => len ≤ maximumArrayLength) o off vs

/-! ## Sizes and positions -/

variable {o : ByteOrder} {off : ℕ} {P : Ty → ℕ → Prop}

@[simp] theorem length_pad (n a : ℕ) : (pad n a).length = padding n a := by simp [pad]

theorem pad_of_dvd {n a : ℕ} (h : a ∣ n) : pad n a = [] := by simp [pad, padding_of_dvd h]

@[simp] theorem length_sigBytes (cs : List UInt8) : (sigBytes cs).length = cs.length + 2 := by
  simp [sigBytes]

@[simp] theorem tyList_nil : tyList [] = [] := rfl

@[simp] theorem tyList_cons (v : Value) (vs : List Value) :
    tyList (v :: vs) = v.ty :: tyList vs := rfl

@[simp] theorem length_tyList (vs : List Value) : (tyList vs).length = vs.length := by
  induction vs with
  | nil => rfl
  | cons v vs ih => rw [tyList_cons, length_cons, length_cons, ih]

@[simp] theorem encodeList_nil : encodeList o off [] = [] := rfl

@[simp] theorem encodeList_cons (v : Value) (vs : List Value) : encodeList o off (v :: vs) =
      v.encode o off ++ encodeList o (off + (v.encode o off).length) vs := rfl

theorem content_variant (v : Value) : (variant v).content o off =
      sigBytes v.ty.sig ++ v.encode o (off + (sigBytes v.ty.sig).length) := rfl

theorem add_length_encode (v : Value) : off + (v.encode o off).length =
      alignUp off v.ty.alignment + (v.content o (alignUp off v.ty.alignment)).length := by
  have := add_padding (n := off) v.ty.alignment_pos
  rw [encode, length_append, length_pad]
  omega

theorem encode_of_dvd {v : Value} (h : v.ty.alignment ∣ off) :
    v.encode o off = v.content o off := by
  rw [encode, pad_of_dvd h, alignUp_of_dvd h, nil_append]

theorem pad_encode (v : Value) :
    pad off v.ty.alignment ++ v.encode o (alignUp off v.ty.alignment) = v.encode o off := by
  rw [encode_of_dvd dvd_alignUp, encode]

theorem encodeList_append (vs ws : List Value) : encodeList o off (vs ++ ws) =
      encodeList o off vs ++ encodeList o (off + (encodeList o off vs).length) ws := by
  induction vs generalizing off with
  | nil => simp
  | cons v vs ih =>
    simp only [cons_append, encodeList_cons, ih, append_assoc, length_append, Nat.add_assoc]

mutual
theorem content_length_pos : ∀ (v : Value) (off : ℕ) {inArray : Bool},
    v.ty.formed true inArray = true → 0 < (v.content o off).length
  | .fixed f n, _, _, _ => by simp [content, f.size_pos]
  | .str s bs, _, _, _ => by cases s <;> simp [content]
  | .variant v, _, _, _ | .array e vs, _, _, _ => by simp [content]
  | .struct k vs, off, _, h => by
    obtain ⟨hne, hf⟩ := Ty.formed_fields h
    exact encodeList_length_pos vs off hne hf
theorem encodeList_length_pos : ∀ (vs : List Value) (off : ℕ), tyList vs ≠ [] →
    Ty.formedList true (tyList vs) = true → 0 < (encodeList o off vs).length
  | [], _, h, _ => absurd rfl h
  | v :: vs, off, _, h => by
    simp only [tyList_cons, Ty.formedList, Bool.and_eq_true] at h
    have := content_length_pos v (alignUp off v.ty.alignment) h.1
    rw [encodeList_cons, encode]
    simp only [length_append]
    omega
end

/-! ## The other byte order -/

mutual
theorem length_content_order (o' : ByteOrder) : ∀ (v : Value) (off : ℕ),
    (v.content o off).length = (v.content o' off).length
  | .fixed f n, _ => by simp only [content, length_toBytes]
  | .str s bs, _ => by
    cases s <;> simp only [content, length_append, length_toBytes]
  | .variant v, off => by
    simp only [content, length_append, length_content_order o' v]
  | .array e vs, off => by
    simp only [content, length_append, length_toBytes, length_encodeList_order o' vs]
  | .struct k vs, off => length_encodeList_order o' vs off
theorem length_encodeList_order (o' : ByteOrder) : ∀ (vs : List Value) (off : ℕ),
    (encodeList o off vs).length = (encodeList o' off vs).length
  | [], _ => rfl
  | v :: vs, off => by
    simp only [encodeList_cons, encode, length_append, length_content_order o' v,
      length_encodeList_order o' vs]
end

theorem length_encode_order (o' : ByteOrder) (v : Value) (off : ℕ) :
    (v.encode o off).length = (v.encode o' off).length := by
  simp only [encode, length_append, length_content_order o' v]

mutual

theorem everyArray_order (o' : ByteOrder) : ∀ (v : Value) (off : ℕ),
    v.everyArray P o off ↔ v.everyArray P o' off
  | .fixed _ _, _ => Iff.rfl
  | .str _ _, _ => Iff.rfl
  | .variant v, off => everyArray_order o' v _
  | .array e vs, off => by
    rw [everyArray, everyArray, length_encodeList_order o', everyArrayList_order o' vs]
  | .struct _ vs, off => everyArrayList_order o' vs off
theorem everyArrayList_order (o' : ByteOrder) : ∀ (vs : List Value) (off : ℕ),
    everyArrayList P o off vs ↔ everyArrayList P o' off vs
  | [], _ => Iff.rfl
  | v :: vs, off => by
    rw [everyArrayList, everyArrayList, everyArray_order o' v, length_encode_order o',
      everyArrayList_order o' vs]
end

theorem encode_length_pos (off : ℕ) (v : Value) {inArray : Bool} (h : v.ty.formed true inArray = true) :
    0 < (v.encode o off).length := by
  have := content_length_pos (o := o) v (alignUp off v.ty.alignment) h
  rw [encode, length_append]
  omega

end Value

end DBus
