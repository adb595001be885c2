/-
  Swapping the byte order of a body (`dbus-marshal-byteswap.c`, and
  `_dbus_swap_array` of `dbus-marshal-basic.c`).

  `byteswap_body_helper` walks as the body validator does and reverses the bytes of each
  number where they are, so the memory is part of its state.
-/
import DBus.Body.Defs

namespace DBus

open Outcome Memory Align Endian

/-- `DBUS_UINT16_SWAP_LE_BE` and its kin, in place: reverse the `width` bytes at `p`. -/
def swapBytes (m : ℕ → Option UInt8) (p width : ℕ) : Res (ℕ → Option UInt8) := do
  let bs ← valueOr .outside (readN m p width)
  return store m p bs.reverse

/-- The loops of `_dbus_swap_array` over `n` elements. -/
def swapElements (width : ℕ) : ℕ → ℕ → (ℕ → Option UInt8) → Res (ℕ → Option UInt8)
  | 0, _, m => return m
  | n + 1, p, m => do
    let m ← swapBytes m p width
    swapElements width n (p + width) m

/-- `_dbus_swap_array` -/
def swapArray (m : ℕ → Option UInt8) (p nElements alignment : ℕ) : Res (ℕ → Option UInt8) := do
  assert (alignUp p alignment = p)
  if alignment = 8 then swapElements 8 nElements p m
  else if alignment = 4 then swapElements 4 nElements p m
  else do
    assert (alignment = 2)
    swapElements 2 nElements p m

section
variable (old : ByteOrder)

/-- The length word of an array or a string is read before it is swapped: the
    length, and the position behind it. -/
def swapLength (p : ℕ) (m : ℕ → Option UInt8) : Res (ℕ × ℕ × (ℕ → Option UInt8)) := do
  let p := alignUp p 4
  let arrayLen ← unpackUint32 old m p
  let m ← swapBytes m p 4
  return (arrayLen, p + 4, m)

/-- The loop over the elements of an array, which `elem` swaps. -/
def swapLoop (elem : ℕ → (ℕ → Option UInt8) → Res (ℕ × (ℕ → Option UInt8))) (arrayEnd : ℕ) :
    ℕ → ℕ → (ℕ → Option UInt8) → Res (ℕ × (ℕ → Option UInt8))
  | 0, _, _ => .error .fuel
  | n + 1, p, m =>
    if p < arrayEnd then do
      let (p, m) ← elem p m
      swapLoop elem arrayEnd n p m
    else return (p, m)

def swapBlock (p arrayLen alignment : ℕ) (m : ℕ → Option UInt8) : Res (ℕ → Option UInt8) :=
  if alignment > 1 then swapArray m p (arrayLen / alignment) alignment else .ok m

section
variable (helper : TypeReader → Bool → ℕ → (ℕ → Option UInt8) → Res (ℕ × (ℕ → Option UInt8)))

def swapArrayValue (n : ℕ) (r : TypeReader) (p : ℕ) (m : ℕ → Option UInt8) :
    Res (ℕ × (ℕ → Option UInt8)) := do
  let (arrayLen, p, m) ← swapLength old p m
  let elemType ← r.getElementType
  let alignment ← elemType.getAlignment
  assert (arrayLen / alignment < maximumArrayLength)
  let p := alignUp p alignment
  match elemType.fixed? with
  | some _ => do
    let m ← swapBlock p arrayLen alignment m
    return (p + arrayLen, m)
  | none => do
    let sub ← r.recurse
    swapLoop (helper sub false) (p + arrayLen) n p m

def swapVariant (p : ℕ) (m : ℕ → Option UInt8) : Res (ℕ × (ℕ → Option UInt8)) := do
  let sigLen ← derefAt m p
  let p := p + 1
  let sig ← DBusString.initConstLen m p sigLen.toNat
  let p := p + sigLen.toNat + 1
  let t ← firstTypeInSignature sig 0
  let alignment ← t.getAlignment
  helper (TypeReader.initTypesOnly sig 0) false (alignUp p alignment) m

/-- The `switch` on the current type: the position behind the value, and the memory. -/
def swapValue (n : ℕ) (r : TypeReader) (p : ℕ) (m : ℕ → Option UInt8) :
    TypeCode → Res (ℕ × (ℕ → Option UInt8))
  | .basic (.fixed .byte) => return (p + 1, m)
  | .basic (.fixed f) => do
    let p := alignUp p f.size
    let m ← swapBytes m p f.size
    return (p + f.size, m)
  | .basic (.str .signature) => do
    let sigLen ← derefAt m p
    return (p + (sigLen.toNat + 2), m)
  | .basic (.str _) => do
    let (len, p, m) ← swapLength old p m
    return (p + (len + 1), m)
  | .array => swapArrayValue old helper n r p m
  | .variant => swapVariant helper p m
  | .struct _ => do
    let sub ← r.recurse
    helper sub true (alignUp p 8) m
  | _ => .error .assertion

end

/-- `byteswap_body_helper` with fuel: the pointer `*new_p`, and the memory. -/
def byteswapBodyHelper : ℕ → TypeReader → Bool → ℕ → (ℕ → Option UInt8) →
    Res (ℕ × (ℕ → Option UInt8))
  | 0, _, _, _, _ => .error .fuel
  | n + 1, r, walkReaderToEnd, p, m => do
    let t ← r.getCurrentType
    if t = .invalid then return (p, m)
    else do
      let (p, m) ← swapValue old (byteswapBodyHelper n) n r p m t
      if walkReaderToEnd then do
        let (_, r) ← r.next
        byteswapBodyHelper n r walkReaderToEnd p m
      else return (p, m)

end

/-- `_dbus_marshal_byteswap`: the string after the swap.  The helper gets one step for each byte of
    the signature and of the values, and one for the last look at each. -/
def marshalByteswap (signature : DBusString) (signatureStart : ℕ)
    (oldByteOrder newByteOrder : ByteOrder) (valueStr : DBusString) (valuePos : ℕ) :
    Res DBusString := do
  assert (valuePos ≤ valueStr.len)
  if oldByteOrder = newByteOrder then return valueStr
  else do
    valueStr.getConstDataLen valuePos 0
    let (_, m) ← byteswapBodyHelper oldByteOrder (signature.len + valueStr.len + 2)
      (.initTypesOnly signature signatureStart) true valuePos valueStr.str
    return ⟨m, valueStr.len⟩

/-- Swap a body behind which nothing can be read or written. -/
def byteswapBody (old new : ByteOrder) (sig body : List UInt8) : Res (List UInt8) := do
  let s ← marshalByteswap (.ofBytes sig) 0 old new (.ofBody body) 0
  valueOr .outside (readN s.str 0 s.len)

end DBus
