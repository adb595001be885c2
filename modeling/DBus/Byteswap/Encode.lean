/-
  Swapping an encoding.

  Where the memory holds the encoding of a value in one byte order, the swapper stores its
  encoding in the other one (`swapValue_encode`).  It stops only at an array that fails its
  own test of lengths (`Value.swappable`), which does not depend on the byte order.
-/
import DBus.Byteswap.Defs
import DBus.Writer.Values

namespace DBus

open Outcome Memory Align Endian Value List Ty

/-- Every array of a value passes the swapper's test of its length. -/
def Value.swappable (o : ByteOrder) (off : ℕ) (v : Value) : Prop :=
  v.everyArray (fun e len => len / e.alignment < maximumArrayLength) o off

/-- Every array of a list of values passes the swapper's test of its length. -/
def Value.swappableList (o : ByteOrder) (off : ℕ) (vs : List Value) : Prop :=
  everyArrayList (fun e len => len / e.alignment < maximumArrayLength) o off vs

section
variable {old : ByteOrder} {m : ℕ → Option UInt8} {p n : ℕ} {f : FixedType} {vs : List Value}
  {helper : TypeReader → Bool → ℕ → (ℕ → Option UInt8) → Res (ℕ × (ℕ → Option UInt8))}
  {r : TypeReader} {d : ℕ} {t : Ty} {ts : List Ty} {c : Prop} {out : ℕ × (ℕ → Option UInt8)}

/-! ## Words and blocks -/

theorem swapBytes_eq {w : ℕ} (h : Holds m p (toBytes old w n)) :
    swapBytes m p w = .ok (store m p (toBytes old.other w n)) := by
  simp [swapBytes, readN_eq_some.2 ⟨length_toBytes .., h⟩, valueOr_some, ok_bind, reverse_toBytes]

theorem store_pad {a : ℕ} {xs : List UInt8} (ha : 0 < a) (h : Holds m p (pad p a)) :
    store m p (pad p a ++ xs) = store m (alignUp p a) xs := by
  rw [store_append, store_of_holds h, length_pad, add_padding ha]

theorem swapLength_eq (hn : n < 2 ^ 32) (h : Holds m p (pad p 4 ++ toBytes old 4 n)) :
    swapLength old p m =
      .ok (n, alignUp p 4 + 4, store m p (pad p 4 ++ toBytes old.other 4 n)) := by
  obtain ⟨hp, hw⟩ := (holds_padded (by decide)).1 h
  simp only [swapLength, unpackUint32_toBytes dvd_alignUp hn hw, ok_bind, swapBytes_eq hw,
    store_pad (show 0 < 4 by decide) hp, pure_eq_ok]

theorem add_length_word (o : ByteOrder) :
    p + (pad p 4 ++ toBytes o 4 n).length = alignUp p 4 + 4 := by
  rw [length_append, length_pad, length_toBytes, ← Nat.add_assoc, add_padding (by decide)]

theorem store_word_append (o : ByteOrder) (xs : List UInt8) :
    store m p ((pad p 4 ++ toBytes o 4 n) ++ xs) =
      store (store m p (pad p 4 ++ toBytes o 4 n)) (alignUp p 4 + 4) xs := by
  rw [store_append, add_length_word]

theorem toBytes_one (o o' : ByteOrder) (n : ℕ) : toBytes o 1 n = toBytes o' 1 n := by
  cases o <;> cases o' <;> rfl

theorem encodeList_bytes (o o' : ByteOrder) : ∀ (vs : List Value) {p : ℕ},
    (∀ t ∈ tyList vs, t = .basic (.fixed .byte)) → encodeList o p vs = encodeList o' p vs
  | [], _, _ => rfl
  | v :: vs, p, ht => by
    obtain ⟨n, rfl⟩ := eq_fixed (ht _ (mem_cons_self ..))
    have hen : (Value.fixed .byte n).encode o p = (Value.fixed .byte n).encode o' p := by
      rw [encode, encode, content, content, FixedType.size, toBytes_one o o']
    rw [encodeList_cons, encodeList_cons, hen,
      encodeList_bytes o o' vs fun t hm => ht t (mem_cons_of_mem _ hm)]

theorem swapElements_encode : ∀ (vs : List Value) {m : ℕ → Option UInt8} {p : ℕ},
    (∀ t ∈ tyList vs, t = .basic (.fixed f)) → f.size ∣ p → Holds m p (encodeList old p vs) →
    swapElements f.size vs.length p m = .ok (store m p (encodeList old.other p vs))
  | [], m, p, _, _, _ => by
    rw [encodeList_nil, store_nil]
    rfl
  | v :: vs, m, p, ht, hd, h => by
    obtain ⟨n, rfl⟩ := eq_fixed (ht _ (mem_cons_self ..))
    rw [encodeList_cons, encode_fixed_of_dvd n hd, holds_append, length_toBytes] at h
    have hfr : Holds (store m p (toBytes old.other f.size (f.word n))) (p + f.size)
        (encodeList old (p + f.size) vs) := (holds_store_of_le (by rw [length_toBytes])).2 h.2
    have hrs := swapElements_encode vs (fun t hm => ht t (mem_cons_of_mem _ hm))
      (Nat.dvd_add_self_right.2 hd) hfr
    rw [length_cons, swapElements, swapBytes_eq h.1, ok_bind, hrs, encodeList_cons,
      encode_fixed_of_dvd n hd, store_append, length_toBytes]

theorem swapBlock_encode (ht : ∀ t ∈ tyList vs, t = .basic (.fixed f)) (hd : f.size ∣ p)
    (h : Holds m p (encodeList old p vs)) : swapBlock p (encodeList old p vs).length f.size m =
      .ok (store m p (encodeList old.other p vs)) := by
  have hel := swapElements_encode vs ht hd h
  rw [swapBlock, length_encodeList_fixed vs ht hd, Nat.mul_div_cancel _ f.size_pos]
  by_cases hf : f = .byte
  · subst hf
    rw [if_neg (by decide), encodeList_bytes old.other old vs ht, store_of_holds h]
  · have har : alignUp p f.size = p := alignUp_of_dvd hd
    rw [if_pos (by cases f <;> first | exact absurd rfl hf | decide), swapArray, assert_bind har]
    cases f <;> first | exact absurd rfl hf | exact hel

theorem everyArrayList_fixed {P : Ty → ℕ → Prop} : ∀ (vs : List Value) {p : ℕ},
    (∀ t ∈ tyList vs, t = .basic (.fixed f)) → everyArrayList P old p vs
  | [], _, _ => trivial
  | v :: vs, p, ht => by
    obtain ⟨n, rfl⟩ := eq_fixed (ht _ (mem_cons_self ..))
    exact ⟨trivial, everyArrayList_fixed vs fun t hm => ht t (mem_cons_of_mem _ hm)⟩

/-! ## Basic values -/

theorem swapFixed_encode {k : ℕ} (h : Holds m p ((Value.fixed f k).encode old p)) :
    swapValue old helper n r p m (.basic (.fixed f)) =
      .ok (p + ((Value.fixed f k).encode old p).length,
        store m p ((Value.fixed f k).encode old.other p)) := by
  have hlen : p + ((Value.fixed f k).encode old p).length = alignUp p f.size + f.size := by
    rw [add_length_encode]
    simp [content, ty, BasicType.alignment]
  have hen : ∀ o, (Value.fixed f k).encode o p = pad p f.size ++ toBytes o f.size (f.word k) :=
    fun _ => rfl
  obtain ⟨hp, hw⟩ := (holds_padded f.size_pos).1 h
  rw [hlen]
  by_cases hf : f = .byte
  · subst hf
    rw [hen, FixedType.size, toBytes_one old.other old, ← FixedType.size, ← hen, store_of_holds h,
      FixedType.size, alignUp_one]
    rfl
  · have hsw : swapBytes m (alignUp p f.size) f.size = _ := swapBytes_eq hw
    rw [hen, store_pad f.size_pos hp]
    cases f <;> first | exact absurd rfl hf | (simp only [swapValue, hsw, ok_bind, pure_eq_ok])

theorem swapStr_encode {s : StringType} {bs : List UInt8} (hwf : (Value.str s bs).WF)
    (h : Holds m p ((Value.str s bs).encode old p)) :
    swapValue old helper n r p m (.basic (.str s)) =
      .ok (p + ((Value.str s bs).encode old p).length,
        store m p ((Value.str s bs).encode old.other p)) := by
  by_cases hs : s = .signature
  · subst hs
    have hen : ∀ o, (Value.str .signature bs).encode o p = sigBytes bs :=
      fun _ => encode_of_dvd (Nat.one_dvd p)
    have hlen := toNat_length (hwf.1 : ValidSignature bs).length_le
    rw [hen] at h
    rw [hen, hen, store_of_holds h, length_sigBytes]
    simp only [swapValue, derefAt_eq_ok.2 (holds_sigBytes.1 h).1, ok_bind, hlen, pure_eq_ok]
  · have hen : ∀ o, (Value.str s bs).encode o p =
        (pad p 4 ++ toBytes o 4 bs.length) ++ (bs ++ [0]) := fun o => by
      rw [append_assoc]
      cases s <;> first | exact absurd rfl hs | rfl
    rw [hen, holds_append, add_length_word] at h
    have hlt : bs.length < 2 ^ 32 := hwf.2.trans (by decide)
    have hlen : p + ((Value.str s bs).encode old p).length = alignUp p 4 + 4 + (bs.length + 1) := by
      rw [hen, length_append, ← Nat.add_assoc, add_length_word]
      simp
    have hkp : store m p ((Value.str s bs).encode old.other p) =
        store m p (pad p 4 ++ toBytes old.other 4 bs.length) := by
      rw [hen, store_word_append]
      exact store_of_holds ((holds_store_of_le (add_length_word _).le).2 h.2)
    rw [hlen, hkp]
    cases s <;> first | exact absurd rfl hs |
      (simp only [swapValue, swapLength_eq hlt h.1, ok_bind, pure_eq_ok])

/-! ## Value trees -/

theorem byteswapBodyHelper_one (hl : TypesLeft r (t :: ts) d)
    (h : Decides c .assertion (swapValue old (byteswapBodyHelper old n) n r p m t.code) out) :
    Decides c .assertion (byteswapBodyHelper old (n + 1) r false p m) out := by
  rw [byteswapBodyHelper, hl.getCurrentType_cons, ok_bind, if_neg t.code_ne_invalid]
  exact (h.bind (decides_ok trivial)).congr (and_iff_left trivial)

theorem byteswapBodyHelper_cons {c' : Prop} {q : ℕ} {m' : ℕ → Option UInt8} {more : Bool}
    {r' : TypeReader} (hl : TypesLeft r (t :: ts) d) (hnx : r.next = .ok (more, r'))
    (h : Decides c .assertion (swapValue old (byteswapBodyHelper old n) n r p m t.code) (q, m'))
    (hrs : Decides c' .assertion (byteswapBodyHelper old n r' true q m') out) :
    Decides (c ∧ c') .assertion (byteswapBodyHelper old (n + 1) r true p m) out := by
  rw [byteswapBodyHelper, hl.getCurrentType_cons, ok_bind, if_neg t.code_ne_invalid]
  refine h.bind ?_
  simp only [if_true, hnx, ok_bind]
  exact hrs

theorem swapArrayValue_encode {el : Ty} {start len : ℕ}
    (hsr : alignUp (alignUp p 4 + 4) el.alignment = start)
    (hlen : (encodeList old start vs).length = len) (hl : TypesLeft r (.array el :: ts) d)
    (hft : (Value.array el vs).fits old (alignUp p 4))
    (h : Holds m p ((Value.array el vs).encode old p))
    (hes : ∀ m1, Holds m1 start (encodeList old start vs) →
      Decides (swappableList old start vs) .assertion (match el.code.fixed? with
          | some _ => do
            let m ← swapBlock start len el.alignment m1
            return (start + len, m)
          | none => do
            let sub ← r.recurse
            swapLoop (byteswapBodyHelper old n sub false) (start + len) n start m1)
        (start + len, store m1 start (encodeList old.other start vs))) :
    Decides ((Value.array el vs).swappable old (alignUp p 4)) .assertion
      (swapArrayValue old (byteswapBodyHelper old n) n r p m)
      (p + ((Value.array el vs).encode old p).length,
        store m p ((Value.array el vs).encode old.other p)) := by
  obtain ⟨hw, hp, hel⟩ := holds_array.1 h
  have hle := le_alignUp (n := alignUp p 4 + 4) el.alignment_pos
  have hen : (Value.array el vs).encode old.other p = (pad p 4 ++ toBytes old.other 4 len) ++
      (pad (alignUp p 4 + 4) el.alignment ++ encodeList old.other start vs) := by
    rw [← hlen, ← hsr, length_encodeList_order old.other, append_assoc]
    rfl
  have hm : len ≤ maximumArrayLength := by
    rw [← hlen, ← hsr]
    exact hft.1
  have hlt : len < 2 ^ 32 := hm.trans_lt (by decide)
  rw [add_length_encode_array, hen]
  rw [hsr] at hw hel hle ⊢
  rw [hlen] at hw ⊢
  rw [swapArrayValue, swapLength_eq hlt hw]
  have hkp : ∀ {j : ℕ} {ys : List UInt8}, alignUp p 4 + 4 ≤ j → Holds m j ys →
      Holds (store m p (pad p 4 ++ toBytes old.other 4 len)) j ys := fun hj hy =>
    (holds_store_of_le ((add_length_word _).le.trans hj)).2 hy
  have hst : store m p ((pad p 4 ++ toBytes old.other 4 len) ++
      (pad (alignUp p 4 + 4) el.alignment ++ encodeList old.other start vs)) =
      store (store m p (pad p 4 ++ toBytes old.other 4 len)) start
        (encodeList old.other start vs) := by
    rw [store_word_append, store_pad el.alignment_pos (hkp (le_refl _) hp), hsr]
  rw [hst]
  simp only [ok_bind, hl.getElementType, el.getAlignment_code, hsr]
  have hte : Decides (len / el.alignment < maximumArrayLength) .assertion (assert _) () :=
    decides_ensure
  refine (hte.bind (hes _ (hkp hle hel))).congr ?_
  rw [← hlen, ← hsr]
  rfl

mutual
/-- **Swapping a value** stores its encoding in the other byte order. -/
theorem swapValue_encode : ∀ (v : Value) {n p d : ℕ} {m : ℕ → Option UInt8} {r : TypeReader}
    {ts : List Ty}, TypesLeft r (v.ty :: ts) d → v.WF → v.fits old (alignUp p v.ty.alignment) →
    Holds m p (v.encode old p) → v.ty.sig.length + (v.encode old p).length ≤ n →
    Decides (v.swappable old (alignUp p v.ty.alignment)) .assertion
      (swapValue old (byteswapBodyHelper old n) n r p m v.ty.code)
      (p + (v.encode old p).length, store m p (v.encode old.other p))
  | .fixed f k, n, p, d, m, r, ts, _, _, _, h, _ => by
    rw [ty, code, swapFixed_encode h]
    exact decides_ok trivial
  | .str s bs, n, p, d, m, r, ts, _, hwf, _, h, _ => by
    rw [ty, code, swapStr_encode hwf h]
    exact decides_ok trivial
  | .variant v, n, p, d, m, r, ts, _, hwf, hft, h, hn => by
    obtain ⟨hc, hv⟩ := hwf
    have hlen := toNat_length hc.valid.length_le
    rw [encode_variant] at h hn ⊢
    rw [encode_variant]
    obtain ⟨hsg, hvl⟩ := holds_append.1 h
    have hl := typesLeft_window hc.formed (holds_sigBytes.1 hsg).2
    have hfr := hl.getCurrentType_cons
    rw [getCurrentType_initTypesOnly] at hfr
    have hm : v.ty.sig.length ≤ stringMaxMaxLength := hc.valid.length_le.trans (by decide)
    rw [length_append] at hn
    rw [length_append, ← Nat.add_assoc, store_append, store_of_holds hsg]
    have hs : p + 1 + v.ty.sig.length + 1 = p + (sigBytes v.ty.sig).length := by
      rw [length_sigBytes]
      omega
    have hft' : v.everyArray (fun _ len => len ≤ maximumArrayLength) old
        (alignUp (p + (sigBytes v.ty.sig).length) v.ty.alignment) := by
      simpa only [fits, everyArray, ty, alignment_variant, alignUp_one] using hft
    have hi : (Value.variant v).swappable old (alignUp p (Value.variant v).ty.alignment) ↔
        v.swappable old (alignUp (p + (sigBytes v.ty.sig).length) v.ty.alignment) := by
      simp only [swappable, everyArray, ty, alignment_variant, alignUp_one]
    obtain _ | n := n
    · omega
    generalize hsr : p + (sigBytes v.ty.sig).length = s at *
    obtain ⟨hp, hcn⟩ := (holds_padded v.ty.alignment_pos).1 hvl
    have hen : ∀ o, v.encode o (alignUp s v.ty.alignment) =
        v.content o (alignUp s v.ty.alignment) := fun _ => encode_of_dvd dvd_alignUp
    have hle : (v.content old (alignUp s v.ty.alignment)).length ≤ (v.encode old s).length := by
      rw [encode, length_append]
      omega
    have hrc := swapValue_encode v (n := n) (p := alignUp s v.ty.alignment) (m := m) hl hv
      (by rw [alignUp_alignUp]; exact hft') (by rwa [hen]) (by rw [hen]; omega)
    rw [alignUp_alignUp, hen, hen, ← add_length_encode, ← store_pad v.ty.alignment_pos hp] at hrc
    have ho := (byteswapBodyHelper_one hl hrc).congr hi.symm
    have hst : swapValue old (byteswapBodyHelper old (n + 1)) (n + 1) r p m .variant =
        byteswapBodyHelper old (n + 1)
          (.initTypesOnly ⟨window m (p + 1) v.ty.sig.length, v.ty.sig.length⟩ 0) false
          (alignUp s v.ty.alignment) m := by
      simp only [swapValue, swapVariant, derefAt_eq_ok.2 (holds_sigBytes.1 hsg).1, ok_bind, hlen,
        initConstLen_eq_ok.2 ⟨hm, rfl⟩, hfr, v.ty.getAlignment_code, hs]
    exact hst ▸ ho
  | .array el vs, n, p, d, m, r, ts, hl, hwf, hft, h, hn => by
    refine swapArrayValue_encode rfl rfl hl hft h fun m1 hel => ?_
    have hlen := add_length_encode_array (o := old) el vs p
    have hle := le_alignUp (n := alignUp p 4 + 4) el.alignment_pos
    have hle' := le_alignUp (n := p) (show 0 < 4 by decide)
    simp only [ty, sig, length_cons] at hn
    obtain ⟨sub, hrc, hsb, -⟩ := hl.recurse_array
    obtain ⟨_, hf⟩ := hl.formed
    simp only [ty, formed] at hf
    cases hcd : el.code.fixed? with
    | none =>
      have hco := length_le_encodeList (o := old) vs (alignUp (alignUp p 4 + 4) el.alignment)
        hwf.1 hf
      simp only [hrc, ok_bind]
      exact swapLoop_encode vs hsb hwf.1 hwf.2 hft.2 hel (by omega) (by omega)
    | some f =>
      obtain rfl := eq_fixed_of_code hcd
      change Decides _ _ (swapBlock _ _ f.size m1 >>= _) _
      have hdv : f.size ∣ alignUp (alignUp p 4 + 4) (basic (.fixed f)).alignment := dvd_alignUp
      rw [swapBlock_encode hwf.1 hdv hel]
      exact decides_ok (everyArrayList_fixed vs hwf.1)
  | .struct k vs, n, p, d, m, r, ts, hl, hwf, hft, h, hn => by
    obtain ⟨sub, hrc, hsb, -⟩ := hl.recurse_struct
    obtain ⟨hp, hfs⟩ := holds_struct.1 h
    have hlen := add_length_encode_struct (o := old) k vs p
    have hle := le_alignUp (n := p) (show 0 < 8 by decide)
    simp only [ty, sig, length_cons, length_append, length_nil] at hn
    have hal := byteswapBodyHelper_encode vs (n := n) (p := alignUp p 8) hsb hwf hft hfs (by omega)
    have hen : (Value.struct k vs).encode old.other p =
        pad p 8 ++ encodeList old.other (alignUp p 8) vs := rfl
    rw [hlen, hen, store_pad (by decide) hp]
    have hst : swapValue old (byteswapBodyHelper old n) n r p m (.struct k) =
        byteswapBodyHelper old n sub true (alignUp p 8) m := by
      simp only [swapValue, hrc, ok_bind]
    exact hst ▸ hal
theorem swapLoop_encode : ∀ (vs : List Value) {n k p d : ℕ} {m : ℕ → Option UInt8}
    {sub : TypeReader} {el : Ty}, TypesLeft sub [el] d → (∀ t ∈ tyList vs, t = el) → WFList vs →
    fitsList old p vs → Holds m p (encodeList old p vs) → vs.length < k →
    el.sig.length + (encodeList old p vs).length < n →
    Decides (swappableList old p vs) .assertion
      (swapLoop (byteswapBodyHelper old n sub false) (p + (encodeList old p vs).length) k p m)
      (p + (encodeList old p vs).length, store m p (encodeList old.other p vs))
  | [], n, k, p, d, m, sub, el, _, _, _, _, _, hk, _ => by
    obtain _ | k := k
    · omega
    rw [swapLoop, encodeList_nil, encodeList_nil, store_nil, if_neg (by simp)]
    exact decides_ok trivial
  | v :: vs, n, k, p, d, m, sub, el, hl, ht, hwf, hft, h, hk, hn => by
    obtain _ | k := k
    · omega
    obtain _ | n := n
    · omega
    obtain rfl : v.ty = el := ht _ (mem_cons_self ..)
    obtain ⟨_, hf⟩ := hl.formed
    have hp := encode_length_pos (o := old) p v hf
    have ho := length_encode_order (o := old) old.other v p
    rw [encodeList_cons, holds_append] at h
    rw [encodeList_cons, length_append] at hn
    have hvl := swapValue_encode v (n := n) hl hwf.1 hft.1 h.1 (by omega)
    have hrs := swapLoop_encode vs (n := n + 1) (k := k) (m := store m p (v.encode old.other p)) hl
      (fun t hm => ht t (mem_cons_of_mem _ hm)) hwf.2 hft.2
      ((holds_store_of_le (by rw [ho])).2 h.2) (by simpa using hk) (by omega)
    rw [encodeList_cons, encodeList_cons, length_append, ← Nat.add_assoc, store_append,
      ← ho, swapLoop, if_pos (by omega)]
    exact (byteswapBodyHelper_one hl hvl).bind hrs
theorem byteswapBodyHelper_encode : ∀ (vs : List Value) {n p d : ℕ} {m : ℕ → Option UInt8}
    {r : TypeReader}, TypesLeft r (tyList vs) d → WFList vs → fitsList old p vs →
    Holds m p (encodeList old p vs) →
    (sigList (tyList vs)).length + (encodeList old p vs).length < n →
    Decides (swappableList old p vs) .assertion (byteswapBodyHelper old n r true p m)
      (p + (encodeList old p vs).length, store m p (encodeList old.other p vs))
  | [], n, p, d, m, r, hl, _, _, _, hn => by
    obtain _ | n := n
    · omega
    rw [byteswapBodyHelper, hl.getCurrentType_nil, ok_bind, if_pos rfl, encodeList_nil,
      encodeList_nil, store_nil]
    exact decides_ok trivial
  | v :: vs, n, p, d, m, r, hl, hwf, hft, h, hn => by
    obtain _ | n := n
    · omega
    obtain ⟨_, hf⟩ := hl.formed
    obtain ⟨r', hnx, hl', -⟩ := hl.next
    have hsg := v.ty.sig_length_pos
    have ho := length_encode_order (o := old) old.other v p
    rw [encodeList_cons, holds_append] at h
    rw [encodeList_cons, tyList_cons, sigList_cons, length_append, length_append] at hn
    have hvl := swapValue_encode v (n := n) hl hwf.1 hft.1 h.1 (by omega)
    have hrs := byteswapBodyHelper_encode vs (n := n)
      (m := store m p (v.encode old.other p)) hl' hwf.2 hft.2
      ((holds_store_of_le (by rw [ho])).2 h.2) (by omega)
    rw [encodeList_cons, encodeList_cons, length_append, ← Nat.add_assoc, store_append, ← ho]
    exact byteswapBodyHelper_cons hl hnx hvl hrs
end

end

/-! ## Whole bodies -/

variable {o : ByteOrder}

theorem byteswapBody_self (sig body : List UInt8) : byteswapBody o o sig body = .ok body := by
  simp only [byteswapBody, marshalByteswap, assert_of (Nat.zero_le _), ok_bind, if_true, pure_eq_ok]
  rw [show readN (DBusString.ofBody body).str 0 (DBusString.ofBody body).len = some body from
    readN_eq_some.2 ⟨rfl, holds_ofList⟩, valueOr_some]

theorem byteswapBody_of_ne {o' : ByteOrder} (h : o ≠ o') (sig body : List UInt8) :
    byteswapBody o o' sig body =
      byteswapBodyHelper o (sig.length + body.length + 2) (.initTypesOnly (.ofBytes sig) 0) true 0
        (ofList body) >>= fun x => valueOr .outside (readN x.2 0 body.length) := by
  simp only [byteswapBody, marshalByteswap, assert_bind (Nat.zero_le _), if_neg h,
    DBusString.getConstDataLen, bind_assoc, pure_bind]
  rfl

/-- The swapper turns an encoding into the encoding in the other byte order, unless
    an array fails its test. -/
theorem byteswapBody_encode {vs : List Value} (hf : formedList true (tyList vs) = true)
    (hwf : WFList vs) (hft : fitsList o 0 vs) : Decides (swappableList o 0 vs) .assertion
      (byteswapBody o o.other (sigList (tyList vs)) (encodeList o 0 vs))
      (encodeList o.other 0 vs) := by
  have hrn := byteswapBodyHelper_encode vs (n := (sigList (tyList vs)).length +
    (encodeList o 0 vs).length + 2) (.init hf) hwf hft holds_ofList (by omega)
  rw [byteswapBody_of_ne (by cases o <;> decide)]
  refine (hrn.bind (d := True) ?_).congr (and_iff_left trivial)
  rw [readN_eq_some.2 ⟨length_encodeList_order .., holds_store⟩, valueOr_some]
  exact decides_ok trivial

/-- **Swapping keeps the meaning.**  Where the swapper runs to completion on the encoding of value
    trees in the byte order `A`, it leaves their encoding in the byte order `B`; swapping back gives
    the first encoding, and what was valid in `A` is valid in `B`. -/
theorem byteswap_encoding {A B : ByteOrder} {vs : List Value} {out : List UInt8}
    (hg : Grammatical (tyList vs)) (hwf : WFList vs) (hfits : fitsList A 0 vs)
    (hmax : (encodeList A 0 vs).length ≤ stringMaxMaxLength)
    (h : byteswapBody A B (sigList (tyList vs)) (encodeList A 0 vs) = .ok out) :
    out = encodeList B 0 vs ∧
      byteswapBody B A (sigList (tyList vs)) out = .ok (encodeList A 0 vs) ∧
      BodyAccepted A (sigList (tyList vs)) (encodeList A 0 vs) ∧
      BodyAccepted B (sigList (tyList vs)) out := by
  have hf := formedList_mono _ hg.formed
  have hA := bodyAccepted_encode hf hwf hfits hmax
  by_cases hAB : A = B
  · subst hAB
    rw [byteswapBody_self, Except.ok.injEq] at h
    subst h
    exact ⟨rfl, byteswapBody_self .., hA, hA⟩
  · obtain rfl : B = A.other := by cases A <;> cases B <;> first | rfl | exact absurd rfl hAB
    obtain ⟨hsw, rfl⟩ := (byteswapBody_encode hf hwf hfits).of_ok h
    -- the limits and the swapper's test look at lengths only
    have hft' : fitsList A.other 0 vs := (everyArrayList_order ..).1 hfits
    have hb := (byteswapBody_encode hf hwf hft').1 ((everyArrayList_order ..).1 hsw)
    rw [A.other_other] at hb
    refine ⟨rfl, hb, hA, bodyAccepted_encode hf hwf hft' ?_⟩
    rwa [length_encodeList_order]

theorem sampleValues_byteswap :
    byteswapBody .big .little (sigList (tyList sampleValues)) (encodeList .big 0 sampleValues) =
        .ok (encodeList .little 0 sampleValues) ∧
      byteswapBody .little .big (sigList (tyList sampleValues))
          (encodeList .little 0 sampleValues) =
        .ok (encodeList .big 0 sampleValues) := by
  have h : byteswapBody .big .little (sigList (tyList sampleValues))
      (encodeList .big 0 sampleValues) = .ok (encodeList .little 0 sampleValues) := by
    decide +kernel
  exact ⟨h, (byteswap_encoding sampleValues_grammatical sampleValues_wf (sampleValues_fits _)
    (by decide +kernel) h).2.1⟩

end DBus
