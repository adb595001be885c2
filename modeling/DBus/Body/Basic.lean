/-
  What the body validator accepts as a basic value.

  Each check succeeds exactly on one shape of bytes, the encoding of a value: read from
  right to left the equivalences show that encodings are accepted, from left to right that
  what is accepted is an encoding.
-/
import DBus.Body.Defs
import DBus.Value

namespace DBus

open Outcome Memory Align Endian Value List

/-- The memory can be read from `p` to `e`. -/
def Readable (m : ℕ → Option UInt8) (p e : ℕ) : Prop := ∀ i, p ≤ i → i < e → (m i).isSome

section
variable {o : ByteOrder} {m : ℕ → Option UInt8} {e p q n : ℕ} {u : Unit} {bs : List UInt8}
  {f : FixedType} {s : StringType} {cs : List UInt8}

theorem Readable.mono (h : Readable m p e) (hq : p ≤ q) : Readable m q e :=
  fun i hi => h i (le_trans hq hi)

theorem Readable.holds (h : Readable m p e) (hq : p ≤ q) (hn : q + n ≤ e) :
    ∃ bs : List UInt8, bs.length = n ∧ Holds m q bs := by
  obtain ⟨bs, hbs⟩ := readN_isSome (m := m) (i := q) (n := n) fun k hk => h _ (by omega) (by omega)
  exact ⟨bs, readN_eq_some.1 hbs⟩

/-! ## Padding and words -/

theorem derefAt_eq_ok {c : UInt8} : derefAt m p = .ok c ↔ m p = some c := valueOr_eq_ok

theorem skipPadding_eq_ok : skipPadding m n p = .ok u ↔ Holds m p (.replicate n 0) := by
  induction n generalizing p with
  | zero => simp [skipPadding]
  | succ n ih =>
    simp only [skipPadding, bind_eq_ok, derefAt_eq_ok, require_eq_ok, exists_const, ih,
      replicate_succ, holds_cons]
    constructor
    · rintro ⟨c, hc, rfl, h⟩
      exact ⟨hc, h⟩
    · rintro ⟨hc, h⟩
      exact ⟨0, hc, rfl, h⟩

theorem skipPadding_pad {a : ℕ} : skipPadding m (alignUp p a - p) p = .ok u ↔ Holds m p (pad p a) :=
  skipPadding_eq_ok

theorem holds_padded {a : ℕ} (ha : 0 < a) :
    Holds m p (pad p a ++ bs) ↔ Holds m p (pad p a) ∧ Holds m (alignUp p a) bs := by
  rw [holds_append, length_pad, add_padding ha]

theorem unpackUint32_iff :
    unpackUint32 o m p = .ok n ↔ 4 ∣ p ∧ n < 2 ^ 32 ∧ Holds m p (toBytes o 4 n) := by
  constructor
  · intro h
    exact ⟨(unpackUint32_eq_ok.1 h).1, holds_of_unpackUint32 h⟩
  · rintro ⟨hd, hn, h⟩
    exact unpackUint32_toBytes hd hn h

theorem checkBoolean_eq_ok :
    checkBoolean o m p = .ok u ↔ 4 ∣ p ∧ ∃ n, (n = 0 ∨ n = 1) ∧ Holds m p (toBytes o 4 n) := by
  simp only [checkBoolean, bind_eq_ok, require_eq_ok, unpackUint32_iff]
  constructor
  · rintro ⟨n, ⟨hd, -, h⟩, hn⟩
    exact ⟨hd, n, hn, h⟩
  · rintro ⟨hd, n, hn, h⟩
    exact ⟨n, ⟨hd, by omega, h⟩, hn⟩

theorem claimedLen_eq_ok : claimedLen o m e p = .ok (n, q) ↔
      q = alignUp p 4 + 4 ∧ q ≤ e ∧ n < 2 ^ 32 ∧ Holds m p (pad p 4 ++ toBytes o 4 n) := by
  simp only [claimedLen, bind_eq_ok, require_eq_ok, assert_eq_ok, skipPadding_pad, unpackUint32_iff,
    exists_const, pure_eq_ok, Except.ok.injEq, Prod.mk.injEq, holds_padded (a := 4) (by decide)]
  constructor
  · rintro ⟨-, hp, _, ⟨-, hn, h⟩, he, rfl, rfl⟩
    exact ⟨rfl, he, hn, hp, h⟩
  · rintro ⟨rfl, he, hn, hp, h⟩
    exact ⟨he, hp, n, ⟨dvd_alignUp, hn, h⟩, he, rfl, rfl⟩

/-! ## Fixed-size values -/

theorem FixedType.word_lt (h : n < 256 ^ f.size) : f.word n < 256 ^ f.size := by
  cases f <;> first | exact h | skip
  simp only [FixedType.word]
  split <;> decide

@[simp] theorem FixedType.word_word (f : FixedType) (n : ℕ) : f.word (f.word n) = f.word n := by
  cases f <;> simp [FixedType.word]

theorem exists_fixed (hb : f ≠ .boolean) (h : Readable m p e) (he : p + f.size ≤ e) :
    ∃ n, n < 256 ^ f.size ∧ f.word n = n ∧ Holds m p (toBytes o f.size n) := by
  obtain ⟨bs, hl, hbs⟩ := h.holds (le_refl p) he
  refine ⟨fromBytes o bs, hl ▸ fromBytes_lt o bs, ?_, ?_⟩
  · cases f <;> first | rfl | exact absurd rfl hb
  · rwa [toBytes_fromBytes o hl]

theorem validateFixed_iff (hm : Readable m p e) : validateFixed o m e f p = .ok q ∧ q ≤ e ↔
      ∃ n, n < 256 ^ f.size ∧ f.word n = n ∧ Holds m p ((Value.fixed f n).encode o p) ∧
        q = p + ((Value.fixed f n).encode o p).length ∧ q ≤ e := by
  have hlen : ∀ n, p + ((Value.fixed f n).encode o p).length = alignUp p f.size + f.size :=
    fun n => by
      rw [add_length_encode]
      simp [content, ty, Ty.alignment, BasicType.alignment]
  have hen : ∀ n, f.word n = n → (Holds m p ((Value.fixed f n).encode o p) ↔
      Holds m p (pad p f.size) ∧ Holds m (alignUp p f.size) (toBytes o f.size n)) := fun n hn => by
    rw [encode, content, hn]
    exact holds_padded f.size_pos
  have hle : p ≤ alignUp p f.size := le_alignUp f.size_pos
  by_cases hby : f = .byte
  · subst hby
    simp only [validateFixed, pure_eq_ok, Except.ok.injEq, hlen, FixedType.size, alignUp_one]
    constructor
    · rintro ⟨rfl, he⟩
      obtain ⟨n, hn, hw, h⟩ := exists_fixed (o := o) (f := .byte) (by simp) hm he
      refine ⟨n, hn, hw, (hen n hw).2 ⟨?_, by rwa [FixedType.size, alignUp_one]⟩, rfl, he⟩
      rw [FixedType.size, pad_of_dvd (Nat.one_dvd p)]
      exact holds_nil
    · rintro ⟨n, -, -, -, rfl, he⟩
      exact ⟨rfl, he⟩
  · have hvl : validateFixed o m e f p = .ok q ↔ alignUp p f.size < e ∧ Holds m p (pad p f.size) ∧
          (f = .boolean → ∃ u, checkBoolean o m (alignUp p f.size) = .ok u) ∧
          alignUp p f.size + f.size = q := by
      cases f <;> first | exact absurd rfl hby | skip
      all_goals
        simp [validateFixed, bind_eq_ok, require_eq_ok, skipPadding_pad]
    rw [hvl]
    constructor
    · rintro ⟨⟨hlt, hp, hb, rfl⟩, he⟩
      by_cases hbl : f = .boolean
      · subst hbl
        obtain ⟨_, hc⟩ := hb rfl
        obtain ⟨-, n, hn, h⟩ := checkBoolean_eq_ok.1 hc
        have hw : FixedType.word .boolean n = n := by rcases hn with rfl | rfl <;> rfl
        refine ⟨n, ?_, hw, (hen n hw).2 ⟨hp, h⟩, (hlen n).symm, he⟩
        rcases hn with rfl | rfl <;> decide
      · obtain ⟨n, hn, hw, h⟩ := exists_fixed (o := o) hbl (hm.mono hle) he
        exact ⟨n, hn, hw, (hen n hw).2 ⟨hp, h⟩, (hlen n).symm, he⟩
    · rintro ⟨n, -, hw, h, rfl, he⟩
      rw [hlen] at he ⊢
      obtain ⟨hp, h⟩ := (hen n hw).1 h
      refine ⟨⟨?_, hp, ?_, rfl⟩, he⟩
      · have := f.size_pos; omega
      · rintro rfl
        refine ⟨(), checkBoolean_eq_ok.2 ⟨dvd_alignUp, n, ?_, h⟩⟩
        simp only [FixedType.word] at hw
        split at hw <;> omega

/-! ## Strings -/

theorem initConstLen_eq_ok {str : DBusString} :
    DBusString.initConstLen m p n = .ok str ↔ n ≤ stringMaxMaxLength ∧ str = ⟨window m p n, n⟩ := by
  simp only [DBusString.initConstLen, bind_eq_ok, assert_eq_ok, exists_const, pure_eq_ok,
    Except.ok.injEq, eq_comm (b := str)]

theorem validateContents_eq_ok (hs : s ≠ .signature) (h : Holds m p bs) :
    validateContents s ⟨window m p bs.length, bs.length⟩ = .ok u ↔ s.Contents bs := by
  have hbs := (holds_window (Nat.le_succ _)).2 h
  cases s with
  | string =>
    simp [validateContents, stringValidateUtf8_eq (s := ⟨window m p bs.length, bs.length⟩) rfl hbs,
      require_eq_ok, StringType.Contents]
  | objectPath =>
    simp [validateContents, validatePath_eq (s := ⟨window m p bs.length, bs.length⟩) rfl hbs,
      require_eq_ok, StringType.Contents]
  | signature => exact absurd rfl hs

/-- A string or object path is accepted exactly if the bytes there are its encoding. -/
theorem validateString_iff (hs : s ≠ .signature) (hm : Readable m p e) :
    validateString o m e s p = .ok q ↔ ∃ bs, s.Contents bs ∧ bs.length ≤ stringMaxMaxLength ∧
        Holds m p ((Value.str s bs).encode o p) ∧
        q = p + ((Value.str s bs).encode o p).length ∧ q ≤ e := by
  have hal : s.alignment = 4 := by cases s <;> first | rfl | exact absurd rfl hs
  have hen : ∀ bs, (Value.str s bs).encode o p =
      pad p 4 ++ toBytes o 4 bs.length ++ (bs ++ [0]) := fun bs => by
    rw [encode, ty, Ty.alignment, BasicType.alignment, hal, append_assoc]
    cases s <;> first | rfl | exact absurd rfl hs
  have hwr : ∀ n, p + (pad p 4 ++ toBytes o 4 n).length = alignUp p 4 + 4 := fun n => by
    rw [length_append, length_pad, length_toBytes, ← Nat.add_assoc, add_padding (by decide)]
  simp only [validateString, bind_eq_ok, Prod.exists, claimedLen_eq_ok, require_eq_ok,
    initConstLen_eq_ok, derefAt_eq_ok, exists_const, pure_eq_ok, Except.ok.injEq, hen]
  constructor
  · rintro ⟨n, _, ⟨rfl, he, hn, h⟩, hle, _, ⟨hmx, rfl⟩, _, hc, hne, _, hnl, rfl, rfl⟩
    obtain ⟨bs, rfl, hbs⟩ := (hm.mono (le_alignUp (by decide))).holds (n := n)
      (Nat.le_add_right (alignUp p 4) 4) (by omega)
    refine ⟨bs, (validateContents_eq_ok hs hbs).1 hc, hmx, ?_, ?_, by omega⟩
    · refine holds_append.2 ⟨h, ?_⟩
      rw [hwr]
      exact holds_append.2 ⟨hbs, holds_cons.2 ⟨hnl, holds_nil⟩⟩
    · rw [length_append, ← Nat.add_assoc, hwr]
      simp [Nat.add_assoc]
  · rintro ⟨bs, hc, hmx, h, rfl, he⟩
    rw [length_append, ← Nat.add_assoc, hwr, length_append, length_singleton] at he
    obtain ⟨hw, htx⟩ := holds_append.1 h
    rw [hwr, holds_append, holds_cons] at htx
    obtain ⟨hbs, hnl, -⟩ := htx
    have hlt : bs.length < 2 ^ 32 := hmx.trans_lt (by decide)
    refine ⟨bs.length, _, ⟨rfl, by omega, hlt, hw⟩, by omega, _, ⟨hmx, rfl⟩,
      (), (validateContents_eq_ok hs hbs).2 hc, by omega, 0, hnl, rfl, ?_⟩
    rw [length_append, ← Nat.add_assoc, hwr]
    simp [Nat.add_assoc]

theorem holds_sigBytes :
    Holds m p (sigBytes cs) ↔ m p = some (UInt8.ofNat cs.length) ∧ Holds m (p + 1) (cs ++ [0]) :=
  holds_cons

theorem toNat_length (h : cs.length ≤ maximumSignatureLength) :
    (UInt8.ofNat cs.length).toNat = cs.length := by
  unfold maximumSignatureLength at h
  rw [UInt8.toNat_ofNat', Nat.mod_eq_of_lt (by omega)]

theorem validateSignature_window (hl : cs.length < 256) (h : Holds m p (cs ++ [0])) :
    validateSignature ⟨window m p cs.length, cs.length⟩ 0 cs.length = .ok u ↔ ValidSignature cs :=
  validateSignature_iff (s := ⟨window m p cs.length, cs.length⟩) (by omega) (by simp)
    ((holds_window (by simp)).2 h)

theorem exists_signature {c : UInt8} (hm : Readable m p e) (hle : c.toNat + 1 ≤ e - (p + 1))
    (hc : m p = some c) (hnl : m (p + 1 + c.toNat) = some 0) :
    ∃ cs : List UInt8, cs.length = c.toNat ∧ Holds m p (sigBytes cs) := by
  obtain ⟨cs, hl, hcs⟩ := hm.holds (q := p + 1) (n := c.toNat) (Nat.le_succ p) (by omega)
  refine ⟨cs, hl, holds_sigBytes.2 ⟨?_, holds_append.2 ⟨hcs, holds_cons.2 ⟨?_, holds_nil⟩⟩⟩⟩
  · rw [hl, UInt8.ofNat_toNat, hc]
  · rw [hl, hnl]

theorem validateSignatureValue_iff (hm : Readable m p e) : validateSignatureValue m e p = .ok q ↔
      ∃ cs, ValidSignature cs ∧ Holds m p ((Value.str .signature cs).encode o p) ∧
        q = p + ((Value.str .signature cs).encode o p).length ∧ q ≤ e := by
  have hen : ∀ cs, (Value.str .signature cs).encode o p = sigBytes cs := fun cs => by
    rw [encode_of_dvd (Nat.one_dvd p), content]
  simp only [validateSignatureValue, bind_eq_ok, require_eq_ok, assert_eq_ok, initConstLen_eq_ok,
    derefAt_eq_ok, exists_const, pure_eq_ok, Except.ok.injEq, hen, length_sigBytes]
  constructor
  · rintro ⟨c, hc, hle, _, ⟨hmx, rfl⟩, _, hv, hlt, _, hnl, rfl, rfl⟩
    obtain ⟨cs, hl, h⟩ := exists_signature hm hle hc hnl
    have := c.toNat_lt
    rw [← hl] at hv
    exact ⟨cs, (validateSignature_window (by omega) (holds_sigBytes.1 h).2).1 hv, h, by omega, by omega⟩
  · rintro ⟨cs, hv, h, rfl, he⟩
    have hl := toNat_length hv.length_le
    have hmx : cs.length < 256 := Nat.lt_succ_of_le hv.length_le
    obtain ⟨hc, htx⟩ := holds_sigBytes.1 h
    have hnl := (holds_cons.1 (holds_append.1 htx).2).1
    refine ⟨_, hc, ?_⟩
    rw [hl]
    exact ⟨by omega, _, ⟨by unfold stringMaxMaxLength; omega, rfl⟩,
      (), (validateSignature_window hmx htx).2 hv, by omega, 0, hnl, rfl, by omega⟩

end

end DBus
