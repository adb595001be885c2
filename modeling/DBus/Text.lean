/-
  The validators of string contents: `_dbus_string_validate_utf8` of
  `dbus-string.c` and `_dbus_validate_path` of `dbus-marshal-validate.c`.

  Each accepts exactly the ranges whose bytes are in its grammar (`IsUtf8`, `IsPath`), and
  looks at no other byte (`Validates`).
-/
import DBus.String
import DBus.Lib.Separated

namespace DBus

open Outcome Memory Separated List

/-! ## UTF-8 -/

/-- `UTF8_COMPUTE`: the mask and the length that the first byte of a character announces. -/
def utf8Compute (c : UInt8) : UInt8 × ℕ :=
  if c < 128 then (0x7f, 1)
  else if c &&& 0xe0 = 0xc0 then (0x1f, 2)
  else if c &&& 0xf0 = 0xe0 then (0x0f, 3)
  else if c &&& 0xf8 = 0xf0 then (0x07, 4)
  else if c &&& 0xfc = 0xf8 then (0x03, 5)
  else if c &&& 0xfe = 0xfc then (0x01, 6)
  else (0, 0)

/-- `UTF8_LENGTH` -/
def utf8Length (c : UInt32) : ℕ :=
  if c < 0x80 then 1
  else if c < 0x800 then 2
  else if c < 0x10000 then 3
  else if c < 0x200000 then 4
  else if c < 0x4000000 then 5
  else 6

/-- `UNICODE_VALID` -/
def unicodeValid (c : UInt32) : Bool :=
  c < 0x110000 && c &&& 0xFFFFF800 != 0xD800 && (c < 0xFDD0 || c > 0xFDEF) &&
    c &&& 0xFFFF != 0xFFFF

/-- The loop of `UTF8_GET` over the `n` bytes from the one numbered `count`;
    a byte that does not continue the character makes the result `-1`. -/
def utf8Get (s : DBusString) (p : ℕ) : ℕ → ℕ → UInt32 → Res UInt32
  | 0, _, result => return result
  | n + 1, count, result => do
    let c ← s.deref (p + count)
    if c &&& 0xc0 ≠ 0x80 then return 0xffffffff
    else utf8Get s p n (count + 1) ((result <<< 6) ||| (c &&& 0x3f).toUInt32)

/-- One iteration of the loop of `_dbus_string_validate_utf8` before `e`: the
    position behind the character, or `none` where the loop breaks. -/
def utf8Char (s : DBusString) (e p : ℕ) : Res (Option ℕ) := do
  let c ← s.deref p
  if c = 0 then return none
  else if c < 128 then return some (p + 1)
  else
    let (mask, charLen) := utf8Compute c
    if charLen = 0 then return none
    else if e - p < charLen then return none
    else do
      let result ← utf8Get s p (charLen - 1) 1 (c &&& mask).toUInt32
      if utf8Length result ≠ charLen then return none
      else if unicodeValid result = false then return none
      else do
        assert (result ≠ 0xffffffff)
        return some (p + charLen)

/-- The loop of `_dbus_string_validate_utf8`: where it ends. -/
def utf8Loop (s : DBusString) (e : ℕ) : ℕ → ℕ → Res ℕ
  | 0, _ => .error .fuel
  | n + 1, p =>
    if p < e then do
      match ← utf8Char s e p with
      | none => return p
      | some p => utf8Loop s e n p
    else return p

/-- `_dbus_string_validate_utf8` -/
def stringValidateUtf8 (s : DBusString) (start len : ℕ) : Res Bool := do
  assert (start ≤ s.len)
  if len > s.len - start then return false
  else do
    let p ← utf8Loop s (start + len) (len + 1) start
    return p == start + len

/-- A string of valid UTF-8, by the verdict of the validator. -/
def Utf8Valid (bs : List UInt8) : Prop := stringValidateUtf8 (.ofBody bs) 0 bs.length = .ok true

instance (bs : List UInt8) : Decidable (Utf8Valid bs) := inferInstanceAs (Decidable (_ = _))

/-! ### What is valid -/

/-- The validator `f` accepts exactly the ranges whose bytes are in `G`, and looks at no
    other byte. -/
def Validates (f : DBusString → ℕ → ℕ → Res Bool) (G : List UInt8 → Prop) : Prop :=
  ∀ {s : DBusString} {p : ℕ} {bs : List UInt8}, Holds s.str p bs → p + bs.length ≤ s.len →
    ∃ b, f s p bs.length = .ok b ∧ (b = true ↔ G bs)

variable {bs : List UInt8} {s : DBusString}

section
variable {f : DBusString → ℕ → ℕ → Res Bool} {G : List UInt8 → Prop}

theorem Validates.iff (h : Validates f G) : f (.ofBody bs) 0 bs.length = .ok true ↔ G bs := by
  obtain ⟨b, hb, hG⟩ := h (s := .ofBody bs) holds_ofList (Nat.zero_add _).le
  rw [hb, Except.ok.injEq, hG]

theorem Validates.eq (h : Validates f G) {s : DBusString} {p : ℕ} (hm : Holds s.str p bs)
    (hlen : p + bs.length ≤ s.len) :
    f s p bs.length = .ok (decide (f (.ofBody bs) 0 bs.length = .ok true)) := by
  obtain ⟨b, hb, hG⟩ := h hm hlen
  rw [hb, Except.ok.injEq, Bool.eq_iff_iff, hG, decide_eq_true_iff, h.iff]

end

/-- The characters that a text may have: not NUL, and none of the noncharacters that
    `UNICODE_VALID` excludes. -/
def TextChar (c : Char) : Prop :=
  c.val ≠ 0 ∧ ¬ (0xFDD0 ≤ c.val ∧ c.val ≤ 0xFDEF) ∧ c.val &&& 0xFFFF ≠ 0xFFFF

/-- The encodings of characters, one behind the other. -/
def IsUtf8 (bs : List UInt8) : Prop :=
  ∃ cs : List Char, (∀ c ∈ cs, TextChar c) ∧ bs = cs.flatMap String.utf8EncodeChar

/-! ### One character -/

/-- What is decided of the 256 bytes is decided of all. -/
instance (priority := low) decidableForallByte {p : UInt8 → Prop} [DecidablePred p] :
    Decidable (∀ b, p b) :=
  decidable_of_iff (∀ n : Fin 256, p (UInt8.ofNat n)) ⟨fun h b => by
    have := h ⟨b.toNat, b.toNat_lt_size⟩
    rwa [UInt8.ofNat_toNat] at this, fun h _ => h _⟩

theorem unicodeValid_iff (r : UInt32) : unicodeValid r = true ↔ r.isValidChar ∧
    ¬ (0xFDD0 ≤ r ∧ r ≤ 0xFDEF) ∧ r &&& 0xFFFF ≠ 0xFFFF := by
  have hsr : r &&& 0xFFFFF800 = 0xD800 ↔ r.toNat / 2048 = 27 := by
    have h : (r &&& 0xFFFFF800).toBitVec = (r.toBitVec >>> 11) <<< 11 := by
      rw [BitVec.shiftLeft_ushiftRight]
      rfl
    rw [← UInt32.toBitVec_inj, h, ← BitVec.toNat_inj]
    simp [Nat.shiftRight_eq_div_pow, Nat.shiftLeft_eq]
    have := r.toNat_lt
    omega
  simp only [unicodeValid, Bool.and_eq_true, Bool.or_eq_true, decide_eq_true_eq, bne_iff_ne, ne_eq,
    hsr, UInt32.isValidChar, Nat.isValidChar, UInt32.lt_iff_toNat_lt,
    UInt32.le_iff_toNat_le, UInt32.reduceToNat, gt_iff_lt]
  rw [← and_assoc]
  refine and_congr_left' ?_
  omega

theorem utf8Length_iff (r : UInt32) : (utf8Length r = 1 ↔ r.toNat < 0x80) ∧
    (utf8Length r = 2 ↔ 0x80 ≤ r.toNat ∧ r.toNat < 0x800) ∧
    (utf8Length r = 3 ↔ 0x800 ≤ r.toNat ∧ r.toNat < 0x10000) ∧
    (utf8Length r = 4 ↔ 0x10000 ≤ r.toNat ∧ r.toNat < 0x200000) := by
  simp only [utf8Length, UInt32.lt_iff_toNat_lt, UInt32.reduceToNat]
  split_ifs <;> omega

theorem utf8Size_eq (c : Char) : c.utf8Size = utf8Length c.val := by
  have hvl : c.toNat < 0xD800 ∨ 0xDFFF < c.toNat ∧ c.toNat < 0x110000 := c.valid
  simp only [Char.utf8Size, utf8Length, UInt32.lt_iff_toNat_lt, UInt32.le_iff_toNat_le]
  simp
  split_ifs <;> omega

/-- The checks behind `UTF8_GET` are for the characters of this length. -/
theorem textChar_iff {r : UInt32} {n : ℕ} : (∃ c : Char, TextChar c ∧ c.val = r ∧ c.utf8Size = n) ↔
    r ≠ 0 ∧ utf8Length r = n ∧ unicodeValid r = true := by
  rw [unicodeValid_iff]
  constructor
  · rintro ⟨c, ⟨hz, hch⟩, rfl, rfl⟩
    exact ⟨hz, (utf8Size_eq c).symm, c.valid, hch⟩
  · rintro ⟨hz, rfl, hvl, hch⟩
    exact ⟨⟨r, hvl⟩, ⟨hz, hch⟩, rfl, utf8Size_eq _⟩

theorem utf8EncodeChar_prefix_iff {c : Char} {l : List UInt8} :
    String.utf8EncodeChar c <+: l ↔ l.toByteArray.utf8DecodeChar? 0 = some c := by
  constructor
  · rintro ⟨rest, rfl⟩
    rw [toByteArray_append]
    exact ByteArray.utf8DecodeChar?_utf8EncodeChar_append
  · intro h
    obtain ⟨⟨rest⟩, hl⟩ := ByteArray.exists_of_utf8DecodeChar?_eq_some h
    refine ⟨rest.toList, toByteArray_inj.1 ?_⟩
    rw [hl, toByteArray_append]
    exact congrArg _ (ByteArray.ext (by simp))

/-- What a byte adds to a character. -/
def utf8Push (r : UInt32) (c : UInt8) : UInt32 := (r <<< 6) ||| (c &&& 0x3f).toUInt32

theorem utf8Push_lt {r : UInt32} {k : ℕ} (x : UInt8) (h : r.toNat < 2 ^ k) (hk : k ≤ 26) :
    (utf8Push r x).toNat < 2 ^ (k + 6) := by
  have hx : ∀ x : UInt8, (x &&& 0x3f).toNat < 2 ^ 6 := by decide +kernel
  rw [utf8Push, UInt32.toNat_or]
  refine Nat.or_lt_two_pow ?_ ((hx x).trans_le (Nat.pow_le_pow_right (by decide) (by omega)))
  rw [UInt32.toNat_shiftLeft]
  refine (Nat.mod_le _ _).trans_lt ?_
  simp only [UInt32.reduceToNat, Nat.reduceMod, Nat.shiftLeft_eq, pow_add]
  exact Nat.mul_lt_mul_of_pos_right h (by decide)

theorem utf8Push_utf8Push (r : UInt32) (x y : UInt8) : utf8Push (utf8Push r x) y =
    r <<< 12 ||| (x &&& 0x3f).toUInt32 <<< 6 ||| (y &&& 0x3f).toUInt32 := by
  rw [← UInt32.toBitVec_inj]
  simp [utf8Push, BitVec.shiftLeft_or_distrib, ← BitVec.shiftLeft_add]

section
variable {p : ℕ} {b : UInt8}

open ByteArray.utf8DecodeChar?

/-- The first byte says how many bytes follow. -/
theorem utf8Compute_eq (b : UInt8) : match parseFirstByte b with
    | .done => b &&& 0x7f = b ∧ utf8Compute b = (0x7f, 1)
    | .oneMore => utf8Compute b = (0x1f, 2)
    | .twoMore => utf8Compute b = (0x0f, 3)
    | .threeMore => utf8Compute b = (0x07, 4)
    | .invalid => (utf8Compute b).2 = 0 ∨ 4 < (utf8Compute b).2 := by
  have hac : ∀ b : UInt8, b < 128 ↔ b &&& 0x80 = 0 := by decide +kernel
  have hm : ∀ b : UInt8, b < 128 → b &&& 0x7f = b := by decide +kernel
  simp only [parseFirstByte, utf8Compute, beq_iff_eq, ← hac]
  split_ifs with h <;> simp
  exact hm b h

/-- The character at the beginning, if there is one, is made of the bits that `UTF8_GET`
    puts together. -/
theorem utf8Decode_iff {mask : UInt8} {k : ℕ} {c : Char} (hk : utf8Compute b = (mask, k)) :
    (b :: bs).toByteArray.utf8DecodeChar? 0 = some c ↔ k ≤ bs.length + 1 ∧
      (∀ x ∈ bs.take (k - 1), x &&& 0xc0 = 0x80) ∧
      c.val = (bs.take (k - 1)).foldl utf8Push (b &&& mask).toUInt32 ∧ c.utf8Size = k := by
  have hl := utf8Compute_eq b
  have hm : ∀ b : UInt8, (b &&& 0x1f).toNat < 2 ^ 5 ∧ (b &&& 0x0f).toNat < 2 ^ 4 ∧
      (b &&& 0x7f).toNat < 2 ^ 7 := by decide +kernel
  have hvl := c.valid
  have hva : c.val.toNat = c.toNat := rfl
  have hlen := utf8Length_iff c.val
  rw [← utf8Size_eq] at hlen
  rw [hk] at hl
  rw [ByteArray.utf8DecodeChar?, dif_pos (by simp)]
  simp only [getElem_toByteArray, getElem_cons_zero]
  split
  all_goals
    rename_i h
    rw [getElem_toByteArray, getElem_cons_zero] at h
    simp only [h] at hl
  · refine iff_of_false nofun fun h => ?_
    have := c.utf8Size_le_four
    have := c.utf8Size_pos
    omega
  · obtain ⟨hb, hl⟩ := hl
    obtain ⟨rfl, rfl⟩ := Prod.mk.inj hl
    have hlt := (hm b).2.2
    rw [hb] at hlt ⊢
    simp [assemble₁, Char.ext_iff, hlen, ← UInt32.toNat_inj]
    omega
  · obtain ⟨rfl, rfl⟩ := Prod.mk.inj hl
    rcases bs with _ | ⟨x, rest⟩
    · simp
    have hr : [x].foldl utf8Push (b &&& 0x1f).toUInt32 = assemble₂Unchecked b x := rfl
    have hlt : (assemble₂Unchecked b x).toNat < 2 ^ 11 := utf8Push_lt x (hm b).1 (by decide)
    rw [show (x :: rest).take 1 = [x] from rfl, hr]
    simp [assemble₂, isInvalidContinuationByte, Char.ext_iff, hlen, UInt32.le_iff_toNat_le,
      ← UInt32.toNat_inj]
    omega
  · obtain ⟨rfl, rfl⟩ := Prod.mk.inj hl
    rcases bs with _ | ⟨x, _ | ⟨y, rest⟩⟩
    iterate 2 simp
    have hr : [x, y].foldl utf8Push (b &&& 0x0f).toUInt32 = assemble₃Unchecked b x y :=
      utf8Push_utf8Push ..
    have hlt : ([x, y].foldl utf8Push (b &&& 0x0f).toUInt32).toNat < 2 ^ 16 :=
      utf8Push_lt y (utf8Push_lt x (hm b).2.1 (by decide)) (by decide)
    rw [hr] at hlt
    rw [show (x :: y :: rest).take 2 = [x, y] from rfl, hr]
    simp [assemble₃, isInvalidContinuationByte, Char.ext_iff, hlen, UInt32.le_iff_toNat_le,
      UInt32.lt_iff_toNat_lt, ← UInt32.toNat_inj]
    omega
  · obtain ⟨rfl, rfl⟩ := Prod.mk.inj hl
    rcases bs with _ | ⟨x, _ | ⟨y, _ | ⟨z, rest⟩⟩⟩
    iterate 3 simp
    have hr : [x, y, z].foldl utf8Push (b &&& 0x07).toUInt32 = assemble₄Unchecked b x y z := by
      change utf8Push (utf8Push (utf8Push _ x) y) z = _
      rw [utf8Push, utf8Push_utf8Push, assemble₄Unchecked, ← UInt32.toBitVec_inj]
      simp [BitVec.shiftLeft_or_distrib, ← BitVec.shiftLeft_add]
    rw [show (x :: y :: z :: rest).take 3 = [x, y, z] from rfl, hr]
    simp [assemble₄, isInvalidContinuationByte, Char.ext_iff, hlen, UInt32.le_iff_toNat_le,
      ← UInt32.toNat_inj, and_assoc]
    omega

theorem utf8Get_eq (cs : List UInt8) {count : ℕ} {r : UInt32} (h : Holds s.str (p + count) cs) :
    utf8Get s p cs.length count r = .ok (if cs.all (· &&& 0xc0 = 0x80) then cs.foldl utf8Push r
      else 0xffffffff) := by
  induction cs generalizing count r with
  | nil => simp [utf8Get]
  | cons x cs ih =>
    obtain ⟨hx, hcs⟩ := holds_cons.1 h
    rw [length_cons, utf8Get, DBusString.deref_eq_ok.2 hx, ok_bind]
    by_cases hcn : x &&& 0xc0 = 0x80
    · rw [if_neg (not_not.2 hcn), ih hcs]
      simp [hcn, utf8Push]
    · simp [hcn]

/-- An iteration goes over the encoding of a character, or breaks the loop. -/
theorem utf8Char_exact (h : Holds s.str p (b :: bs)) :
    ∃ o, utf8Char s (p + (b :: bs).length) p = .ok o ∧ ∀ q, o = some q ↔
      ∃ c, TextChar c ∧ String.utf8EncodeChar c <+: b :: bs ∧ q = p + c.utf8Size := by
  obtain ⟨hp, hbs⟩ := holds_cons.1 h
  rcases hk : utf8Compute b with ⟨mask, k⟩
  obtain ⟨r, hr⟩ : ∃ r, (bs.take (k - 1)).foldl utf8Push (b &&& mask).toUInt32 = r := ⟨_, rfl⟩
  -- the checks, for the bytes that are announced
  have hrg (q : ℕ) : (∃ c, TextChar c ∧ String.utf8EncodeChar c <+: b :: bs ∧ q = p + c.utf8Size) ↔
      (k ≤ bs.length + 1 ∧ ∀ x ∈ bs.take (k - 1), x &&& 0xc0 = 0x80) ∧
      (r ≠ 0 ∧ utf8Length r = k ∧ unicodeValid r = true) ∧ q = p + k := by
    simp only [utf8EncodeChar_prefix_iff, utf8Decode_iff hk, hr, ← textChar_iff]
    constructor
    · rintro ⟨c, htx, ⟨hrm, hcn, hvl, rfl⟩, rfl⟩
      exact ⟨⟨hrm, hcn⟩, ⟨c, htx, hvl, rfl⟩, rfl⟩
    · rintro ⟨⟨hrm, hcn⟩, ⟨c, htx, hvl, rfl⟩, rfl⟩
      exact ⟨c, htx, ⟨hrm, hcn, hvl, rfl⟩, rfl⟩
  have ho : ∀ b : UInt8, ((utf8Compute b).2 = 1 → b < 128) ∧ (b < 128 →
      utf8Compute b = (0x7f, 1) ∧ ((b &&& 0x7f).toUInt32 = 0 ↔ b = 0) ∧
      utf8Length (b &&& 0x7f).toUInt32 = 1 ∧ unicodeValid (b &&& 0x7f).toUInt32 = true) := by
    decide +kernel
  simp only [hrg]
  rw [utf8Char, DBusString.deref_eq_ok.2 hp, ok_bind, hk]
  by_cases hac : b < 128
  · obtain ⟨hcm, hz, hl, hv⟩ := (ho b).2 hac
    obtain ⟨rfl, rfl⟩ := Prod.mk.inj (hk.symm.trans hcm)
    obtain rfl : (b &&& 0x7f).toUInt32 = r := hr
    by_cases hb : b = 0
    · exact ⟨none, if_pos hb, by simp [hb]⟩
    · refine ⟨some (p + 1), by rw [if_neg hb, if_pos hac]; rfl, fun q => ?_⟩
      rw [Ne, hz, and_iff_right ⟨by simp, by simp⟩, and_iff_right ⟨hb, hl, hv⟩, Option.some.injEq,
        eq_comm]
  · have hz : b ≠ 0 := by
      rintro rfl
      exact hac (by decide)
    have hrz : utf8Length r = k → r ≠ 0 := by
      rintro rfl rfl
      exact hac ((ho b).1 (by rw [hk]; rfl))
    rw [if_neg hz, if_neg hac]
    simp only [length_cons, Nat.add_sub_cancel_left]
    by_cases hrm : k = 0 ∨ bs.length + 1 < k
    · refine ⟨none, ?_, ?_⟩
      · rcases hrm with hrm | hrm
        · exact if_pos hrm
        · rw [if_neg (by omega)]
          exact if_pos hrm
      · rintro q
        refine iff_of_false (by simp) ?_
        rintro ⟨⟨hle, -⟩, ⟨-, rfl, -⟩, -⟩
        have hps : utf8Length r ≠ 0 := by
          unfold utf8Length
          split_ifs <;> simp
        omega
    · have hlen : (bs.take (k - 1)).length = k - 1 := by
        rw [length_take]
        omega
      have hg := utf8Get_eq (bs.take (k - 1)) (r := (b &&& mask).toUInt32)
        (holds_append.1 ((take_append_drop (k - 1) bs).symm ▸ hbs)).1
      rw [hlen, hr] at hg
      rw [if_neg (by omega), if_neg (by omega), hg, ok_bind]
      have hal : (bs.take (k - 1)).all (· &&& 0xc0 = 0x80) = true ↔
          ∀ x ∈ bs.take (k - 1), x &&& 0xc0 = 0x80 := by simp
      by_cases hcn : ∀ x ∈ bs.take (k - 1), x &&& 0xc0 = 0x80
      · rw [if_pos (hal.2 hcn)]
        by_cases hl : utf8Length r = k
        · rw [if_neg (not_not.2 hl)]
          cases hv : unicodeValid r with
          | false => exact ⟨none, rfl, by simp⟩
          | true =>
            have hne : r ≠ 0xffffffff := by
              rintro rfl
              exact absurd hv (by decide)
            refine ⟨some (p + k), by rw [if_neg (by simp), assert_of hne]; rfl, fun q => ?_⟩
            rw [and_iff_right ⟨by omega, hcn⟩, and_iff_right ⟨hrz hl, hl, rfl⟩,
              Option.some.injEq, eq_comm]
        · exact ⟨none, if_pos hl, by simp [hl]⟩
      · have hv : unicodeValid 0xffffffff = false := by decide
        refine ⟨none, ?_, fun q => iff_of_false (by simp) fun h => hcn h.1.2⟩
        rw [if_neg (mt hal.1 hcn), hv, if_pos rfl]
        exact ite_self _

theorem isUtf8_append {c : Char} (hc : TextChar c) (h : IsUtf8 bs) :
    IsUtf8 (String.utf8EncodeChar c ++ bs) := by
  obtain ⟨cs, hcs, rfl⟩ := h
  exact ⟨c :: cs, forall_mem_cons.2 ⟨hc, hcs⟩, flatMap_cons.symm⟩

theorem utf8Loop_exact {n : ℕ} (hn : bs.length < n) (h : Holds s.str p bs) :
    ∃ q, utf8Loop s (p + bs.length) n p = .ok q ∧ (q = p + bs.length ↔ IsUtf8 bs) := by
  induction n generalizing p bs with
  | zero => exact absurd hn (Nat.not_lt_zero _)
  | succ n ih =>
    cases bs with
    | nil => exact ⟨p, if_neg (by simp), iff_of_true rfl ⟨[], by simp, rfl⟩⟩
    | cons b bs =>
      obtain ⟨o, hrn, ho⟩ := utf8Char_exact h
      rw [utf8Loop, if_pos (by simp), hrn, ok_bind]
      -- the characters of the bytes begin with the one that is found
      have hfr : IsUtf8 (b :: bs) → ∃ c cs, TextChar c ∧ IsUtf8 cs ∧
          b :: bs = String.utf8EncodeChar c ++ cs ∧ o = some (p + c.utf8Size) := by
        rintro ⟨_ | ⟨c, cs⟩, hcs, hbs⟩
        · cases hbs
        · obtain ⟨hc, hcs⟩ := forall_mem_cons.1 hcs
          exact ⟨c, _, hc, ⟨cs, hcs, rfl⟩, hbs, (ho _).2 ⟨c, hc, ⟨_, hbs.symm⟩, rfl⟩⟩
      cases o with
      | none =>
        refine ⟨p, rfl, iff_of_false (by simp) fun h => ?_⟩
        obtain ⟨c, cs, -, -, -, hnn⟩ := hfr h
        cases hnn
      | some q =>
        obtain ⟨c, hc, ⟨rest, hrs⟩, rfl⟩ := (ho q).1 rfl
        have hsz := String.length_utf8EncodeChar c
        have hp := c.utf8Size_pos
        rw [← hrs] at h hn hfr ⊢
        rw [length_append] at hn
        obtain ⟨q, hl, hq⟩ := ih (by omega) (holds_append.1 h).2
        rw [Nat.add_assoc, ← length_append, hsz] at hl
        rw [Nat.add_assoc, ← length_append] at hq
        refine ⟨q, hl, hq.trans ⟨isUtf8_append hc, fun h => ?_⟩⟩
        obtain ⟨c', cs, -, hcs, heq, hq'⟩ := hfr h
        rw [Option.some.injEq, Nat.add_left_cancel_iff] at hq'
        have hsz' := String.length_utf8EncodeChar c'
        exact (append_inj heq (by omega)).2 ▸ hcs

theorem stringValidateUtf8_exact : Validates stringValidateUtf8 IsUtf8 := by
  intro s p bs h hlen
  obtain ⟨q, hl, hq⟩ := utf8Loop_exact (Nat.lt_succ_self _) h
  refine ⟨q == p + bs.length, ?_, by rw [beq_iff_eq, hq]⟩
  rw [stringValidateUtf8, assert_bind (by omega), if_neg (by omega), hl]
  rfl

end

/-- **UTF-8 validation is exact**: of a range that lies in the string it says whether its
    bytes are encodings of characters, also if no byte outside of it can be read. -/
theorem stringValidateUtf8_iff (s : DBusString) (start : ℕ) (bs : List UInt8)
    (h : Holds s.str start bs) (hlen : start + bs.length ≤ s.len) :
    ∃ b, stringValidateUtf8 s start bs.length = .ok b ∧ (b = true ↔ IsUtf8 bs) :=
  stringValidateUtf8_exact h hlen

/-- The two bytes of `é`, and nothing else that can be read. -/
def accent : DBusString := ⟨restrict (ofList [0, 0xc3, 0xa9]) 1 3, 3⟩

theorem stringValidateUtf8_accent : Holds accent.str 1 [0xc3, 0xa9] ∧
    stringValidateUtf8 accent 1 2 = .ok true ∧ IsUtf8 [0xc3, 0xa9] := by
  have h : Holds accent.str 1 [0xc3, 0xa9] := holds_cons.2 ⟨rfl, holds_cons.2 ⟨rfl, holds_nil⟩⟩
  obtain ⟨b, hb, hi⟩ := stringValidateUtf8_iff accent 1 [0xc3, 0xa9] h (by decide)
  have htr : stringValidateUtf8 accent 1 2 = .ok true := by rfl
  cases htr.symm.trans hb
  exact ⟨h, htr, hi.1 rfl⟩

theorem stringValidateUtf8_eq (hl : s.len = bs.length) (h : Holds s.str 0 bs) :
    stringValidateUtf8 s 0 bs.length = .ok (decide (Utf8Valid bs)) :=
  stringValidateUtf8_exact.eq h (by omega)

theorem TextChar.zero_notMem {c : Char} (h : TextChar c) : 0 ∉ String.utf8EncodeChar c := by
  have hvl : c.val.toNat = c.toNat := rfl
  have hz : c.toNat ≠ 0 := fun hc => h.1 (UInt32.toNat_inj.1 hc)
  unfold String.utf8EncodeChar
  dsimp only
  split_ifs <;> simp [← UInt8.toNat_inj] <;> omega

theorem Utf8Valid.zero_notMem (h : Utf8Valid bs) : 0 ∉ bs := by
  obtain ⟨cs, hcs, rfl⟩ := stringValidateUtf8_exact.iff.1 h
  rw [mem_flatMap]
  rintro ⟨c, hc, hz⟩
  exact (hcs c hc).zero_notMem hz

/-! ## Object paths -/

/-- `VALID_NAME_CHARACTER` -/
def validNameCharacter (c : UInt8) : Bool :=
  ('0'.toUInt8 ≤ c && c ≤ '9'.toUInt8) || ('A'.toUInt8 ≤ c && c ≤ 'Z'.toUInt8) ||
    ('a'.toUInt8 ≤ c && c ≤ 'z'.toUInt8) || c == '_'.toUInt8

/-- The loop of `_dbus_validate_path` over `n` bytes from `p` on: the last slash
    at its end, or `none` where it returns false. -/
def pathLoop (s : DBusString) : ℕ → ℕ → ℕ → Res (Option ℕ)
  | 0, _, lastSlash => return some lastSlash
  | n + 1, p, lastSlash => do
    let c ← s.deref p
    if c = '/'.toUInt8 then
      if p - lastSlash < 2 then return none else pathLoop s n (p + 1) p
    else if validNameCharacter c = false then return none
    else pathLoop s n (p + 1) lastSlash

/-- The verdict of `_dbus_validate_path` behind its loop. -/
def pathFinish (start len : ℕ) : Option ℕ → Bool
  | none => false
  | some lastSlash => !(start + len - lastSlash < 2 && len > 1)

/-- `_dbus_validate_path` -/
def validatePath (s : DBusString) (start len : ℕ) : Res Bool := do
  assert (start ≤ s.len)
  if len > s.len - start then return false
  else if len = 0 then return false
  else do
    let c ← s.deref start
    if c ≠ '/'.toUInt8 then return false
    else do
      let lastSlash ← pathLoop s (len - 1) (start + 1) start
      return pathFinish start len lastSlash

/-- A valid object path, by the verdict of the validator. -/
def PathValid (bs : List UInt8) : Prop := validatePath (.ofBody bs) 0 bs.length = .ok true

instance (bs : List UInt8) : Decidable (PathValid bs) := inferInstanceAs (Decidable (_ = _))

/-- The elements of a path: not empty, of letters, digits and underscores. -/
def PathElement (e : List UInt8) : Prop := e ≠ [] ∧ ∀ c ∈ e, validNameCharacter c = true

/-- The root, or elements behind a slash each. -/
def IsPath (bs : List UInt8) : Prop :=
  bs = ['/'.toUInt8] ∨ ∃ rest, bs = '/'.toUInt8 :: rest ∧
    Joined '/'.toUInt8 PathElement PathElement rest

theorem pathLoop_exact {rest : List UInt8} {p l : ℕ} (h : Holds s.str p rest) :
    ∃ o, pathLoop s rest.length p l = .ok o ∧ ((∃ l', o = some l' ∧ l' + 2 ≤ p + rest.length) ↔
        Joined '/'.toUInt8 (fun e => l + 2 ≤ p + e.length ∧ ∀ c ∈ e, validNameCharacter c = true)
          PathElement rest) := by
  induction rest generalizing p l with
  | nil => exact ⟨some l, rfl, by simp [joined_nil]⟩
  | cons c rest ih =>
    obtain ⟨hc, hrs⟩ := holds_cons.1 h
    rw [length_cons, pathLoop, DBusString.deref_eq_ok.2 hc, ok_bind, joined_cons]
    have hend : p + (rest.length + 1) = p + 1 + rest.length := by omega
    by_cases hsl : c = '/'.toUInt8
    · subst hsl
      -- an element ends here, and the next one begins behind the slash
      have hsl : ¬ validNameCharacter '/'.toUInt8 = true := by decide
      have hnn : ¬ Joined '/'.toUInt8 (fun e => l + 2 ≤ p + ('/'.toUInt8 :: e).length ∧
          ∀ c ∈ '/'.toUInt8 :: e, validNameCharacter c = true) PathElement rest := by
        rintro ⟨e, -, -, ⟨-, hal⟩, -⟩
        exact hsl (hal _ mem_cons_self)
      rw [if_pos rfl, or_iff_left hnn]
      by_cases hfr : p - l < 2
      · refine ⟨none, by rw [if_pos hfr]; rfl, by simp; omega⟩
      · obtain ⟨o, ho, hi⟩ := ih (l := p) hrs
        refine ⟨o, by rw [if_neg hfr]; exact ho, ?_⟩
        rw [hend, hi, joined_congr (R := PathElement)]
        · exact ⟨fun h => ⟨rfl, ⟨by simp; omega, by simp⟩, h⟩, fun h => h.2.2⟩
        · intro e
          exact and_congr_left' (by rw [← length_pos_iff]; omega)
    · rw [if_neg hsl, or_iff_right fun h => hsl h.1]
      by_cases hv : validNameCharacter c = false
      · refine ⟨none, by rw [if_pos hv]; rfl, ⟨fun ⟨_, h, _⟩ => (by cases h), ?_⟩⟩
        rintro ⟨e, -, -, ⟨-, hal⟩, -⟩
        rw [hal c mem_cons_self] at hv
        cases hv
      · obtain ⟨o, ho, hi⟩ := ih (l := l) hrs
        refine ⟨o, by rw [if_neg hv]; exact ho, ?_⟩
        rw [hend, hi]
        refine joined_congr fun e => ?_
        rw [Bool.not_eq_false] at hv
        simp only [length_cons, forall_mem_cons, hv, true_and]
        exact and_congr_left' (by omega)

theorem validatePath_exact : Validates validatePath IsPath := by
  intro s p bs h hlen
  rw [validatePath, assert_bind (by omega), if_neg (by omega)]
  cases bs with
  | nil => exact ⟨false, rfl, by simp [IsPath]⟩
  | cons c rest =>
    obtain ⟨hc, hrs⟩ := holds_cons.1 h
    rw [if_neg (by simp), DBusString.deref_eq_ok.2 hc, ok_bind]
    by_cases hsl : c = '/'.toUInt8
    · subst hsl
      obtain ⟨o, ho, hi⟩ := pathLoop_exact (l := p) hrs
      have hl : pathLoop s (('/'.toUInt8 :: rest).length - 1) (p + 1) p = .ok o := ho
      refine ⟨pathFinish p ('/'.toUInt8 :: rest).length o, by
        rw [if_neg (not_not.2 rfl), hl]; rfl, ?_⟩
      have hj : Joined '/'.toUInt8 PathElement PathElement rest ↔
          ∃ l', o = some l' ∧ l' + 2 ≤ p + 1 + rest.length := by
        rw [hi]
        refine joined_congr fun e => and_congr_left' ?_
        rw [← length_pos_iff]
        omega
      simp only [IsPath, List.cons.injEq, true_and, exists_eq_left', hj]
      cases o with
      | none =>
        cases rest with
        | nil => cases ho
        | cons c rest => simp [pathFinish]
      | some l =>
        simp only [pathFinish, length_cons, Option.some.injEq, exists_eq_left',
          ← length_eq_zero_iff, Bool.not_eq_true', Bool.and_eq_false_iff,
          decide_eq_false_iff_not]
        omega
    · refine ⟨false, by rw [if_pos hsl]; rfl, ?_⟩
      simp [IsPath, hsl]

theorem validatePath_eq (hl : s.len = bs.length) (h : Holds s.str 0 bs) :
    validatePath s 0 bs.length = .ok (decide (PathValid bs)) :=
  validatePath_exact.eq h (by omega)

theorem pathValid_iff : PathValid bs ↔ IsPath bs := validatePath_exact.iff

theorem PathElement.zero_notMem {e : List UInt8} (h : PathElement e) : 0 ∉ e := fun h₀ =>
  absurd (h.2 0 h₀) (by decide)

theorem PathValid.zero_notMem (h : PathValid bs) : 0 ∉ bs := by
  have hsl : (0 : UInt8) ≠ '/'.toUInt8 := by decide
  rcases pathValid_iff.1 h with rfl | ⟨rest, rfl, e, es, rfl, he, hes⟩
  · decide
  · simp only [mem_cons, mem_append, mem_flatMap, hsl, he.zero_notMem, false_or]
    rintro ⟨x, hx, hx₀⟩
    exact (hes x hx).zero_notMem hx₀

end DBus
