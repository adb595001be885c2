/-
  Names of interfaces, members, errors and connections
  (`dbus-marshal-validate.c`).

  The validators of dotted names share one loop.  The grammars are those of the specification
  (`validateNames_exact`), but for the names behind a colon, which may have a single element
  and an empty first one.
-/
import DBus.Text

namespace DBus

open Outcome Memory Separated List DBusString

/-- `DBUS_MAXIMUM_NAME_LENGTH` -/
def maximumNameLength : ℕ := 255

/-- `VALID_INITIAL_NAME_CHARACTER` -/
def validInitialNameCharacter (c : UInt8) : Bool :=
  ('A'.toUInt8 ≤ c && c ≤ 'Z'.toUInt8) || ('a'.toUInt8 ≤ c && c ≤ 'z'.toUInt8) ||
    c == '_'.toUInt8

/-- `VALID_INITIAL_BUS_NAME_CHARACTER` -/
def validInitialBusNameCharacter (c : UInt8) : Bool :=
  validInitialNameCharacter c || c == '-'.toUInt8

/-- `VALID_BUS_NAME_CHARACTER` -/
def validBusNameCharacter (c : UInt8) : Bool := validNameCharacter c || c == '-'.toUInt8

section
variable (initial inner : UInt8 → Bool)

/-- The loop over the `n` bytes of a dotted name from `p` on, `initial` telling the
    bytes that may follow a dot and `inner` those of an element: whether there was a
    dot, or `none` where the validator returns false. -/
def dottedLoop (s : DBusString) : ℕ → ℕ → Bool → Res (Option Bool)
  | 0, _, lastDot => return some lastDot
  | 1, p, lastDot => do
    let c ← s.deref p
    if c = '.'.toUInt8 then return none
    else if inner c = false then return none
    else return some lastDot
  | n + 2, p, lastDot => do
    let c ← s.deref p
    if c = '.'.toUInt8 then do
      let c ← s.deref (p + 1)
      if initial c = false then return none else dottedLoop s n (p + 2) true
    else if inner c = false then return none
    else dottedLoop s (n + 1) (p + 1) lastDot

/-- The bytes of a name behind its first one, which must not be a dot. -/
def dottedName (s : DBusString) (start len : ℕ) : Res Bool := do
  let c ← s.deref start
  if c = '.'.toUInt8 then return false
  else if initial c = false then return false
  else do
    let lastDot ← dottedLoop initial inner s (len - 1) (start + 1) false
    return lastDot.getD false

end

/-- What the validators of names check first: that the range lies in the string and
    has an admissible length. -/
def nameRange (check : DBusString → ℕ → ℕ → Res Bool) (s : DBusString) (start len : ℕ) :
    Res Bool := do
  assert (start ≤ s.len)
  if len > s.len - start then return false
  else if len > maximumNameLength then return false
  else if len = 0 then return false
  else check s start len

/-- `_dbus_validate_interface` -/
def validateInterface : DBusString → ℕ → ℕ → Res Bool :=
  nameRange (dottedName validInitialNameCharacter validNameCharacter)

/-- `_dbus_validate_error_name` -/
def validateErrorName : DBusString → ℕ → ℕ → Res Bool := validateInterface

/-- The loop of `_dbus_validate_member`. -/
def memberLoop (s : DBusString) : ℕ → ℕ → Res Bool
  | 0, _ => return true
  | n + 1, p => do
    let c ← s.deref p
    if validNameCharacter c = false then return false else memberLoop s n (p + 1)

/-- `_dbus_validate_member` -/
def validateMember : DBusString → ℕ → ℕ → Res Bool :=
  nameRange fun s start len => do
    let c ← s.deref start
    if validInitialNameCharacter c = false then return false
    else memberLoop s (len - 1) (start + 1)

/-- `_dbus_validate_bus_name` -/
def validateBusName : DBusString → ℕ → ℕ → Res Bool :=
  nameRange fun s start len => do
    let c ← s.deref start
    if c = ':'.toUInt8 then do
      let lastDot ← dottedLoop validBusNameCharacter validBusNameCharacter s (len - 1) (start + 1)
        false
      return lastDot.isSome
    else dottedName validInitialBusNameCharacter validBusNameCharacter s start len

/-- The verdict of a validator on the bytes `bs`. -/
def NameValid (validate : DBusString → ℕ → ℕ → Res Bool) (bs : List UInt8) : Prop :=
  validate (.ofBody bs) 0 bs.length = .ok true

instance (validate : DBusString → ℕ → ℕ → Res Bool) (bs : List UInt8) :
    Decidable (NameValid validate bs) := inferInstanceAs (Decidable (_ = _))

/-! ## What the validators accept -/

section
variable {initial inner : UInt8 → Bool} {s : DBusString} {p : ℕ} {bs rest : List UInt8}

section
variable (initial inner : UInt8 → Bool)

/-- An element of a name: a byte that may start it, and bytes that may stand in it. -/
def NameElement (e : List UInt8) : Prop :=
  ∃ c t, e = c :: t ∧ initial c = true ∧ ∀ x ∈ t, inner x = true

/-- Elements separated by dots, with at least one dot. -/
def Dotted (bs : List UInt8) : Prop :=
  Joined '.'.toUInt8 (NameElement initial inner) (NameElement initial inner) bs ∧
    '.'.toUInt8 ∈ bs

/-- The remaining bytes of an element, and elements behind a dot each. -/
abbrev DottedTail : List UInt8 → Prop :=
  Joined '.'.toUInt8 (fun e => ∀ x ∈ e, inner x = true) (NameElement initial inner)

end

theorem joined_nameElement_cons {Q : List UInt8 → Prop} {c : UInt8} :
    Joined '.'.toUInt8 (NameElement initial inner) Q (c :: rest) ↔
      initial c = true ∧ Joined '.'.toUInt8 (fun e => ∀ x ∈ e, inner x = true) Q rest := by
  have hnl : ¬ NameElement initial inner [] := by
    rintro ⟨c, t, h, -⟩
    cases h
  rw [joined_cons, or_iff_right fun h => hnl h.2.1, ← joined_and]
  refine joined_congr fun e => ⟨?_, fun h => ⟨c, e, rfl, h⟩⟩
  rintro ⟨c, t, h, hc⟩
  obtain ⟨rfl, rfl⟩ := List.cons.inj h
  exact hc

theorem dottedTail_cons {c : UInt8} (hc : c ≠ '.'.toUInt8) :
    DottedTail initial inner (c :: rest) ↔ inner c = true ∧ DottedTail initial inner rest := by
  rw [DottedTail, joined_cons, or_iff_right fun h => hc h.1, ← joined_and]
  simp only [forall_mem_cons]

theorem dottedTail_dot (hdt : inner '.'.toUInt8 = false) :
    DottedTail initial inner ('.'.toUInt8 :: rest) ↔
      Joined '.'.toUInt8 (NameElement initial inner) (NameElement initial inner) rest := by
  rw [DottedTail, joined_cons]
  constructor
  · rintro (h | ⟨e, -, -, hal, -⟩)
    · exact h.2.2
    · rw [hal _ mem_cons_self] at hdt
      cases hdt
  · exact fun h => .inl ⟨rfl, by simp, h⟩

/-- The loop passes exactly the tails of dotted names, and reports their dots. -/
theorem dottedLoop_exact (initial : UInt8 → Bool) (hdt : inner '.'.toUInt8 = false) :
    ∀ (rest : List UInt8) {p : ℕ} {d : Bool}, Holds s.str p rest →
      ∃ o, dottedLoop initial inner s rest.length p d = .ok o ∧
        ∀ b, o = some b ↔ DottedTail initial inner rest ∧ b = (d || decide ('.'.toUInt8 ∈ rest))
  | [], p, d, _ => ⟨some d, rfl, fun b => by simp [DottedTail, joined_nil, @eq_comm _ b]⟩
  | [c], p, d, h => by
    have hc := deref_eq_ok.2 (holds_cons.1 h).1
    rw [length_singleton, dottedLoop, hc, ok_bind]
    by_cases hd : c = '.'.toUInt8
    · subst hd
      refine ⟨none, by rw [if_pos rfl]; rfl, ?_⟩
      simp [dottedTail_dot hdt, joined_nil, NameElement]
    · rw [if_neg hd, dottedTail_cons hd]
      by_cases hi : inner c = false
      · exact ⟨none, by rw [if_pos hi]; rfl, by simp [hi]⟩
      · refine ⟨some d, by rw [if_neg hi]; rfl, ?_⟩
        rw [Bool.not_eq_false] at hi
        intro b
        simp [hi, joined_nil, Ne.symm hd, @eq_comm _ b]
  | c :: c' :: rest, p, d, h => by
    obtain ⟨hc, h⟩ := holds_cons.1 h
    obtain ⟨hc', hrs⟩ := holds_cons.1 h
    rw [length_cons, length_cons, dottedLoop, deref_eq_ok.2 hc, ok_bind]
    by_cases hd : c = '.'.toUInt8
    · subst hd
      rw [if_pos rfl, deref_eq_ok.2 hc', ok_bind, dottedTail_dot hdt, joined_nameElement_cons]
      by_cases hi : initial c' = false
      · exact ⟨none, by rw [if_pos hi]; rfl, by simp [hi]⟩
      · obtain ⟨o, ho, hif⟩ := dottedLoop_exact initial hdt rest (d := true) hrs
        refine ⟨o, by rw [if_neg hi]; exact ho, ?_⟩
        rw [Bool.not_eq_false] at hi
        simpa [hi] using hif
    · rw [if_neg hd, dottedTail_cons hd]
      by_cases hi : inner c = false
      · exact ⟨none, by rw [if_pos hi]; rfl, by simp [hi]⟩
      · obtain ⟨o, ho, hif⟩ := dottedLoop_exact initial hdt (c' :: rest) (d := d) h
        refine ⟨o, by rw [if_neg hi]; exact ho, ?_⟩
        rw [Bool.not_eq_false] at hi
        simpa [hi, Ne.symm hd] using hif

/-- What a validator says of the bytes of a range that is not empty. -/
def Checks (check : DBusString → ℕ → ℕ → Res Bool) (G : List UInt8 → Prop) : Prop :=
  ∀ {s : DBusString} {p : ℕ} {c : UInt8} {rest : List UInt8}, Holds s.str p (c :: rest) →
    ∃ b, check s p (c :: rest).length = .ok b ∧ (b = true ↔ G (c :: rest))

theorem dottedName_checks (hdt : inner '.'.toUInt8 = false) (hfr : initial '.'.toUInt8 = false) :
    Checks (dottedName initial inner) (Dotted initial inner) := by
  intro s p c rest h
  obtain ⟨hc, hrs⟩ := holds_cons.1 h
  rw [dottedName, deref_eq_ok.2 hc, ok_bind, Dotted, joined_nameElement_cons]
  by_cases hd : c = '.'.toUInt8
  · subst hd
    exact ⟨false, by rw [if_pos rfl]; rfl, by simp [hfr]⟩
  rw [if_neg hd]
  by_cases hi : initial c = false
  · exact ⟨false, by rw [if_pos hi]; rfl, by simp [hi]⟩
  obtain ⟨o, ho, hif⟩ := dottedLoop_exact initial hdt rest (d := false) hrs
  refine ⟨o.getD false, by rw [if_neg hi, length_cons, Nat.add_sub_cancel, ho]; rfl, ?_⟩
  have hg : o.getD false = true ↔ o = some true := by cases o <;> simp
  rw [Bool.not_eq_false] at hi
  rw [hg, hif true]
  simp [hi, Ne.symm hd]

theorem nameRange_exact {check : DBusString → ℕ → ℕ → Res Bool} {G : List UInt8 → Prop}
    (hch : Checks check G) :
    Validates (nameRange check) fun bs => bs ≠ [] ∧ bs.length ≤ maximumNameLength ∧ G bs := by
  intro s p bs h hlen
  rw [nameRange, assert_bind (by omega), if_neg (by omega)]
  cases bs with
  | nil => exact ⟨false, rfl, by simp⟩
  | cons c rest =>
    by_cases hl : (c :: rest).length > maximumNameLength
    · exact ⟨false, by rw [if_pos hl]; rfl, by simp only [Nat.not_le.2 hl]; simp⟩
    · rw [if_neg hl, if_neg (by simp)]
      obtain ⟨b, hb, hi⟩ := hch h
      exact ⟨b, hb, by simp only [hi, Nat.not_lt.1 hl]; simp⟩

/-! ### The grammars -/

section
variable (bs : List UInt8)

def IsInterface : Prop :=
  bs ≠ [] ∧ bs.length ≤ maximumNameLength ∧ Dotted validInitialNameCharacter validNameCharacter bs

def IsMember : Prop :=
  bs ≠ [] ∧ bs.length ≤ maximumNameLength ∧
    NameElement validInitialNameCharacter validNameCharacter bs

/-- A unique name: any bytes of a first element behind the colon, and elements behind a dot each. -/
def IsUniqueName : Prop :=
  ∃ rest, bs = ':'.toUInt8 :: rest ∧ DottedTail validBusNameCharacter validBusNameCharacter rest

def IsBusName : Prop :=
  bs ≠ [] ∧ bs.length ≤ maximumNameLength ∧
    (IsUniqueName bs ∨ Dotted validInitialBusNameCharacter validBusNameCharacter bs)

end

theorem validateInterface_exact : Validates validateInterface IsInterface :=
  nameRange_exact (dottedName_checks (by decide) (by decide))

theorem memberLoop_exact (h : Holds s.str p rest) : ∃ b, memberLoop s rest.length p = .ok b ∧
    (b = true ↔ ∀ x ∈ rest, validNameCharacter x = true) := by
  induction rest generalizing p with
  | nil => exact ⟨true, rfl, by simp⟩
  | cons c rest ih =>
    obtain ⟨hc, hrs⟩ := holds_cons.1 h
    rw [length_cons, memberLoop, deref_eq_ok.2 hc, ok_bind]
    by_cases hv : validNameCharacter c = false
    · exact ⟨false, by rw [if_pos hv]; rfl, by simp [hv]⟩
    · obtain ⟨b, hb, hi⟩ := ih hrs
      refine ⟨b, by rw [if_neg hv]; exact hb, ?_⟩
      rw [Bool.not_eq_false] at hv
      rw [hi, forall_mem_cons, and_iff_right hv]

theorem validateMember_exact : Validates validateMember IsMember := by
  refine nameRange_exact fun {s p c rest} h => ?_
  obtain ⟨hc, hrs⟩ := holds_cons.1 h
  rw [deref_eq_ok.2 hc, ok_bind]
  by_cases hi : validInitialNameCharacter c = false
  · exact ⟨false, by rw [if_pos hi]; rfl, by simp [NameElement, hi]⟩
  · obtain ⟨b, hb, hif⟩ := memberLoop_exact hrs
    refine ⟨b, by rw [if_neg hi]; exact hb, ?_⟩
    rw [Bool.not_eq_false] at hi
    simp [hif, NameElement, hi]

theorem validateBusName_exact : Validates validateBusName IsBusName := by
  refine nameRange_exact (G := fun bs => IsUniqueName bs ∨ Dotted _ _ bs) fun {s p c rest} h => ?_
  obtain ⟨hc, hrs⟩ := holds_cons.1 h
  rw [deref_eq_ok.2 hc, ok_bind]
  beta_reduce
  by_cases hcl : c = ':'.toUInt8
  · subst hcl
    have hdt : validBusNameCharacter '.'.toUInt8 = false := by decide
    obtain ⟨o, ho, hif⟩ := dottedLoop_exact validBusNameCharacter hdt rest (d := false) hrs
    refine ⟨o.isSome, by
      rw [if_pos rfl, length_cons, Nat.add_sub_cancel, ho]; rfl, ?_⟩
    have hi : ¬ validInitialBusNameCharacter ':'.toUInt8 = true := by decide
    rw [Dotted, joined_nameElement_cons, or_iff_left fun h => hi h.1.1, Option.isSome_iff_exists]
    simp [hif, IsUniqueName]
  · rw [if_neg hcl]
    have hch : Checks (dottedName validInitialBusNameCharacter validBusNameCharacter) _ :=
      dottedName_checks (by decide) (by decide)
    obtain ⟨b, hb, hif⟩ := hch h
    exact ⟨b, hb, by rw [hif, or_iff_right]; simp [IsUniqueName, hcl]⟩

/-- **The validators of names are exact**, for an object path, an interface, a member, the
    name of an error and that of a connection. -/
theorem validateNames_exact : Validates validatePath IsPath ∧ Validates validateInterface IsInterface ∧
    Validates validateMember IsMember ∧ Validates validateErrorName IsInterface ∧
    Validates validateBusName IsBusName :=
  ⟨validatePath_exact, validateInterface_exact, validateMember_exact, validateInterface_exact,
    validateBusName_exact⟩

/-- The names of connections as the specification has them: two elements or more, also
    behind a colon. -/
def SpecifiedBusName (bs : List UInt8) : Prop :=
  bs.length ≤ maximumNameLength ∧
    ((∃ rest, bs = ':'.toUInt8 :: rest ∧ Dotted validBusNameCharacter validBusNameCharacter rest) ∨
      Dotted validInitialBusNameCharacter validBusNameCharacter bs)

/-- A colon alone passes for the name of a connection. -/
theorem colon_accepted : validateBusName (.ofBody [':'.toUInt8]) 0 1 = .ok true ∧
    ¬ SpecifiedBusName [':'.toUInt8] := by
  refine ⟨rfl, ?_⟩
  rintro ⟨-, ⟨rest, hrs, -, hdt⟩ | ⟨-, hdt⟩⟩
  · obtain ⟨-, rfl⟩ := List.cons.inj hrs
    exact not_mem_nil hdt
  · exact absurd hdt (by decide)

section
variable (hlen : p + bs.length ≤ s.len)
include hlen

section
variable (h : Holds s.str p bs)
include h

theorem validateInterface_eq :
    validateInterface s p bs.length = .ok (decide (NameValid validateInterface bs)) :=
  validateInterface_exact.eq h hlen

theorem validateMember_eq :
    validateMember s p bs.length = .ok (decide (NameValid validateMember bs)) :=
  validateMember_exact.eq h hlen

theorem validateBusName_eq :
    validateBusName s p bs.length = .ok (decide (NameValid validateBusName bs)) :=
  validateBusName_exact.eq h hlen

end

end

end

end DBus
