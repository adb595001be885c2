/-
  Type trees and the signatures they print.

  Not every tree is a type of the grammar: `Ty.formed` asks that a struct has a field, that a
  dict entry stands directly inside an array and has two fields, and that its key is a basic
  type (or, when `structKey` is set, a struct).  `Grammatical` collects what makes a list of
  trees a signature within the limits of the protocol.
-/
import DBus.Protocol

namespace DBus

open List

/-- A type tree. -/
inductive Ty where
  | basic (b : BasicType)
  | variant
  | array (elem : Ty)
  | struct (k : StructKind) (fields : List Ty)

namespace Ty

mutual
def sig : Ty → List UInt8
  | .basic b => [TypeCode.toByte (.basic b)]
  | .variant => [TypeCode.toByte .variant]
  | .array e => TypeCode.toByte .array :: e.sig
  | .struct k fs => TypeCode.toByte (.beginChar k) :: (sigList fs ++ [TypeCode.toByte (.endChar k)])
def sigList : List Ty → List UInt8
  | [] => []
  | t :: ts => t.sig ++ sigList ts
end

def code : Ty → TypeCode
  | .basic b => .basic b
  | .variant => .variant
  | .array _ => .array
  | .struct k _ => .struct k

def alignment : Ty → ℕ
  | .basic b => b.alignment
  | .variant => 1
  | .array _ => 4
  | .struct _ _ => 8

/-- Whether the first field may be the key of a dict entry. -/
def keyFormed (structKey : Bool) : List Ty → Bool
  | .basic _ :: _ => true
  | .struct .struct _ :: _ => structKey
  | _ => false

mutual
/-- Whether a tree is a complete type, where `inArray` says that it stands
    directly inside an array. -/
def formed (structKey inArray : Bool) : Ty → Bool
  | .basic _ => true
  | .variant => true
  | .array e => e.formed structKey true
  | .struct .struct fs => !fs.isEmpty && formedList structKey fs
  | .struct .dictEntry fs =>
    inArray && fs.length == 2 && keyFormed structKey fs && formedList structKey fs
/-- Whether every tree of a list is a complete type. -/
def formedList (structKey : Bool) : List Ty → Bool
  | [] => true
  | t :: ts => t.formed structKey false && formedList structKey ts
end

mutual
def arrayDepth : Ty → ℕ
  | .basic _ => 0
  | .variant => 0
  | .array e => e.arrayDepth + 1
  | .struct _ fs => arrayDepthList fs
def arrayDepthList : List Ty → ℕ
  | [] => 0
  | t :: ts => max t.arrayDepth (arrayDepthList ts)
end

mutual
/-- How many bracketed containers of kind `k` are open at once. -/
def bracketDepth (k : StructKind) : Ty → ℕ
  | .basic _ => 0
  | .variant => 0
  | .array e => e.bracketDepth k
  | .struct k' fs => bracketDepthList k fs + if k' = k then 1 else 0
def bracketDepthList (k : StructKind) : List Ty → ℕ
  | [] => 0
  | t :: ts => max (t.bracketDepth k) (bracketDepthList k ts)
end

end Ty

/-- A list of types of the D-Bus grammar, within the protocol's limits on the
    length of its signature and on the containers open at once. -/
structure Grammatical (ts : List Ty) : Prop where
  formed : Ty.formedList false ts = true
  length_le : (Ty.sigList ts).length ≤ maximumSignatureLength
  arrays_le : Ty.arrayDepthList ts ≤ maximumTypeRecursionDepth
  structs_le : Ty.bracketDepthList .struct ts ≤ maximumTypeRecursionDepth
  dicts_le : Ty.bracketDepthList .dictEntry ts ≤ maximumTypeRecursionDepth

/-! ## Lists of types -/

namespace Ty

@[simp] theorem sigList_nil : sigList [] = [] := by simp only [sigList]

@[simp] theorem sigList_cons (t : Ty) (ts : List Ty) : sigList (t :: ts) = t.sig ++ sigList ts := by
  simp only [sigList]

@[simp] theorem sigList_append (ts us : List Ty) :
    sigList (ts ++ us) = sigList ts ++ sigList us := by
  induction ts with
  | nil => simp
  | cons t ts ih => simp [ih]

@[simp] theorem formedList_append {structKey : Bool} {ts us : List Ty} :
    formedList structKey (ts ++ us) = (formedList structKey ts && formedList structKey us) := by
  induction ts with
  | nil => simp [formedList]
  | cons t ts ih => simp [formedList, ih, Bool.and_assoc]

@[simp] theorem bracketDepthList_append (k : StructKind) (ts us : List Ty) :
    bracketDepthList k (ts ++ us) = max (bracketDepthList k ts) (bracketDepthList k us) := by
  induction ts with
  | nil => simp [bracketDepthList]
  | cons t ts ih => simp [bracketDepthList, ih, Nat.max_assoc]

theorem sig_eq_cons (t : Ty) : ∃ c cs, t.sig = c :: cs ∧ ∀ k, TypeCode.ofByte c ≠ .endChar k := by
  cases t with
  | basic b | variant | array e | struct k fs => exact ⟨_, _, by rw [sig], by simp⟩

theorem sig_ne_nil (t : Ty) : t.sig ≠ [] := by cases t <;> simp [sig]

theorem sig_length_pos (t : Ty) : 0 < t.sig.length := length_pos_iff.2 t.sig_ne_nil

theorem length_le_sigList (ts : List Ty) : ts.length ≤ (sigList ts).length := by
  induction ts with
  | nil => simp
  | cons t ts ih =>
    have := t.sig_length_pos
    rw [sigList_cons, length_append, length_cons]
    omega

theorem formed_fields {structKey inArray : Bool} {k : StructKind} {fs : List Ty}
    (h : (struct k fs).formed structKey inArray = true) :
    fs ≠ [] ∧ formedList structKey fs = true := by
  cases k with
  | struct => simpa [formed] using h
  | dictEntry =>
    simp only [formed, Bool.and_eq_true, beq_iff_eq] at h
    exact ⟨fun he => by simp [he] at h, h.2⟩

@[simp] theorem alignment_basic (b : BasicType) : (basic b).alignment = b.alignment := rfl

@[simp] theorem alignment_variant : variant.alignment = 1 := rfl

@[simp] theorem alignment_array (e : Ty) : (array e).alignment = 4 := rfl

@[simp] theorem alignment_struct (k : StructKind) (fs : List Ty) : (struct k fs).alignment = 8 := rfl

theorem alignment_pos (t : Ty) : 0 < t.alignment := by
  cases t with
  | basic b =>
    rcases b with f | s
    · exact f.size_pos
    · cases s <;> decide
  | variant => exact Nat.one_pos
  | array e => exact Nat.succ_pos 3
  | struct k fs => exact Nat.succ_pos 7

theorem alignment_dvd_eight (t : Ty) : t.alignment ∣ 8 := by
  cases t with
  | basic b => exact b.alignment_dvd_eight
  | variant => exact Nat.one_dvd 8
  | array e => exact ⟨2, rfl⟩
  | struct k fs => exact Nat.dvd_refl 8

theorem getAlignment_code (t : Ty) : t.code.getAlignment = .ok t.alignment := by
  cases t <;> rfl

mutual
theorem formed_mono : ∀ (t : Ty) {inArray : Bool}, t.formed false inArray = true →
    t.formed true inArray = true
  | .basic _, _, _ => rfl
  | .variant, _, _ => rfl
  | .array e, _, h => by
    simp only [formed] at h ⊢
    exact formed_mono e h
  | .struct .struct fs, _, h => by
    simp only [formed, Bool.and_eq_true] at h ⊢
    exact ⟨h.1, formedList_mono fs h.2⟩
  | .struct .dictEntry fs, _, h => by
    simp only [formed, Bool.and_eq_true] at h ⊢
    refine ⟨⟨h.1.1, ?_⟩, formedList_mono fs h.2⟩
    have hk := h.1.2
    unfold keyFormed at hk ⊢
    split at hk <;> simp_all
theorem formedList_mono : ∀ ts : List Ty, formedList false ts = true → formedList true ts = true
  | [], _ => rfl
  | t :: ts, h => by
    simp only [formedList, Bool.and_eq_true] at h ⊢
    exact ⟨formed_mono t h.1, formedList_mono ts h.2⟩
end

/-! ## Arrays of arrays -/

/-- The type behind `n` array codes. -/
def wrap : ℕ → Ty → Ty
  | 0, t => t
  | n + 1, t => .array (wrap n t)

theorem sig_wrap (n : ℕ) (t : Ty) :
    (wrap n t).sig = List.replicate n (TypeCode.toByte .array) ++ t.sig := by
  induction n with
  | zero => rfl
  | succ n ih => simp [wrap, sig, ih, replicate_succ]

theorem formed_wrap (structKey inArray : Bool) (n : ℕ) (t : Ty) :
    (wrap n t).formed structKey inArray = t.formed structKey (inArray || decide (0 < n)) := by
  induction n generalizing inArray with
  | zero => simp [wrap]
  | succ n ih => simp [wrap, formed, ih]

theorem bracketDepth_wrap (k : StructKind) (n : ℕ) (t : Ty) :
    (wrap n t).bracketDepth k = t.bracketDepth k := by
  induction n with
  | zero => rfl
  | succ n ih => simp [wrap, bracketDepth, ih]

theorem exists_wrap : ∀ t : Ty, ∃ n b, t = wrap n b ∧ ∀ e, b ≠ .array e
  | .basic b | .variant => ⟨0, _, rfl, nofun⟩
  | .array e => by
    obtain ⟨n, b, he, hb⟩ := exists_wrap e
    exact ⟨n + 1, b, by rw [he]; rfl, hb⟩
  | .struct k fs => ⟨0, _, rfl, nofun⟩

end Ty

end DBus
