/-
  Three properties of the text of a signature, and what they say of the tree that prints it.

  Each is a scan over the bytes.  On the text of a type tree the brackets nest, no dict entry
  starts with a struct exactly if its keys are basic types, and the arrays open at once are
  the nesting of arrays in the tree.
-/
import DBus.Types
import Mathlib.Algebra.Ring.Nat

namespace DBus

open List Ty TypeCode

/-- The brackets that are open behind the byte `c`, given those before it. -/
def nestStep (ks : List StructKind) (c : UInt8) : Option (List StructKind) :=
  match ofByte c with
  | .beginChar k => some (k :: ks)
  | .endChar k =>
    match ks with
    | [] => none
    | k' :: ks' => if k = k' then some ks' else none
  | _ => some ks

def nestRun : List StructKind → List UInt8 → Option (List StructKind)
  | ks, [] => some ks
  | ks, c :: cs => (nestStep ks c).bind fun ks' => nestRun ks' cs

/-- Every closing bracket closes the last one that is open, and none is left. -/
def bracketsNest (cs : List UInt8) : Bool := nestRun [] cs == some []

/-- No dict entry starts with a struct, where `inDict` says that the byte
    before the text opens a dict entry. -/
def keysBasicFrom : Bool → List UInt8 → Bool
  | _, [] => true
  | inDict, c :: cs =>
    !(inDict && decide (ofByte c = .beginChar .struct)) &&
      keysBasicFrom (decide (ofByte c = .beginChar .dictEntry)) cs

def keysBasic (cs : List UInt8) : Bool := keysBasicFrom false cs

/-- The largest number of arrays open at once, where `outer` are the arrays open outside each open
    bracket and `cur` those since the last bracket or complete type. -/
def arraysOpenFrom : List ℕ → ℕ → List UInt8 → ℕ
  | _, _, [] => 0
  | outer, cur, c :: cs =>
    match ofByte c with
    | .array => max (outer.sum + cur + 1) (arraysOpenFrom outer (cur + 1) cs)
    | .beginChar _ => arraysOpenFrom (cur :: outer) 0 cs
    | .endChar _ => arraysOpenFrom outer.tail 0 cs
    | _ => arraysOpenFrom outer 0 cs

def arraysOpen (cs : List UInt8) : ℕ := arraysOpenFrom [] 0 cs

/-! ## Brackets -/

mutual
theorem nestRun_sig : ∀ (t : Ty) (ks : List StructKind) (rest : List UInt8),
    nestRun ks (t.sig ++ rest) = nestRun ks rest
  | .basic b, ks, rest | .variant, ks, rest => by simp [sig, nestRun, nestStep]
  | .array e, ks, rest => by
    simp only [sig, cons_append, nestRun, nestStep, ofByte_array, Option.bind_some]
    exact nestRun_sig e ks rest
  | .struct k fs, ks, rest => by
    simp only [sig, cons_append, nestRun, nestStep, ofByte_beginChar,
      Option.bind_some, append_assoc]
    rw [nestRun_sigList fs]
    simp [nestRun, nestStep]
theorem nestRun_sigList : ∀ (ts : List Ty) (ks : List StructKind) (rest : List UInt8),
    nestRun ks (sigList ts ++ rest) = nestRun ks rest
  | [], ks, rest => by simp
  | t :: ts, ks, rest => by
    rw [sigList_cons, append_assoc, nestRun_sig t, nestRun_sigList ts]
end

theorem bracketsNest_sigList (ts : List Ty) : bracketsNest (sigList ts) = true := by
  have h := nestRun_sigList ts [] []
  rw [append_nil] at h
  simp [bracketsNest, h, nestRun]

theorem nestRun_append (ks : List StructKind) (as bs : List UInt8) :
    nestRun ks (as ++ bs) = (nestRun ks as).bind fun ks' => nestRun ks' bs := by
  induction as generalizing ks with
  | nil => rfl
  | cons c as ih =>
    simp only [cons_append, nestRun, Option.bind_assoc]
    congr 1
    funext ks'
    exact ih ks'

/-! ## Dict keys -/

def Ty.isStruct : Ty → Bool
  | .struct .struct _ => true
  | _ => false

mutual
theorem keysBasicFrom_sig : ∀ (t : Ty) {inArray : Bool} (inDict : Bool) (rest : List UInt8),
    t.formed true inArray = true →
    keysBasicFrom inDict (t.sig ++ rest) =
      (!(inDict && t.isStruct) && t.formed false inArray && keysBasicFrom false rest)
  | .basic b, _, inDict, rest, _ | .variant, _, inDict, rest, _ => by
    simp [sig, keysBasicFrom, isStruct, formed]
  | .array e, _, inDict, rest, h => by
    simp only [formed] at h
    simp [sig, keysBasicFrom, isStruct, formed, keysBasicFrom_sig e _ rest h]
  | .struct .struct fs, _, inDict, rest, h => by
    simp only [formed, Bool.and_eq_true] at h
    have hfs := keysBasicFrom_sigList fs false (toByte (.endChar .struct) :: rest) h.2 nofun
    simp only [sig, cons_append, append_assoc, nil_append, keysBasicFrom]
    simp [hfs, keysBasicFrom, isStruct, formed, h.1, Bool.and_assoc]
  | .struct .dictEntry fs, _, inDict, rest, h => by
    simp only [formed, Bool.and_eq_true, beq_iff_eq] at h
    obtain ⟨⟨⟨rfl, hl⟩, hk⟩, hf⟩ := h
    have hfs := keysBasicFrom_sigList fs true (toByte (.endChar .dictEntry) :: rest) hf
      fun _ h => by simp [h] at hl
    -- what the scan sees of the key is what the grammar asks of it
    have hky : (!(fs.head?.any isStruct)) = keyFormed false fs := by
      match fs, hk with
      | .basic _ :: _, _ => rfl
      | .struct .struct _ :: _, _ => rfl
    simp only [sig, cons_append, append_assoc, nil_append, keysBasicFrom]
    simp [hfs, hky, keysBasicFrom, isStruct, formed, hl, Bool.and_assoc]
theorem keysBasicFrom_sigList : ∀ (ts : List Ty) (inDict : Bool) (rest : List UInt8),
    formedList true ts = true → (inDict = true → ts ≠ []) →
    keysBasicFrom inDict (sigList ts ++ rest) =
      (!(inDict && ts.head?.any isStruct) && formedList false ts && keysBasicFrom false rest)
  | [], inDict, rest, _, hne => by
    cases inDict with
    | false => simp [formedList]
    | true => exact absurd rfl (hne rfl)
  | t :: ts, inDict, rest, h, _ => by
    simp only [formedList, Bool.and_eq_true] at h
    rw [sigList_cons, append_assoc, keysBasicFrom_sig t inDict _ h.1,
      keysBasicFrom_sigList ts false rest h.2 nofun]
    simp [formedList, Bool.and_assoc]
end

/-- No dict entry of a printed signature starts with a struct exactly if all its keys are basic. -/
theorem keysBasic_sigList {ts : List Ty} (h : formedList true ts = true) :
    keysBasic (sigList ts) = formedList false ts := by
  have hs := keysBasicFrom_sigList ts false [] h nofun
  rw [append_nil] at hs
  simpa [keysBasic, keysBasicFrom] using hs

/-! ## Arrays -/

mutual
/-- The scan of a type's text: the arrays of the type are open on top of those
    that are open before it. -/
theorem arraysOpenFrom_sig : ∀ (t : Ty) (outer : List ℕ) (cur : ℕ) (rest : List UInt8),
    arraysOpenFrom outer cur (t.sig ++ rest) =
      max (if t.arrayDepth = 0 then 0 else outer.sum + cur + t.arrayDepth)
        (arraysOpenFrom outer 0 rest)
  | .basic b, outer, cur, rest | .variant, outer, cur, rest =>
    by simp [sig, arraysOpenFrom, arrayDepth]
  | .array e, outer, cur, rest => by
    have hd : (array e).arrayDepth = e.arrayDepth + 1 := by simp only [arrayDepth]
    simp only [sig, cons_append, arraysOpenFrom, ofByte_array]
    rw [arraysOpenFrom_sig e outer (cur + 1) rest, hd, if_neg (Nat.succ_ne_zero _)]
    split <;> omega
  | .struct k fs, outer, cur, rest => by
    have hd : (struct k fs).arrayDepth = arrayDepthList fs := by simp only [arrayDepth]
    simp only [sig, cons_append, append_assoc, nil_append, arraysOpenFrom, ofByte_beginChar]
    rw [arraysOpenFrom_sigList fs (cur :: outer), hd]
    simp only [arraysOpenFrom, ofByte_endChar, tail_cons, sum_cons, Nat.add_comm cur]
theorem arraysOpenFrom_sigList : ∀ (ts : List Ty) (outer : List ℕ) (rest : List UInt8),
    arraysOpenFrom outer 0 (sigList ts ++ rest) =
      max (if arrayDepthList ts = 0 then 0 else outer.sum + arrayDepthList ts)
        (arraysOpenFrom outer 0 rest)
  | [], outer, rest => by simp [arrayDepthList]
  | t :: ts, outer, rest => by
    rw [sigList_cons, append_assoc, arraysOpenFrom_sig t, arraysOpenFrom_sigList ts, arrayDepthList]
    split <;> split <;> split <;> omega
end

theorem arraysOpen_sigList (ts : List Ty) : arraysOpen (sigList ts) = arrayDepthList ts := by
  have h := arraysOpenFrom_sigList ts [] []
  rw [append_nil] at h
  rw [arraysOpen, h]
  simp only [arraysOpenFrom, sum_nil]
  split <;> omega

end DBus
