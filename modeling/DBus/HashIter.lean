/-
  Looking up an entry of a hash table to work on it (`_dbus_hash_iter_lookup`).

  The iterator keeps a pointer to the bucket, which was taken before a new entry may have made
  the table change its bucket array.  Removing through a pointer into the old array, which is
  empty or freed by then, fails (`usable_iff`).
-/
import DBus.Protocol
import Mathlib.Data.Int.Notation
import Mathlib.Logic.Function.Basic

namespace DBus

open Outcome Function

/-- `DBusHashTable`: what the addresses of entries hold, and the chains of a bucket array.
    The number of an array is that of the arrays before it; the first one is static.  Sizes
    are not bounded as in C. -/
structure DBusHashTable (K V : Type) where
  entries : ℕ → K × V
  array : ℕ
  buckets : ℕ → List ℕ
  nBuckets : ℕ
  nEntries : ℕ
  hiRebuildSize : ℕ
  loRebuildSize : ℕ
  downShift : ℤ
  mask : ℕ

/-- `DBusRealHashIter`: the bucket, by its array and its index, and the entry. -/
structure DBusHashIter where
  array : ℕ
  bucket : ℕ
  entry : ℕ

section
-- the index of a key, for the mask and the shift of the table
variable {K V : Type} (idx : ℕ → ℤ → K → ℕ) (table : DBusHashTable K V)

/-- Entries are put in front of the chains they belong to. -/
def rehash (index : ℕ → ℕ) : List ℕ → (ℕ → List ℕ) → ℕ → List ℕ
  | [], buckets => buckets
  | e :: entries, buckets => rehash index entries (update buckets (index e) (e :: buckets (index e)))

/-- `rebuild_table`, and whether there is no memory for the array -/
def rebuildTable (fails : Bool) : DBusHashTable K V :=
  let rehashed mask shift := rehash (fun e => idx mask shift (table.entries e).1)
    ((List.range table.nBuckets).flatMap table.buckets) fun _ => []
  if table.nEntries ≥ table.hiRebuildSize then
    if table.nBuckets < 2147483647 / 4 ∧ table.downShift ≥ 0 ∧ fails = false then
      { table with
        array := table.array + 1
        buckets := rehashed (table.mask * 4 + 3) (table.downShift - 2)
        nBuckets := table.nBuckets * 4
        loRebuildSize := table.hiRebuildSize
        hiRebuildSize := table.hiRebuildSize * 4
        downShift := table.downShift - 2
        mask := table.mask * 4 + 3 }
    else table
  else if table.nBuckets / 4 < 4 ∨ fails then table
  else { table with
    array := table.array + 1
    buckets := rehashed (table.mask / 4) (table.downShift + 2)
    nBuckets := table.nBuckets / 4
    hiRebuildSize := table.loRebuildSize
    loRebuildSize := table.loRebuildSize / 4
    downShift := table.downShift + 2
    mask := table.mask / 4 }

/-- The index of the bucket of a key. -/
def DBusHashTable.index (key : K) : ℕ := idx table.mask table.downShift key

/-- The entry `e` of the key, without a value, is put in front of its chain. -/
def DBusHashTable.add (e : ℕ) (key : K) (null : V) : DBusHashTable K V :=
  let i := table.index idx key
  { table with
    entries := update table.entries e (key, null)
    buckets := update table.buckets i (e :: table.buckets i)
    nEntries := table.nEntries + 1 }

/-- `add_allocated_entry` -/
def addAllocatedEntry (e : ℕ) (key : K) (null : V) (fails : Bool) : DBusHashTable K V :=
  let table := table.add idx e key null
  if table.nEntries ≥ table.hiRebuildSize ∨ table.nEntries < table.loRebuildSize then
    rebuildTable idx table fails
  else table

/-- `_dbus_hash_iter_get_value` -/
def hashIterGetValue (iter : DBusHashIter) : V := (table.entries iter.entry).2

/-- `_dbus_hash_iter_set_value` -/
def hashIterSetValue (iter : DBusHashIter) (value : V) : DBusHashTable K V :=
  { table with entries := update table.entries iter.entry ((table.entries iter.entry).1, value) }

/-- The table without an entry in one of its buckets. -/
def DBusHashTable.without (i e : ℕ) : DBusHashTable K V :=
  { table with
    buckets := update table.buckets i ((table.buckets i).erase e)
    nEntries := table.nEntries - 1 }

/-- `remove_entry` for an iterator: old arrays are freed, or all their chains are empty. -/
def hashIterRemove (iter : DBusHashIter) : Res (DBusHashTable K V) := do
  ensure (iter.array = table.array ∨ iter.array = 0) .outside
  let chain := if iter.array = table.array then table.buckets iter.bucket else []
  assert (chain ≠ [])
  if iter.entry ∈ chain then return table.without iter.bucket iter.entry
  else throw .outside

/-- The table does not need another array for one more entry, or does not get it. -/
def KeepsArray (fails : Bool) : Prop :=
  fails = true ∨ if table.nEntries + 1 ≥ table.hiRebuildSize then
    table.nBuckets ≥ 2147483647 / 4 ∨ table.downShift < 0
  else table.nEntries + 1 ≥ table.loRebuildSize ∨ table.nBuckets / 4 < 4

variable [DecidableEq K]

/-- The entry of a key -/
def DBusHashTable.find (key : K) : Option ℕ :=
  (table.buckets (table.index idx key)).find? fun e => (table.entries e).1 = key

/-- `_dbus_hash_iter_lookup` that creates the entry if there is none, at the address `new`.  Its
    last assertion compares the bucket with itself. -/
def hashIterLookup (new : ℕ) (key : K) (null : V) (fails : Bool) : DBusHashTable K V × DBusHashIter :=
  match table.find idx key with
  | some e => (table, ⟨table.array, table.index idx key, e⟩)
  | none => (addAllocatedEntry idx table new key null fails, ⟨table.array, table.index idx key, new⟩)

/-- The iterator is at the entry that the table has for the key: its value is got and set, and
    it is removed. -/
structure UsableAt (key : K) (iter : DBusHashIter) : Prop where
  get : (table.find idx key).map (fun e => (table.entries e).2) = some (hashIterGetValue table iter)
  set : ∀ value, ((hashIterSetValue table iter value).find idx key).map (fun e =>
    ((hashIterSetValue table iter value).entries e).2) = some value
  remove : hashIterRemove table iter = .ok (table.without (table.index idx key) iter.entry)

def Usable (new : ℕ) (key : K) (null : V) (fails : Bool) : Prop :=
  UsableAt idx (hashIterLookup idx table new key null fails).1 key
    (hashIterLookup idx table new key null fails).2

variable {idx table} {e : ℕ} {key : K}

theorem find_hashIterSetValue (iter : DBusHashIter) (value : V) :
    (hashIterSetValue table iter value).find idx key = table.find idx key := by
  have hk : (fun e => decide (((hashIterSetValue table iter value).entries e).1 = key)) =
      fun e => decide ((table.entries e).1 = key) := by
    funext e
    by_cases he : e = iter.entry <;> simp [hashIterSetValue, he]
  exact congrArg (List.find? · _) hk

theorem usableAt_of_find (h : table.find idx key = some e) :
    UsableAt idx table key ⟨table.array, table.index idx key, e⟩ := by
  have hm : e ∈ table.buckets (table.index idx key) := List.mem_of_find?_eq_some h
  refine ⟨by rw [h]; rfl, fun value => ?_, ?_⟩
  · rw [find_hashIterSetValue, h]
    simp [hashIterSetValue]
  · have hne : table.buckets (table.index idx key) ≠ [] := List.ne_nil_of_mem hm
    simp [hashIterRemove, assert, ensure, hne, hm]

omit [DecidableEq K] in
theorem hashIterRemove_old {iter : DBusHashIter} (h : iter.array ≠ table.array)
    (t : DBusHashTable K V) : hashIterRemove table iter ≠ .ok t := by
  simp only [hashIterRemove, h, assert, ensure]
  split <;> simp

omit [DecidableEq K] in
theorem addAllocatedEntry_cases (null : V) (fails : Bool) : KeepsArray table fails ∧
      addAllocatedEntry idx table e key null fails = table.add idx e key null ∨
    ¬ KeepsArray table fails ∧
      (addAllocatedEntry idx table e key null fails).array = table.array + 1 := by
  rw [KeepsArray, addAllocatedEntry, rebuildTable]
  simp only [DBusHashTable.add]
  cases fails <;> split_ifs <;> simp_all <;> omega

/-- **Looking up is usable** exactly if the entry was there or the table keeps its array. -/
theorem usable_iff (new : ℕ) (null : V) (fails : Bool) : Usable idx table new key null fails ↔
    (table.find idx key).isSome ∨ KeepsArray table fails := by
  rw [Usable, hashIterLookup]
  cases h : table.find idx key with
  | some e => exact iff_of_true (usableAt_of_find h) (.inl rfl)
  | none =>
    simp only [Option.isSome_none, Bool.false_eq_true, false_or]
    rcases @addAllocatedEntry_cases _ _ idx table new key null fails with ⟨hk, ha⟩ | ⟨hk, ha⟩
    · have hf : (table.add idx new key null).find idx key = some new := by
        simp [DBusHashTable.find, DBusHashTable.add, DBusHashTable.index]
      simp only [ha]
      exact iff_of_true (usableAt_of_find hf) hk
    · exact iff_of_false (fun h => hashIterRemove_old (by simp [ha]) _ h.remove) hk

end

/-- `RANDOM_INDEX`, the index of a key that is an integer -/
def randomIndex (mask : ℕ) (downShift : ℤ) (key : ℕ) : ℕ :=
  (key * 1103515245) >>> downShift.toNat &&& mask

/-- The twelfth entry makes a new table grow. -/
theorem growing_not_usable : ¬ Usable randomIndex ⟨fun e => (e, ()), 0,
    fun i => (List.range 11).reverse.filter (randomIndex 3 28 · = i), 4, 11, 12, 0, 28, 3⟩
    11 11 () false := by
  rintro ⟨-, -, h⟩
  cases h

end DBus
