/-
  The cache of users (`dbus-userdb.c`) and of groups, kept in the same way (`dbus-userdb-util.c`).

  The table by id owns the records, the table by name borrows them.  If two names have one id,
  the record of the second replaces that of the first, which is freed while the table by name
  still has it (`neverStale_iff`).
-/
import Mathlib.Data.Nat.Notation
import Mathlib.Logic.Function.Basic

namespace DBus

open Function

/-- `DBusUserInfo`, or `DBusGroupInfo` -/
structure UserInfo where
  uid : ℕ
  username : List UInt8

/-- What is looked up. -/
inductive UserKey where
  | id (uid : ℕ)
  | name (username : List UInt8)
deriving DecidableEq

abbrev UserKey.Of (key : UserKey) (r : UserInfo) : Prop := key = id r.uid ∨ key = name r.username

/-- The password database, and `_dbus_is_a_number` (no number is `DBUS_UID_UNSET`). -/
structure Passwd where
  entries : List UserInfo
  isANumber : List UInt8 → Option ℕ

/-- A name that is a number is an id. -/
def Passwd.resolve (sys : Passwd) : UserKey → UserKey
  | .id uid => .id uid
  | .name username => (sys.isANumber username).elim (.name username) .id

/-- `getpwuid` and `getpwnam` -/
def Passwd.get (sys : Passwd) (key : UserKey) : Option UserInfo := sys.entries.find? (key.Of ·)

/-- `DBusUserDatabase`: both tables, with the addresses of the records, and the next address. -/
structure UserDatabase where
  table : UserKey → Option (ℕ × UserInfo) := fun _ => none
  made : ℕ := 0

/-- The allocation that fails: that of the record, or of the entry of a table.  The table by name
    makes an entry before it looks whether it has one. -/
inductive UserOom where
  | never
  | record
  | byId
  | byName
deriving DecidableEq

/-- Both tables get the record; the one that had its id is freed. -/
def UserDatabase.insert (db : UserDatabase) (r : UserInfo) : UserDatabase :=
  ⟨update (update db.table (.id r.uid) (some (db.made, r))) (.name r.username) (some (db.made, r)),
    db.made + 1⟩

/-- `_dbus_user_database_lookup` and `_dbus_user_database_lookup_group` -/
def UserDatabase.lookup (sys : Passwd) (db : UserDatabase) (key : UserKey) (oom : UserOom) :
    Option (ℕ × UserInfo) × UserDatabase :=
  match db.table (sys.resolve key), sys.get (sys.resolve key) with
  | some info, _ => (some info, db)
  | none, none => (none, db)
  | none, some r =>
    if oom = .record ∨ oom = .byId ∧ db.table (.id r.uid) = none then (none, db)
    else if oom = .byName then
      (none, { db with table := update db.table (.id r.uid) none })
    else (some (db.made, r), db.insert r)

/-- Lookups, one after the other. -/
def UserDatabase.run (sys : Passwd) (db : UserDatabase) (lookups : List (UserKey × UserOom)) :
    UserDatabase :=
  lookups.foldl (fun db l => (db.lookup sys l.1 l.2).2) db

/-- After any lookups, the table by name has only records that the table by id holds, and
    the next lookup returns a record of what is looked up. -/
def NeverStale (sys : Passwd) : Prop :=
  ∀ lookups, let db := UserDatabase.run sys {} lookups
    (∀ name info, db.table (.name name) = some info → ∃ uid, db.table (.id uid) = some info) ∧
    ∀ key oom info, (db.lookup sys key oom).1 = some info →
      info.2 ∈ sys.entries ∧ (sys.resolve key).Of info.2

/-- The records that lookups read. -/
def Passwd.Reads (sys : Passwd) (r : UserInfo) : Prop := ∃ key, sys.get (sys.resolve key) = some r

/-- What is read for a name has an id that is read with no other name. -/
def Passwd.OneName (sys : Passwd) : Prop :=
  ∀ r s key name, sys.Reads r → sys.resolve key = .name name → sys.get (.name name) = some s →
    r.uid = s.uid → r.username = s.username

section
variable {sys : Passwd} {db : UserDatabase} {key : UserKey} {r : UserInfo}

def UserDatabase.Valid (sys : Passwd) (db : UserDatabase) : Prop :=
  ∀ key info, db.table key = some info → key.Of info.2 ∧ sys.Reads info.2 ∧
    db.table (.id info.2.uid) = some info ∧ db.table (.name info.2.username) ≠ none

theorem Passwd.of_get (h : sys.get key = some r) : r ∈ sys.entries ∧ key.Of r :=
  ⟨List.mem_of_find?_eq_some h, by simpa using List.find?_some h⟩

/-- A lookup keeps the tables valid, and returns a record of what is looked up. -/
theorem UserDatabase.Valid.lookup (h : db.Valid sys) (hon : sys.OneName) (key oom) :
    (db.lookup sys key oom).2.Valid sys ∧ ∀ info, (db.lookup sys key oom).1 = some info →
      info.2 ∈ sys.entries ∧ (sys.resolve key).Of info.2 := by
  rw [UserDatabase.lookup]
  split
  · next info hfn =>
    obtain ⟨hof, ⟨key', hr⟩, -⟩ := h _ info hfn
    refine ⟨h, ?_⟩
    rintro _ ⟨⟩
    exact ⟨(Passwd.of_get hr).1, hof⟩
  · exact ⟨h, by simp⟩
  · next r hfn hg =>
    obtain ⟨hm, hof⟩ := Passwd.of_get hg
    -- the cache has no other name for the id
    have hnw : db.table (.id r.uid) = none := by
      rcases hof with heq | heq
      · rwa [← heq]
      cases ho : db.table (.id r.uid) with
      | none => rfl
      | some info =>
        obtain ⟨hu, hrd, -, hnm⟩ := h _ info ho
        have hu : info.2.uid = r.uid := by simpa [UserKey.Of, eq_comm] using hu
        rw [hon info.2 r key r.username hrd heq (heq ▸ hg) hu, ← heq] at hnm
        exact absurd hfn hnm
    rw [update_eq_self_iff.2 hnw.symm]
    split
    · exact ⟨h, by simp⟩
    split
    · exact ⟨h, by simp⟩
    refine ⟨?_, by rintro _ ⟨⟩; exact ⟨hm, hof⟩⟩
    intro key' info hi
    have hrd : sys.Reads r := ⟨key, hg⟩
    have := h key' info
    simp only [UserDatabase.insert, update_apply] at hi ⊢
    grind

theorem UserDatabase.Valid.run (h : db.Valid sys) (ho : sys.OneName) (lookups) :
    (db.run sys lookups).Valid sys := by
  induction lookups generalizing db with
  | nil => exact h
  | cons l ls ih => exact ih (h.lookup ho l.1 l.2).1

/-- **The cache is never stale** exactly if no two names that lookups read have one id. -/
theorem neverStale_iff (sys : Passwd) : NeverStale sys ↔ sys.OneName := by
  constructor
  · rintro h r s key name ⟨key', hr⟩ hky hs hud
    by_contra hne
    have hnm : name = s.username := by simpa [UserKey.Of] using (Passwd.of_get hs).2
    have hrn : UserDatabase.run sys {} [(key', .never), (key, .never)] =
        (UserDatabase.insert {} r).insert s := by
      simp only [UserDatabase.run, List.foldl, UserDatabase.lookup, hr, hky, hs]
      simp [hnm, UserDatabase.insert, Ne.symm hne]
    -- the record of the first lookup is under its name only
    obtain ⟨u, hu⟩ := (h [(key', .never), (key, .never)]).1 r.username (0, r)
      (by simp [hrn, UserDatabase.insert, hne])
    simp only [hrn, UserDatabase.insert, update_apply] at hu
    grind
  · intro ho lookups
    have hem : UserDatabase.Valid sys {} := by simp [UserDatabase.Valid]
    have hvl := hem.run ho lookups
    exact ⟨fun name info h => ⟨_, (hvl _ info h).2.2.1⟩,
      fun key oom => (hvl.lookup ho key oom).2⟩

/-- Two names of one id. -/
theorem twoNames_stale : ¬ NeverStale ⟨[⟨0, [114]⟩, ⟨0, [116]⟩], fun _ => none⟩ := by
  intro h
  obtain ⟨_ | u, hu⟩ := (h [(.name [114], .never), (.name [116], .never)]).1 [114] _ rfl
  · exact absurd (congrArg (·.map Prod.fst) hu) (by decide)
  · cases hu

end

end DBus
