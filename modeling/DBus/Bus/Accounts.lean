/-
  The accounts of connections: the two lists, their lengths, and the number of connections of
  each user.

  They are exact over every run (`accounts_are_exact`), unless memory runs out in
  `bus_connection_complete` behind the place where the connection is counted for its user.
-/
import DBus.Bus.Delivery
import DBus.Bus.Settlement

namespace DBus

open BusM Eff Outcome List Option

/-! ## Events -/

/-- What happens to connections. -/
inductive AccountEvent where
  | connect
  | hello (connection : ℕ) (name : List UInt8)
  | disconnected (connection : ℕ)

/-- What the daemon does; of `bus_driver_handle_hello` and `bus_connection_disconnected`, what
    is about the lists of connections. -/
def accountStep (env : BusEnv) : AccountEvent → BusM Unit
  | .connect => busConnectionsSetupConnection
  | .hello connection name => do
    let bus ← get
    if bus.isActive connection then fail .failed (asciiBytes "Already handled an Hello message")
    else do
      busConnectionsCheckLimits env connection
      busConnectionComplete env connection name
  | .disconnected connection => do
    leaveConnections env connection
    modify (·.setConnection connection fun c => { c with data := none })

def AccountEvent.Possible (s : Bus) : AccountEvent → Prop
  | .connect => True
  | .hello c _ => (s.connections c).data.isSome
  | .disconnected c => (s.connections c).data.isSome

/-- No allocation fails while a connection of a known user says `Hello`. -/
def AccountEvent.HasMemory (env : BusEnv) (fails : List Bool) : AccountEvent → Prop
  | .hello c _ => true ∈ fails → env.unixUser c = none
  | _ => True

/-! ## Accounts -/

def Bus.standing (s : Bus) (c : ℕ) : Option (Option (List UInt8)) :=
  (s.connections c).data.map (·.name)

def BusEnv.ofUser (env : BusEnv) (uid : ℕ) (l : List ℕ) : List ℕ :=
  l.filter (env.unixUser · = some uid)

/-- Every connection is in one list, once; the numbers are right, and no user has an entry
    that says zero. -/
structure Accounts (env : BusEnv) (s : Bus) : Prop where
  nCompleted : s.nCompleted = s.completed.length
  nIncomplete : s.nIncomplete = s.incomplete.length
  once : s.completed.Nodup ∧ s.incomplete.Nodup
  completed : ∀ c, c ∈ s.completed ↔ ∃ name, s.standing c = some (some name)
  incomplete : ∀ c, c ∈ s.incomplete ↔ s.standing c = some none
  users : ∀ uid, s.connectionsForUid uid = (env.ofUser uid s.completed).length
  noZero : ∀ uid, s.completedByUser uid ≠ some 0
  fresh : ∀ c, s.nextConnection ≤ c → s.standing c = none

def SameAccounts (s s' : Bus) : Prop :=
  s'.completed = s.completed ∧ s'.incomplete = s.incomplete ∧ s'.nCompleted = s.nCompleted ∧
    s'.nIncomplete = s.nIncomplete ∧ s'.completedByUser = s.completedByUser ∧
    s'.nextConnection = s.nextConnection ∧ s'.standing = s.standing

/-- The runs of the daemon; what else happens leaves the accounts alone. -/
inductive AccountRun (env : BusEnv) : Bus → Prop
  | start : AccountRun env .empty
  | step {s s' : Bus} (event : AccountEvent) (fails : List Bool) {out : Except DBusError Unit}
      {rest : List Bool} : AccountRun env s → event.Possible s → event.HasMemory env fails →
      (accountStep env event).run s fails = (.ok (out, s'), rest) → AccountRun env s'
  | other {s s' : Bus} : AccountRun env s → SameAccounts s s' → AccountRun env s'

/-- The numbers after a `Hello` are within the limits. -/
def Bus.WithinLimits (s : Bus) (env : BusEnv) : AccountEvent → Prop
  | .hello c _ => s.nCompleted ≤ env.maxCompletedConnections ∧
    ∀ uid, env.unixUser c = some uid → s.connectionsForUid uid ≤ env.maxConnectionsPerUser
  | _ => True

section
variable {env : BusEnv} {s s' : Bus} {c : ℕ} {oom : Prop} {d : BusConnectionData}

theorem standing_setConnection {f : BusConnection → BusConnection} (c' : ℕ) :
    (s.setConnection c f).standing c' =
      if c' = c then (f (s.connections c)).data.map (·.name) else s.standing c' := by
  by_cases h : c' = c
  · simp [Bus.standing, Bus.setConnection, h]
  · simp [Bus.standing, Bus.setConnection, h]

theorem connectionsForUid_setUser {uid uid' : ℕ} {new : Option ℕ} :
    (s.setUser uid new).connectionsForUid uid' =
      if uid' = uid then new.getD 0 else s.connectionsForUid uid' := by
  by_cases h : uid' = uid <;> simp [Bus.connectionsForUid, Bus.setUser, h]

theorem noZero_setUser {uid : ℕ} {new : Option ℕ} (hn : new ≠ some 0)
    (h : ∀ uid, s.completedByUser uid ≠ some 0) (uid' : ℕ) :
    (s.setUser uid new).completedByUser uid' ≠ some 0 := by
  by_cases he : uid' = uid <;> simp [Bus.setUser, he, hn, h]

section
variable (h : Accounts env s)
include h

theorem Accounts.not_mem_completed (hc : ∀ name, s.standing c ≠ some (some name)) :
    c ∉ s.completed := fun hin => by
  obtain ⟨name, hnm⟩ := (h.completed c).1 hin
  exact hc name hnm

theorem Accounts.move (new : Option (Option (List UInt8))) (f : BusConnection → BusConnection)
    (hnw : (f (s.connections c)).data.map (·.name) = new)
    (hcn : s'.connections = (s.setConnection c f).connections)
    (hcm : s'.completed = s.completed.erase c ++ if new.join.isSome then [c] else [])
    (hi : s'.incomplete = s.incomplete.erase c ++ if new = some none then [c] else [])
    (hnc : s'.nCompleted = s'.completed.length) (hni : s'.nIncomplete = s'.incomplete.length)
    (hu : ∀ uid, s'.connectionsForUid uid = (env.ofUser uid s'.completed).length)
    (hnz : ∀ uid, s'.completedByUser uid ≠ some 0)
    (hnx : s.nextConnection ≤ s'.nextConnection) (hc : c < s'.nextConnection) :
    Accounts env s' := by
  have hst : ∀ c', s'.standing c' = if c' = c then new else s.standing c' := by
    intro c'
    rw [← hnw, ← standing_setConnection, Bus.standing, hcn]
    rfl
  have ho : ∀ {l : List ℕ} (b : Prop) [Decidable b], l.Nodup →
      (l.erase c ++ if b then [c] else []).Nodup := by
    intro l b _ hl
    split
    · refine nodup_append.2 ⟨hl.erase c, nodup_singleton c, ?_⟩
      rintro a ha _ hb rfl
      rw [mem_singleton.1 hb] at ha
      exact hl.not_mem_erase ha
    · simpa using hl.erase c
  have hm : ∀ {l : List ℕ} (b : Prop) [Decidable b] (c' : ℕ), l.Nodup →
      (c' ∈ l.erase c ++ (if b then [c] else []) ↔ if c' = c then b else c' ∈ l) := by
    intro l b _ c' hl
    rw [mem_append, hl.mem_erase_iff]
    by_cases hcc : c' = c <;> by_cases hb : b <;> simp [hcc, hb]
  refine ⟨hnc, hni, ⟨hcm ▸ ho _ h.once.1, hi ▸ ho _ h.once.2⟩,
    fun c' => ?_, fun c' => ?_, hu, hnz, fun c' hc' => ?_⟩
  · rw [hcm, hm _ c' h.once.1, hst, h.completed]
    split
    · rcases new with _ | _ | name <;> simp
    · rfl
  · rw [hi, hm _ c' h.once.2, hst, h.incomplete]
    split <;> rfl
  · rw [hst, if_neg (by omega)]
    exact h.fresh c' (hnx.trans hc')

theorem Accounts.lt_next (hd : (s.connections c).data.isSome) : c < s.nextConnection := by
  by_contra hle
  have hnn := h.fresh c (by omega)
  rw [Bus.standing, map_eq_none_iff] at hnn
  simp [hnn] at hd

theorem Accounts.connect : Accounts env
    { (s.setConnection s.nextConnection fun c => { c with connected := true, data := some .new }) with
      nextConnection := s.nextConnection + 1
      incomplete := s.incomplete ++ [s.nextConnection]
      nIncomplete := s.nIncomplete + 1 } := by
  have hnn := h.fresh s.nextConnection le_rfl
  have hnt : s.nextConnection ∉ s.incomplete := fun hin => by
    simp [(h.incomplete _).1 hin] at hnn
  refine h.move (c := s.nextConnection) (some none)
    (fun c => { c with connected := true, data := some .new }) rfl rfl ?_ ?_
    h.nCompleted (by simp [h.nIncomplete]) h.users h.noZero (Nat.le_succ _) (Nat.lt_succ_self _)
  · rw [erase_of_not_mem (h.not_mem_completed fun name => by simp [hnn])]
    exact (append_nil _).symm
  · simp [erase_of_not_mem hnt]

theorem Accounts.complete (hd : (s.connections c).data = some d) (hnm : d.name = none)
    {name : List UInt8} {table : ℕ → Option ℕ} (hnz : ∀ uid, table uid ≠ some 0)
    (hcn : ∀ uid, (table uid).getD 0 =
      s.connectionsForUid uid + if env.unixUser c = some uid then 1 else 0) :
    Accounts env { (s.setData c fun d => { d with name := some name }) with
      incomplete := s.incomplete.erase c
      nIncomplete := s.nIncomplete - 1
      completed := s.completed ++ [c]
      nCompleted := s.nCompleted + 1
      completedByUser := table } := by
  have hst : s.standing c = some none := by rw [Bus.standing, hd, map_some, hnm]
  refine h.move (c := c) (some (some name))
    (fun x => { x with data := x.data.map fun d => { d with name := some name } })
    (by rw [hd]; rfl) rfl ?_ (append_nil _).symm (by simp [h.nCompleted]) ?_
    (fun uid => ?_) hnz le_rfl (h.lt_next (by simp [hd]))
  · rw [erase_of_not_mem (h.not_mem_completed fun name => by simp [hst])]
    rfl
  · simp [h.nIncomplete, length_erase_of_mem ((h.incomplete c).2 hst)]
  · change (table uid).getD 0 = (env.ofUser uid (s.completed ++ [c])).length
    rw [hcn, h.users, BusEnv.ofUser, BusEnv.ofUser, filter_append, length_append]
    by_cases hu : env.unixUser c = some uid <;> simp [hu]

end

theorem Accounts.sat_complete (hom : oom → env.unixUser c = none) (h : Accounts env s)
    (hd : (s.connections c).data = some d)
    (hnm : d.name = none) (name : List UInt8) (hm : s.nCompleted < env.maxCompletedConnections)
    (hus : ∀ uid, env.unixUser c = some uid → s.connectionsForUid uid < env.maxConnectionsPerUser) :
    Sat (strict oom) (busConnectionComplete env c name) s
      (fun _ s' => Accounts env s' ∧ s'.WithinLimits env (.hello c name)) fun _ => Accounts env := by
  have hin : c ∈ s.incomplete := (h.incomplete c).2 (by
    rw [Bus.standing, hd, map_some, hnm])
  have hp : 0 < s.nIncomplete := h.nIncomplete ▸ length_pos_of_mem hin
  refine sat_read_ok (valueOr_eq_ok.2 hd) ?_
  refine .next (sat_check (assert_of hnm) (.next (sat_allocate ?_ fun _ => h)))
  cases env.createClientPolicy c with
  | error e => exact .next (.next (sat_allocate (sat_throw.2 h) fun _ => h))
  | ok _ =>
    refine .next (sat_pure.2 ?_)
    cases hu : env.unixUser c with
    | none =>
      refine .next (sat_allocate (.next (sat_get.2 (.next (sat_check (assert_of hp)
        (sat_modify.2 ⟨?_, hm, ?_⟩))))) fun _ => h)
      · refine h.complete hd hnm h.noZero fun uid => ?_
        rw [hu, if_neg (by simp)]
        rfl
      · rintro uid hud
        simp [hu] at hud
    | some uid =>
      have hno : ∀ {s' : Bus}, oom → Accounts env s' := fun ho => absurd (hom ho) (by simp [hu])
      refine .next (sat_adjust (.inl (by omega)) (fun new hnz hnw => ?_) fun ho _ => hno ho)
      have hct : (s.setUser uid new).connectionsForUid uid = s.connectionsForUid uid + 1 := by
        rw [connectionsForUid_setUser, if_pos rfl]
        exact_mod_cast hnw
      refine .next (sat_allocate (.next (sat_get.2 (.next (sat_check (assert_of hp)
        (sat_modify.2 ⟨?_, hm, ?_⟩))))) hno)
      · refine h.complete hd hnm (noZero_setUser hnz h.noZero) fun uid' => ?_
        change (s.setUser uid new).connectionsForUid uid' = _
        by_cases he : uid' = uid
        · subst he
          rw [hct, hu, if_pos rfl]
        · rw [connectionsForUid_setUser, if_neg he, hu, if_neg (by simpa using Ne.symm he)]
          rfl
      · rintro uid' hud
        rw [hu, some_inj] at hud
        subst hud
        exact hct.trans_le (hus uid hu)

section
variable (h : Accounts env s) (hd : (s.connections c).data = some d)
include h hd

theorem Accounts.leave (hcn : s'.connections = s.connections)
    (hnx : s'.nextConnection = s.nextConnection)
    (hcm : s'.completed = s.completed.erase c)
    (hi : s'.incomplete = s.incomplete.erase c)
    (hnc : s'.nCompleted = s'.completed.length) (hni : s'.nIncomplete = s'.incomplete.length)
    (hnz : ∀ uid, s'.completedByUser uid ≠ some 0) (hu : ∀ uid, s'.connectionsForUid uid =
      s.connectionsForUid uid - if c ∈ env.ofUser uid s.completed then 1 else 0) :
    Accounts env (s'.setConnection c fun x => { x with data := none }) := by
  refine h.move (c := c) none (fun x => { x with data := none }) rfl
    (by simp [Bus.setConnection, hcn])
    (hcm.trans (append_nil _).symm) (hi.trans (append_nil _).symm) hnc hni
    (fun uid => ?_) hnz hnx.ge (h.lt_next (by simp [hd]) |>.trans_eq hnx.symm)
  change s'.connectionsForUid uid = (env.ofUser uid s'.completed).length
  have her : env.ofUser uid (s.completed.erase c) = (env.ofUser uid s.completed).erase c := by
    rw [BusEnv.ofUser, BusEnv.ofUser, h.once.1.erase_eq_filter,
      (h.once.1.filter _).erase_eq_filter, filter_comm]
  rw [hu, h.users, hcm, her, length_erase]
  split <;> rfl

theorem Accounts.sat_leave :
    Sat (strict True) (accountStep env (.disconnected c)) s (fun _ => Accounts env)
      fun _ => Accounts env := by
  refine .next (sat_read_ok (valueOr_eq_ok.2 hd) (.next (sat_get.2 ?_)))
  cases hnm : d.name with
  | none =>
    have hst : s.standing c = some none := by rw [Bus.standing, hd, map_some, hnm]
    have hin : c ∈ s.incomplete := (h.incomplete c).2 hst
    have hnt : c ∉ s.completed := h.not_mem_completed fun name => by simp [hst]
    rw [if_pos rfl]
    refine .next (sat_check (assert_of (h.nIncomplete ▸ length_pos_of_mem hin))
      (sat_modify.2 (sat_modify.2 (h.leave hd rfl rfl (erase_of_not_mem hnt).symm rfl
      h.nCompleted ?_ h.noZero fun uid => ?_))))
    · simp [h.nIncomplete, length_erase_of_mem hin]
    · rw [if_neg (by simp [BusEnv.ofUser, hnt])]
      rfl
  | some name =>
    have hst : s.standing c = some (some name) := by rw [Bus.standing, hd, map_some, hnm]
    have hin : c ∈ s.completed := (h.completed c).2 ⟨name, hst⟩
    have hnt : c ∉ s.incomplete := fun hm => by simp [(h.incomplete c).1 hm] at hst
    have hl : s.nCompleted - 1 = (s.completed.erase c).length := by
      rw [length_erase_of_mem hin, h.nCompleted]
    rw [if_neg (by simp)]
    refine .next (sat_check (assert_of (h.nCompleted ▸ length_pos_of_mem hin))
      (.next (sat_modify.2 ?_)))
    cases hu : env.unixUser c with
    | none =>
      refine sat_pure.2 (sat_modify.2 (h.leave hd rfl rfl rfl (erase_of_not_mem hnt).symm
        hl h.nIncomplete h.noZero fun uid => ?_))
      rw [if_neg (by simp [BusEnv.ofUser, hu])]
      rfl
    | some uid =>
      have hm : c ∈ env.ofUser uid s.completed := mem_filter.2 ⟨hin, by simp [hu]⟩
      have hps : 0 < s.connectionsForUid uid := h.users uid ▸ length_pos_of_mem hm
      refine sat_adjust (.inl ?_) (fun new hnz hnw => sat_modify.2 (h.leave hd rfl rfl rfl
        (erase_of_not_mem hnt).symm hl h.nIncomplete (noZero_setUser hnz h.noZero)
        fun uid' => ?_)) fun _ h => by cases h
      · change 0 ≤ (s.connectionsForUid uid : ℤ) + -1
        omega
      change (s.setUser uid new).connectionsForUid uid' = _
      rw [connectionsForUid_setUser]
      by_cases he : uid' = uid
      · subst he
        rw [if_pos rfl, if_pos hm]
        change (new.getD 0 : ℤ) = s.connectionsForUid uid' + -1 at hnw
        omega
      · rw [if_neg he, if_neg (by simp [BusEnv.ofUser, hu, Ne.symm he])]
        rfl

end

theorem Accounts.step (h : Accounts env s) {event : AccountEvent} (hp : event.Possible s)
    {fails : List Bool} (hm : event.HasMemory env fails) :
    Ends (fun _ => False) (fun _ s' => Accounts env s' ∧ s'.WithinLimits env event)
      (fun _ => Accounts env) ((accountStep env event).run s fails).1 := by
  cases event with
  | connect => exact ⟨h.connect, trivial⟩
  | disconnected c =>
    obtain ⟨d, hd⟩ := isSome_iff_exists.1 hp
    exact (h.sat_leave hd fails fun _ => trivial).mono (fun _ _ h => ⟨h, trivial⟩) fun _ _ h => h
  | hello c name =>
    obtain ⟨d, hd⟩ := isSome_iff_exists.1 hp
    obtain ⟨oom, ho, hfa⟩ : ∃ oom : Prop, (oom → env.unixUser c = none) ∧
        (true ∈ fails → oom) := ⟨_, id, hm⟩
    have hfl : ∀ {n : ErrorName} {text : List UInt8} {Q : Unit → Bus → Prop},
        Sat (strict oom) (BusM.fail n text) s Q fun _ => Accounts env :=
      .next (sat_allocate (sat_throw.2 h) fun _ => h)
    have hst : Sat (strict oom) (accountStep env (.hello c name)) s
        (fun _ s' => Accounts env s' ∧ s'.WithinLimits env (.hello c name))
        fun _ => Accounts env := by
      refine .next (sat_get.2 (.ite (fun _ => hfl) fun hac => ?_))
      have hnm : d.name = none := by simpa [Bus.isActive, hd] using hac
      refine .next (.next (sat_get.2 (.ite (fun _ => hfl) fun hmx => ?_)))
      have hmx : s.nCompleted < env.maxCompletedConnections := by omega
      cases hu : env.unixUser c with
      | none =>
        refine sat_pure.2 (h.sat_complete ho hd hnm name hmx fun uid hud => ?_)
        simp [hu] at hud
      | some uid =>
        refine .ite (fun _ => hfl) fun hus => sat_pure.2 ?_
        refine h.sat_complete ho hd hnm name hmx fun uid' hud => ?_
        rw [hu, some_inj] at hud
        exact hud ▸ Nat.lt_of_not_le hus
    exact hst fails hfa

theorem AccountRun.accounts (h : AccountRun env s) : Accounts env s := by
  induction h with
  | start =>
    refine ⟨rfl, rfl, ⟨nodup_nil, nodup_nil⟩, fun c => ?_, fun c => ?_, fun _ => rfl,
      fun _ => by rintro ⟨⟩, fun _ _ => rfl⟩
    · exact iff_of_false not_mem_nil (by rintro ⟨_, ⟨⟩⟩)
    · exact iff_of_false not_mem_nil (by rintro ⟨⟩)
  | @step s s' event fails out rest _ hp hm hrn ih =>
    have hen := ih.step hp hm
    rw [hrn] at hen
    cases out with
    | error e => exact hen
    | ok u => exact hen.1
  | other _ hs ih =>
    obtain ⟨hc, hi, hnc, hni, hu, hn, hst⟩ := hs
    refine ⟨by rw [hnc, hc]; exact ih.nCompleted, by rw [hni, hi]; exact ih.nIncomplete,
      by rw [hc, hi]; exact ih.once, by rw [hc, hst]; exact ih.completed,
      by rw [hi, hst]; exact ih.incomplete, by simp only [Bus.connectionsForUid, hu, hc]; exact ih.users,
      by rw [hu]; exact ih.noZero, by rw [hn, hst]; exact ih.fresh⟩

/-- **The accounts are exact** if memory does not run out while a connection of a known user
    says `Hello`: no assertion about them fails, and no `Hello` exceeds the limits. -/
theorem accounts_are_exact (env : BusEnv) (s : Bus) (h : AccountRun env s) :
    Accounts env s ∧ ∀ event : AccountEvent, event.Possible s → ∀ fails,
      event.HasMemory env fails → ∃ out s' rest,
        (accountStep env event).run s fails = (.ok (out, s'), rest) ∧
        Accounts env s' ∧ (out = .ok () → s'.WithinLimits env event) := by
  refine ⟨h.accounts, fun event hp fails hm => ?_⟩
  have hen := h.accounts.step hp hm
  rcases hrn : (accountStep env event).run s fails with ⟨w | ⟨e | u, s'⟩, rest⟩ <;> rw [hrn] at hen
  · exact hen.elim
  · refine ⟨_, s', rest, rfl, hen, ?_⟩
    rintro ⟨⟩
  · exact ⟨_, s', rest, rfl, hen.1, fun _ => hen.2⟩

end

/-- An environment in which every connection is of one user. -/
def oneUserEnv : BusEnv := { openEnv with unixUser := fun _ => some 0 }

/-- A peer connects and says `Hello`. -/
theorem accounts_are_exact_one : ∃ s, AccountRun oneUserEnv s ∧ Accounts oneUserEnv s ∧
    s.completedByUser 0 = some 1 := by
  have hst : AccountRun oneUserEnv .empty := .start
  have hrn := (hst.step .connect [] trivial trivial rfl).step
    (.hello 0 (asciiBytes ":1.0")) [] rfl (by rintro ⟨⟩) rfl
  exact ⟨_, hrn, (accounts_are_exact _ _ hrn).1, rfl⟩

/-- `Hello` runs out of memory for the text about the peer, and is tried again: the connection
    has been counted twice. -/
theorem retried_hello_counted_twice : ∃ s s₁ s₂ out out' rest rest', AccountRun oneUserEnv s ∧
    (accountStep oneUserEnv (.hello 0 (asciiBytes ":1.0"))).run s [false, false, true] =
      (.ok (out, s₁), rest) ∧
    (accountStep oneUserEnv (.hello 0 (asciiBytes ":1.1"))).run s₁ [] = (.ok (out', s₂), rest') ∧
    s₂.completed = [0] ∧ s₂.completedByUser 0 = some 2 ∧ ¬ Accounts oneUserEnv s₂ := by
  have hst : AccountRun oneUserEnv .empty := .start
  have hrn := hst.step .connect [] trivial trivial rfl
  refine ⟨_, _, _, _, _, _, _, hrn, rfl, rfl, rfl, rfl, fun h => ?_⟩
  exact absurd (h.users 0) (by decide)

end DBus
