/-
  The policy of the bus and the policies of its clients: `bus/policy.c`.

  A `BusPolicy` is built by appending rules one by one and by merging in the policies of
  included files.  When a connection is made, the lists that concern it are copied behind one
  another into its client policy (`PolicyBuild.rulesFor`).
-/
import DBus.Bus.Policy

namespace DBus

open LastWins List BusPolicyRule

/-! ## The policy of the bus -/

/-- The tables `rules_by_uid` and `rules_by_gid`. -/
abbrev IdTable := AList fun _ : ℕ => List BusPolicyRule

/-- `get_list`, and rules appended to the list that it returns -/
def appendToId (hash : IdTable) (id : ℕ) (rules : List BusPolicyRule) : IdTable :=
  hash.insert id ((hash.lookup id).getD [] ++ rules)

/-- `merge_id_hash` -/
def mergeIdHash (dest toAbsorb : IdTable) : IdTable :=
  toAbsorb.entries.foldl (fun dest entry => appendToId dest entry.1 entry.2) dest

/-- `BusPolicy` -/
structure BusPolicy where
  defaultRules : List BusPolicyRule := []
  mandatoryRules : List BusPolicyRule := []
  rulesByUid : IdTable := ∅
  rulesByGid : IdTable := ∅
  atConsoleTrueRules : List BusPolicyRule := []
  atConsoleFalseRules : List BusPolicyRule := []

section
variable (policy : BusPolicy)

/-- `bus_policy_append_default_rule` -/
def busPolicyAppendDefaultRule (rule : BusPolicyRule) : BusPolicy :=
  { policy with defaultRules := policy.defaultRules ++ [rule] }

/-- `bus_policy_append_mandatory_rule` -/
def busPolicyAppendMandatoryRule (rule : BusPolicyRule) : BusPolicy :=
  { policy with mandatoryRules := policy.mandatoryRules ++ [rule] }

/-- `bus_policy_append_user_rule` -/
def busPolicyAppendUserRule (uid : ℕ) (rule : BusPolicyRule) : BusPolicy :=
  { policy with rulesByUid := appendToId policy.rulesByUid uid [rule] }

/-- `bus_policy_append_group_rule` -/
def busPolicyAppendGroupRule (gid : ℕ) (rule : BusPolicyRule) : BusPolicy :=
  { policy with rulesByGid := appendToId policy.rulesByGid gid [rule] }

/-- `bus_policy_append_console_rule` -/
def busPolicyAppendConsoleRule (atConsole : Bool) (rule : BusPolicyRule) : BusPolicy :=
  if atConsole then { policy with atConsoleTrueRules := policy.atConsoleTrueRules ++ [rule] }
  else { policy with atConsoleFalseRules := policy.atConsoleFalseRules ++ [rule] }

end

/-- `bus_policy_merge` -/
def busPolicyMerge (policy toAbsorb : BusPolicy) : BusPolicy where
  defaultRules := policy.defaultRules ++ toAbsorb.defaultRules
  mandatoryRules := policy.mandatoryRules ++ toAbsorb.mandatoryRules
  atConsoleTrueRules := policy.atConsoleTrueRules ++ toAbsorb.atConsoleTrueRules
  atConsoleFalseRules := policy.atConsoleFalseRules ++ toAbsorb.atConsoleFalseRules
  rulesByUid := mergeIdHash policy.rulesByUid toAbsorb.rulesByUid
  rulesByGid := mergeIdHash policy.rulesByGid toAbsorb.rulesByGid

/-! ## Client policies -/

/-- What is asked about the user of a connection. -/
structure PolicySubject where
  /-- `bus_connection_get_unix_groups` -/
  unixGroups : Except DBusError (List ℕ)
  /-- `dbus_connection_get_unix_user` -/
  unixUser : Option ℕ
  /-- `_dbus_unix_user_is_at_console` -/
  isAtConsole : ℕ → Except DBusError Bool

def addIdToClient (hash : IdTable) (client : BusClientPolicy) (id : ℕ) : BusClientPolicy :=
  match hash.lookup id with
  | some list => client.addList list
  | none => client

/-- `bus_client_policy_new` -/
def busClientPolicyNew : BusClientPolicy := ⟨[], by simp⟩

section
variable (policy : BusPolicy) (connection : PolicySubject)

/-- The rules of the groups, in `bus_policy_create_client_policy`: the groups are not asked for
    if there are no rules about groups. -/
def addGroupRules (client : BusClientPolicy) : Except DBusError BusClientPolicy :=
  if 0 < policy.rulesByGid.entries.length then do
    let groups ← connection.unixGroups
    return groups.foldl (addIdToClient policy.rulesByGid) client
  else return client

/-- The rules of the user and for its console status, in `bus_policy_create_client_policy` -/
def addUserRules (client : BusClientPolicy) : Except DBusError BusClientPolicy :=
  match connection.unixUser with
  | none => return client
  | some uid => do
    let client := if 0 < policy.rulesByUid.entries.length then
        addIdToClient policy.rulesByUid client uid
      else client
    let atConsole ← connection.isAtConsole uid
    return client.addList
      (if atConsole then policy.atConsoleTrueRules else policy.atConsoleFalseRules)

/-- `bus_policy_create_client_policy` up to the optimisation -/
def collectRules : Except DBusError BusClientPolicy := do
  let client ← addGroupRules policy connection (busClientPolicyNew.addList policy.defaultRules)
  let client ← addUserRules policy connection client
  return client.addList policy.mandatoryRules

/-- `bus_policy_create_client_policy` -/
def busPolicyCreateClientPolicy : Except DBusError (Res (List BusPolicyRule)) := do
  let client ← collectRules policy connection
  return busClientPolicyOptimize client

end

/-! ## The order in which rules are read -/

/-- The lists of a policy. -/
inductive PolicyList where
  | default
  | mandatory
  | user (uid : ℕ)
  | group (gid : ℕ)
  | console (atConsole : Bool)
deriving DecidableEq, Repr

def BusPolicy.append (policy : BusPolicy) (list : PolicyList) (rule : BusPolicyRule) : BusPolicy :=
  match list with
  | .default => busPolicyAppendDefaultRule policy rule
  | .mandatory => busPolicyAppendMandatoryRule policy rule
  | .user uid => busPolicyAppendUserRule policy uid rule
  | .group gid => busPolicyAppendGroupRule policy gid rule
  | .console atConsole => busPolicyAppendConsoleRule policy atConsole rule

def BusPolicy.rulesOf (policy : BusPolicy) : PolicyList → List BusPolicyRule
  | .default => policy.defaultRules
  | .mandatory => policy.mandatoryRules
  | .user uid => (policy.rulesByUid.lookup uid).getD []
  | .group gid => (policy.rulesByGid.lookup gid).getD []
  | .console true => policy.atConsoleTrueRules
  | .console false => policy.atConsoleFalseRules

/-- The ways to build a policy. -/
inductive PolicyBuild where
  | new
  | append (b : PolicyBuild) (list : PolicyList) (rule : BusPolicyRule)
  | merge (b toAbsorb : PolicyBuild)

def PolicyBuild.policy : PolicyBuild → BusPolicy
  | .new => {}
  | .append b list rule => b.policy.append list rule
  | .merge b toAbsorb => busPolicyMerge b.policy toAbsorb.policy

def PolicyBuild.read : PolicyBuild → List (PolicyList × BusPolicyRule)
  | .new => []
  | .append b list rule => b.read ++ [(list, rule)]
  | .merge b toAbsorb => b.read ++ toAbsorb.read

/-- The rules of one list, in the order they are read. -/
def PolicyBuild.rulesOf (b : PolicyBuild) (list : PolicyList) : List BusPolicyRule :=
  (b.read.filter (·.1 = list)).map (·.2)

/-- The rules that concern a connection: those for everyone, those of its groups, of its
    user, those for its console status, and the mandatory ones. -/
def PolicyBuild.rulesFor (b : PolicyBuild) (groups : List ℕ) (user : Option ℕ) (atConsole : Bool) :
    List BusPolicyRule :=
  b.rulesOf .default ++ groups.flatMap (fun gid => b.rulesOf (.group gid)) ++
    user.elim [] (fun uid => b.rulesOf (.user uid) ++ b.rulesOf (.console atConsole)) ++
    b.rulesOf .mandatory

/-! ## Each list is in order -/

theorem lookup_appendToId (hash : IdTable) (id id' : ℕ) (rules : List BusPolicyRule) :
    ((appendToId hash id rules).lookup id').getD [] =
      (hash.lookup id').getD [] ++ if id' = id then rules else [] := by
  rw [appendToId]
  by_cases h : id' = id
  · subst h
    simp [AList.lookup_insert]
  · rw [AList.lookup_insert_ne h, if_neg h, append_nil]

theorem lookup_foldl_append (entries : List (Sigma fun _ : ℕ => List BusPolicyRule))
    (hnd : entries.NodupKeys) (dest : IdTable) (id : ℕ) :
    ((entries.foldl (fun dest e => appendToId dest e.1 e.2) dest).lookup id).getD [] =
      (dest.lookup id).getD [] ++ (entries.dlookup id).getD [] := by
  induction entries generalizing dest with
  | nil => simp
  | cons e entries ih =>
    obtain ⟨hnt, hrs⟩ := nodupKeys_cons.1 hnd
    rw [foldl_cons, ih hrs, lookup_appendToId, append_assoc]
    congr 1
    by_cases h : id = e.1
    · subst h
      rw [if_pos rfl, dlookup_eq_none.2 hnt, dlookup_cons_eq]
      simp
    · simp [if_neg h, dlookup_cons_ne _ _ h]

theorem lookup_mergeIdHash (dest toAbsorb : IdTable) (id : ℕ) :
    ((mergeIdHash dest toAbsorb).lookup id).getD [] =
      (dest.lookup id).getD [] ++ (toAbsorb.lookup id).getD [] :=
  lookup_foldl_append toAbsorb.entries toAbsorb.nodupKeys dest id

theorem BusPolicy.rulesOf_append (policy : BusPolicy) (list list' : PolicyList)
    (rule : BusPolicyRule) : (policy.append list rule).rulesOf list' =
      policy.rulesOf list' ++ if list' = list then [rule] else [] := by
  cases list with
  | default =>
    rcases list' with _ | _ | uid' | gid' | _ | _ <;>
      simp [append, rulesOf, busPolicyAppendDefaultRule]
  | mandatory =>
    rcases list' with _ | _ | uid' | gid' | _ | _ <;>
      simp [append, rulesOf, busPolicyAppendMandatoryRule]
  | user uid =>
    rcases list' with _ | _ | uid' | gid' | _ | _ <;>
      simp [append, rulesOf, busPolicyAppendUserRule, lookup_appendToId]
  | group gid =>
    rcases list' with _ | _ | uid' | gid' | _ | _ <;>
      simp [append, rulesOf, busPolicyAppendGroupRule, lookup_appendToId]
  | console atConsole =>
    cases atConsole <;> rcases list' with _ | _ | uid' | gid' | _ | _ <;>
      simp [append, rulesOf, busPolicyAppendConsoleRule]

theorem BusPolicy.rulesOf_merge (policy toAbsorb : BusPolicy) (list : PolicyList) :
    (busPolicyMerge policy toAbsorb).rulesOf list =
      policy.rulesOf list ++ toAbsorb.rulesOf list := by
  rcases list with _ | _ | uid | gid | _ | _
  · rfl
  · rfl
  · exact lookup_mergeIdHash _ _ uid
  · exact lookup_mergeIdHash _ _ gid
  · rfl
  · rfl

/-- **Each list of a policy has its rules in the order they are read.** -/
theorem PolicyBuild.rulesOf_read (b : PolicyBuild) (list : PolicyList) :
    b.policy.rulesOf list = b.rulesOf list := by
  induction b with
  | new => rcases list with _ | _ | uid | gid | _ | _ <;> rfl
  | append b list' rule ih =>
    rw [policy, BusPolicy.rulesOf_append, ih, rulesOf, rulesOf, read, filter_append, map_append]
    congr 1
    by_cases h : list = list'
    · simp [h]
    · simp [h, Ne.symm h]
  | merge b toAbsorb ih ih' =>
    rw [policy, BusPolicy.rulesOf_merge, ih, ih', rulesOf, rulesOf, rulesOf, read,
      filter_append, map_append]

/-! ## What a client policy decides -/

/-- The answer of the last rule that applies, and no if none does. -/
def lastAnswer (used : BusPolicyRule → Bool) (rules : List BusPolicyRule) : Bool :=
  ((governing used rules).map (·.allow)).getD false

@[simp] theorem rules_busClientPolicyNew : busClientPolicyNew.rules = [] := rfl

@[simp] theorem BusClientPolicy.rules_addList (client : BusClientPolicy)
    (list : List BusPolicyRule) :
    (client.addList list).rules = client.rules ++ list.filter isPerClient := rfl

@[simp] theorem rules_addIdToClient (hash : IdTable) (client : BusClientPolicy) (id : ℕ) :
    (addIdToClient hash client id).rules =
      client.rules ++ ((hash.lookup id).getD []).filter isPerClient := by
  rw [addIdToClient]
  cases hash.lookup id with
  | none => simp
  | some list => rfl

theorem rules_foldl_addId (hash : IdTable) (ids : List ℕ) (client : BusClientPolicy) :
    (ids.foldl (addIdToClient hash) client).rules = client.rules ++
      (ids.flatMap fun id => (hash.lookup id).getD []).filter isPerClient := by
  induction ids generalizing client with
  | nil => simp
  | cons id ids ih => simp [ih]

theorem lookup_of_empty {hash : IdTable} (h : ¬ 0 < hash.entries.length) (id : ℕ) :
    hash.lookup id = none := by
  have hnl : hash.entries = [] := length_eq_zero_iff.1 (Nat.eq_zero_of_not_pos h)
  rw [AList.lookup, hnl, dlookup_nil]

section
variable {policy : BusPolicy} {connection : PolicySubject} {client client' : BusClientPolicy}

theorem rules_addGroupRules (h : addGroupRules policy connection client = .ok client') :
    client'.rules = client.rules ++ ((connection.unixGroups.toOption.getD []).flatMap fun gid =>
      policy.rulesOf (.group gid)).filter isPerClient := by
  rw [addGroupRules] at h
  split at h
  · cases hg : connection.unixGroups with
    | error e => simp [hg] at h
    | ok groups =>
      rw [hg] at h
      cases h
      exact rules_foldl_addId policy.rulesByGid groups client
  · cases h
    have hnn (gid : ℕ) : policy.rulesOf (.group gid) = [] := by
      simp [BusPolicy.rulesOf, lookup_of_empty ‹_›]
    simp [hnn]

/-- The console status of the user, if it is known. -/
def PolicySubject.atConsole (connection : PolicySubject) : Bool :=
  connection.unixUser.any fun uid => (connection.isAtConsole uid).toOption.getD false

theorem rules_addUserRules (h : addUserRules policy connection client = .ok client') :
    client'.rules = client.rules ++ (connection.unixUser.elim [] fun uid =>
      policy.rulesOf (.user uid) ++ policy.rulesOf (.console connection.atConsole)).filter
        isPerClient := by
  rw [addUserRules] at h
  cases hu : connection.unixUser with
  | none =>
    rw [hu] at h
    cases h
    simp
  | some uid =>
    rw [hu] at h
    cases hcn : connection.isAtConsole uid with
    | error e =>
      simp only [hcn] at h
      cases h
    | ok atConsole =>
      simp only [hcn] at h
      cases h
      have hst : connection.atConsole = atConsole := by
        simp [PolicySubject.atConsole, hu, hcn, Except.toOption]
      have hud : (if 0 < policy.rulesByUid.entries.length then
          addIdToClient policy.rulesByUid client uid else client).rules =
            client.rules ++ (policy.rulesOf (.user uid)).filter isPerClient := by
        split
        · exact rules_addIdToClient policy.rulesByUid client uid
        · simp [BusPolicy.rulesOf, lookup_of_empty ‹_›]
      rw [BusClientPolicy.rules_addList, hud, hst, Option.elim_some, filter_append, append_assoc]
      cases atConsole <;> rfl

/-- The rules of a client policy are those that concern its connection, less those about
    who may connect. -/
theorem rules_collectRules {b : PolicyBuild} (h : collectRules b.policy connection = .ok client) :
    client.rules = (b.rulesFor (connection.unixGroups.toOption.getD []) connection.unixUser
      connection.atConsole).filter isPerClient := by
  obtain ⟨client1, hg, h⟩ := Outcome.bind_eq_ok.1 h
  obtain ⟨client2, hu, h⟩ := Outcome.bind_eq_ok.1 h
  cases h
  have hdf : b.policy.defaultRules = b.rulesOf .default := b.rulesOf_read .default
  have hm : b.policy.mandatoryRules = b.rulesOf .mandatory := b.rulesOf_read .mandatory
  rw [BusClientPolicy.rules_addList, rules_addUserRules hu, rules_addGroupRules hg,
    PolicyBuild.rulesFor]
  simp only [PolicyBuild.rulesOf_read, hdf, hm, filter_append,
    BusClientPolicy.rules_addList, rules_busClientPolicyNew, nil_append]

end

theorem governing_filter {α : Type} {used keep : α → Bool} (l : List α)
    (h : ∀ a ∈ l, used a = true → keep a = true) :
    governing used (l.filter keep) = governing used l := by
  induction l with
  | nil => rfl
  | cons a l ih =>
    have hl := ih fun a' ha' => h a' (mem_cons_of_mem _ ha')
    by_cases hk : keep a = true
    · rw [filter_cons_of_pos hk, governing, governing, hl]
    · have hu : ¬ used a = true := fun hu => hk (h a mem_cons_self hu)
      rw [filter_cons_of_neg hk, governing, hl, if_neg hu, Option.or_none]

/-- Rules of one kind decide as the last one that applies does, also among those that are
    collected. -/
theorem allowed_collectRules {b : PolicyBuild} {connection : PolicySubject}
    {client : BusClientPolicy} {used : BusPolicyRule → Bool} {k : BusPolicyRuleType}
    (h : collectRules b.policy connection = .ok client) (hk : ∀ r, used r = true → r.type = k)
    (hp : k ∈ [.send, .receive, .own]) :
    (checkRules used {} client.rules).allowed = lastAnswer used
      (b.rulesFor (connection.unixGroups.toOption.getD []) connection.unixUser
        connection.atConsole) := by
  rw [allowed_checkRules, rules_collectRules h, governing_filter]
  · rfl
  · rintro ⟨allow, d⟩ - hu
    rw [← hk _ hu] at hp
    cases d <;> first | rfl | simp [BusPolicyRule.type] at hp

/-- **A client policy decides as the last rule that applies does**, among the rules for everyone,
    those of each group, those of the user, those for the console status and the mandatory ones,
    each list in the order its rules were read; and it denies if none applies. -/
theorem clientPolicy_decides (b : PolicyBuild) (connection : PolicySubject)
    (client : BusClientPolicy) (h : collectRules b.policy connection = .ok client) (bus : Bus) :
    let rules := b.rulesFor (connection.unixGroups.toOption.getD []) connection.unixUser
      connection.atConsole
    (∀ requestedReply receiver message,
      (busClientPolicyCheckCanSend client.rules bus requestedReply receiver message).allowed =
        lastAnswer (usedToSend bus requestedReply receiver message) rules) ∧
    (∀ requestedReply sender addressed proposed message,
      (busClientPolicyCheckCanReceive client.rules bus requestedReply sender addressed proposed
        message).allowed =
        lastAnswer (usedToReceive bus requestedReply sender addressed proposed message) rules) ∧
    ∀ name, busClientPolicyCheckCanOwn client.rules name = lastAnswer (usedToOwn name) rules := by
  refine ⟨fun _ _ _ => ?_, fun _ _ _ _ _ => ?_, fun _ => ?_⟩
  · exact allowed_collectRules h (fun _ => type_of_usedToSend) (by decide)
  · exact allowed_collectRules h (fun _ => type_of_usedToReceive) (by decide)
  · exact allowed_collectRules h (fun _ => type_of_usedToOwn) (by decide)

theorem collectRules_known (policy : BusPolicy) {connection : PolicySubject} {groups : List ℕ}
    (hgr : connection.unixGroups = .ok groups)
    (hcn : ∀ uid, connection.unixUser = some uid → ∃ b, connection.isAtConsole uid = .ok b) :
    ∃ client, collectRules policy connection = .ok client := by
  have hg (client : BusClientPolicy) :
      ∃ client', addGroupRules policy connection client = .ok client' := by
    rw [addGroupRules, hgr]
    split
    · exact ⟨_, rfl⟩
    · exact ⟨_, rfl⟩
  have hus (client : BusClientPolicy) :
      ∃ client', addUserRules policy connection client = .ok client' := by
    rw [addUserRules]
    cases hu : connection.unixUser with
    | none => exact ⟨_, rfl⟩
    | some uid =>
      obtain ⟨b, hb⟩ := hcn uid hu
      simp only [hb]
      exact ⟨_, rfl⟩
  obtain ⟨client1, h1⟩ := hg (busClientPolicyNew.addList policy.defaultRules)
  obtain ⟨client2, h2⟩ := hus client1
  refine ⟨client2.addList policy.mandatoryRules, ?_⟩
  rw [collectRules, h1]
  simp [h2]

/-- No one may own the name, but the group 7 may; the mandatory rules come with another file. -/
def groupBuild : PolicyBuild :=
  .merge (.append (.append .new (.group 7) ⟨true, .own (some (asciiBytes "a.b"))⟩) .default
    ⟨false, .own none⟩) (.append .new .mandatory ⟨false, .own (some (asciiBytes "a.c"))⟩)

/-- A user of the groups 3 and 7 that is not at the console. -/
def groupUser : PolicySubject := ⟨.ok [3, 7], some 1000, fun _ => .ok false⟩

theorem clientPolicy_decides_group : ∃ client, collectRules groupBuild.policy groupUser = .ok client ∧
    busClientPolicyCheckCanOwn client.rules (asciiBytes "a.b") = true ∧
    busClientPolicyCheckCanOwn client.rules (asciiBytes "a.c") = false := by
  obtain ⟨client, h⟩ := collectRules_known groupBuild.policy (show groupUser.unixGroups = _ from rfl)
    fun _ _ => ⟨false, rfl⟩
  have ho := (clientPolicy_decides groupBuild groupUser client h .empty).2.2
  refine ⟨client, h, ?_, ?_⟩
  · rw [ho]
    decide
  · rw [ho]
    decide

/-! ## The policy that a connection gets -/

/-- **A connection is never allowed what the rules deny**, although rules are deleted from the
    policy that is made for it. -/
theorem createdPolicy_allows (b : PolicyBuild) (connection : PolicySubject)
    (rules : List BusPolicyRule)
    (h : busPolicyCreateClientPolicy b.policy connection = .ok (.ok rules)) (bus : Bus) :
    let read := b.rulesFor (connection.unixGroups.toOption.getD []) connection.unixUser
      connection.atConsole
    (∀ requestedReply receiver message,
      (busClientPolicyCheckCanSend rules bus requestedReply receiver message).allowed = true →
        lastAnswer (usedToSend bus requestedReply receiver message) read = true) ∧
    (∀ requestedReply sender addressed proposed message,
      (busClientPolicyCheckCanReceive rules bus requestedReply sender addressed proposed
        message).allowed = true →
        lastAnswer (usedToReceive bus requestedReply sender addressed proposed message) read =
          true) ∧
    ∀ name, busClientPolicyCheckCanOwn rules name = true →
      lastAnswer (usedToOwn name) read = true := by
  intro read
  obtain ⟨client, hcl, h⟩ := Outcome.bind_eq_ok.1 h
  rw [busClientPolicyOptimize_eq] at h
  cases h
  have hdc (used : BusPolicyRule → Bool) (k : BusPolicyRuleType)
      (hk : ∀ r, used r = true → r.type = k) (hp : k ∈ [.send, .receive, .own])
      (h : (checkRules used {} (pruned covers client.rules)).allowed = true) :
      lastAnswer used read = true := by
    rw [← allowed_collectRules hcl hk hp]
    by_cases hdl : AllowanceDeleted used client.rules
    · -- the rule that decides is deleted, and it is one that allows
      obtain ⟨pre, r, post, hl, hr, hal, hp, -⟩ := hdl
      rw [allowed_checkRules, governing_eq_some.2 ⟨pre, post, hl, hr, hp⟩]
      exact hal
    · rwa [← (allowed_pruned_iff used _ hk {} rfl).2 hdl]
  refine ⟨fun _ _ _ => ?_, fun _ _ _ _ _ => ?_, fun _ => ?_⟩
  · exact hdc _ _ (fun _ => type_of_usedToSend) (by decide)
  · exact hdc _ _ (fun _ => type_of_usedToReceive) (by decide)
  · exact hdc _ _ (fun _ => type_of_usedToOwn) (by decide)

theorem createdPolicy_group : ∃ rules,
    busPolicyCreateClientPolicy groupBuild.policy groupUser = .ok (.ok rules) ∧
      busClientPolicyCheckCanOwn rules (asciiBytes "a.c") = false := by
  obtain ⟨client, h⟩ := collectRules_known groupBuild.policy (show groupUser.unixGroups = _ from rfl)
    fun _ _ => ⟨false, rfl⟩
  have hc := (Outcome.bind_eq_ok (f := fun client => .ok (busClientPolicyOptimize client))).2
    ⟨client, h, congrArg _ (busClientPolicyOptimize_eq client)⟩
  have ho := (createdPolicy_allows groupBuild groupUser _ hc .empty).2.2 (asciiBytes "a.c")
  exact ⟨_, hc, Bool.eq_false_iff.2 fun h => absurd (ho h) (by decide)⟩

end DBus
