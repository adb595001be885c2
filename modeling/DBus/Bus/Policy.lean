/-
  Client policies: `bus/policy.c`.

  Of the rules that apply to a message or a name the last one decides.
  `bus_client_policy_optimize` deletes the rules before a rule of the same type without any
  constraint.  Such a rule may still not apply, to a reply or to a message that is overheard,
  so a rule that decides and allows may be one of those deleted (`optimize_decides_iff`).
-/
import DBus.Bus.State
import DBus.Lib.LastWins

namespace DBus

open Outcome LastWins List

/-! ## Rules -/

/-- `BusPolicyRuleType` -/
inductive BusPolicyRuleType where
  | send
  | receive
  | own
  | user
  | group
deriving DecidableEq, Repr

/-- What the rules for sending and those for receiving say of a message; `none` and
    `DBUS_MESSAGE_TYPE_INVALID` stand for any. -/
structure MessagePattern where
  messageType : MessageType := .invalid
  path : Option (List UInt8) := none
  interface : Option (List UInt8) := none
  member : Option (List UInt8) := none
  error : Option (List UInt8) := none
  /-- the destination of a message to be sent, the origin of one to be received -/
  peer : Option (List UInt8) := none
  eavesdrop : Bool := false
  requestedReply : Bool
  /-- only for sending -/
  log : Bool := false
deriving DecidableEq, Repr

/-- The union in a rule; `none` is `DBUS_UID_UNSET` or `DBUS_GID_UNSET`. -/
inductive BusPolicyRuleData where
  | send (p : MessagePattern)
  | receive (p : MessagePattern)
  | own (serviceName : Option (List UInt8))
  | user (uid : Option ℕ)
  | group (gid : Option ℕ)
deriving DecidableEq, Repr

/-- `BusPolicyRule` -/
structure BusPolicyRule where
  allow : Bool
  d : BusPolicyRuleData
deriving DecidableEq, Repr

namespace BusPolicyRule

def type (r : BusPolicyRule) : BusPolicyRuleType :=
  match r.d with
  | .send _ => .send
  | .receive _ => .receive
  | .own _ => .own
  | .user _ => .user
  | .group _ => .group

/-- `bus_policy_rule_new`, for a rule about messages: a rule that allows is about requested
    replies only unless it says otherwise, one that denies about unrequested ones. -/
def newPattern (allow : Bool) : MessagePattern := { requestedReply := allow }

/-- `BUS_POLICY_RULE_IS_PER_CLIENT` -/
def isPerClient (r : BusPolicyRule) : Bool := r.type ≠ .user ∧ r.type ≠ .group

end BusPolicyRule

/-- `BusClientPolicy`: `add_list_to_client` takes over the rules about connections only -/
structure BusClientPolicy where
  rules : List BusPolicyRule
  perClient : ∀ r ∈ rules, r.isPerClient = true

/-- `add_list_to_client` -/
def BusClientPolicy.addList (client : BusClientPolicy) (list : List BusPolicyRule) :
    BusClientPolicy where
  rules := client.rules ++ list.filter BusPolicyRule.isPerClient
  perClient r hr := by
    rcases mem_append.1 hr with h | h
    · exact client.perClient r h
    · exact (mem_filter.1 h).2

/-! ## Optimisation -/

/-- There is no constraint in a pattern; its flags are not looked at. -/
def MessagePattern.isBlanket (p : MessagePattern) : Bool :=
  p.messageType = .invalid ∧ p.path = none ∧ p.interface = none ∧ p.member = none ∧
    p.error = none ∧ p.peer = none

/-- `remove_preceding`, in `bus_client_policy_optimize` -/
def BusPolicyRule.removePreceding (r : BusPolicyRule) : Res Bool :=
  match r.d with
  | .send p => .ok p.isBlanket
  | .receive p => .ok p.isBlanket
  | .own serviceName => .ok (serviceName = none)
  | .user _ | .group _ => .error .assertion

/-- The loop of `bus_client_policy_optimize`: `kept` has the rules before the link. -/
def optimizeLoop (kept : List BusPolicyRule) : List BusPolicyRule → Res (List BusPolicyRule)
  | [] => .ok kept
  | rule :: next => do
    let removePreceding ← rule.removePreceding
    -- `remove_rules_by_type_up_to`
    let kept := if removePreceding then kept.filter (·.type ≠ rule.type) else kept
    optimizeLoop (kept ++ [rule]) next

/-- `bus_client_policy_optimize` -/
def busClientPolicyOptimize (policy : BusClientPolicy) : Res (List BusPolicyRule) :=
  optimizeLoop [] policy.rules

/-! ## Checks -/

/-- `bus_registry_lookup` and `bus_service_has_owner` -/
def Bus.ownsName (bus : Bus) (connection : ℕ) (name : List UInt8) : Bool :=
  ((bus.registry.lookup name).bind bus.registry.services).any fun s =>
    s.owners.any fun o => (bus.registry.owners o).any (·.conn = connection)

/-- A constraint on a field that a message may lack: such a message is not excluded. -/
def fieldAdmits (constraint field : Option (List UInt8)) : Bool :=
  match constraint, field with
  | some c, some f => f = c
  | _, _ => true

/-- The constraint on the interface: a message without one is not allowed and not spared. -/
def interfaceAdmits (allow : Bool) (constraint field : Option (List UInt8)) : Bool :=
  match constraint, field with
  | none, _ => true
  | some _, none => !allow
  | some c, some f => f = c

/-- The constraint on the peer: a connection must own the name; where the peer is the bus
    itself, the message must have the name in its field. -/
def peerAdmits (bus : Bus) (constraint : Option (List UInt8)) (peer : Option ℕ)
    (field : Option (List UInt8)) : Bool :=
  match constraint, peer with
  | none, _ => true
  | some name, none => field = some name
  | some name, some connection => bus.ownsName connection name

/-- How replies are treated: a rule that allows and asks for requested replies passes over
    others, unless it is for eavesdropping; one that denies and does not ask for them passes
    over requested ones. -/
def replyAdmits (allow : Bool) (p : MessagePattern) (requestedReply : Bool) (m : BusMessage) : Bool :=
  m.replySerial = 0 ∨ (¬ (requestedReply = false ∧ allow ∧ p.requestedReply ∧ p.eavesdrop = false) ∧
    ¬ (requestedReply ∧ allow = false ∧ p.requestedReply = false))

/-- The constraints of a pattern other than those on the peer and on eavesdropping. -/
def MessagePattern.admits (p : MessagePattern) (allow requestedReply : Bool) (m : BusMessage) : Bool :=
  (p.messageType = .invalid ∨ m.type = p.messageType) ∧ replyAdmits allow p requestedReply m ∧
    fieldAdmits p.path m.path ∧ interfaceAdmits allow p.interface m.interface ∧
    fieldAdmits p.member m.member ∧ fieldAdmits p.error m.errorName

/-- Whether `bus_client_policy_check_can_send` uses a rule. -/
def usedToSend (bus : Bus) (requestedReply : Bool) (receiver : Option ℕ) (m : BusMessage)
    (r : BusPolicyRule) : Bool :=
  match r.d with
  | .send p => p.admits r.allow requestedReply m && peerAdmits bus p.peer receiver m.destination
  | _ => false

def isEavesdropping (addressed proposed : Option ℕ) (m : BusMessage) : Bool :=
  addressed ≠ proposed ∧ m.destination ≠ none

/-- A rule that allows is for eavesdropping only if it says so; one that denies and says so
    is for nothing else. -/
def eavesdropAdmits (allow : Bool) (p : MessagePattern) (eavesdropping : Bool) : Bool :=
  ¬ (eavesdropping ∧ allow ∧ p.eavesdrop = false) ∧
    ¬ (eavesdropping = false ∧ allow = false ∧ p.eavesdrop)

/-- Whether `bus_client_policy_check_can_receive` uses a rule. -/
def usedToReceive (bus : Bus) (requestedReply : Bool) (sender addressed proposed : Option ℕ)
    (m : BusMessage) (r : BusPolicyRule) : Bool :=
  match r.d with
  | .receive p => eavesdropAdmits r.allow p (isEavesdropping addressed proposed m) &&
      p.admits r.allow requestedReply m && peerAdmits bus p.peer sender m.sender
  | _ => false

/-- Whether `bus_client_policy_check_can_own` uses a rule. -/
def usedToOwn (name : List UInt8) (r : BusPolicyRule) : Bool :=
  match r.d with
  | .own serviceName => serviceName.all (name = ·)
  | _ => false

/-- What the checks return: the answer, the number of rules used, and whether to log the
    message if a rule for sending has said so. -/
structure PolicyDecision where
  allowed : Bool := false
  toggles : ℕ := 0
  log : Option Bool := none
deriving DecidableEq, Repr

/-- The loop of the checks: the last rule that is used wins. -/
def checkRules (used : BusPolicyRule → Bool) (decision : PolicyDecision) :
    List BusPolicyRule → PolicyDecision
  | [] => decision
  | rule :: rest =>
    if used rule then
      let log := match rule.d with
        | .send p => some p.log
        | _ => none
      checkRules used ⟨rule.allow, decision.toggles + 1, log⟩ rest
    else checkRules used decision rest

section
variable (rules : List BusPolicyRule) (bus : Bus) (requestedReply : Bool)

/-- `bus_client_policy_check_can_send` -/
def busClientPolicyCheckCanSend (receiver : Option ℕ) (message : BusMessage) : PolicyDecision :=
  checkRules (usedToSend bus requestedReply receiver message) {} rules

/-- `bus_client_policy_check_can_receive` -/
def busClientPolicyCheckCanReceive (sender addressed proposed : Option ℕ) (message : BusMessage) :
    PolicyDecision :=
  checkRules (usedToReceive bus requestedReply sender addressed proposed message) {} rules

end

/-- `bus_client_policy_check_can_own` -/
def busClientPolicyCheckCanOwn (rules : List BusPolicyRule) (serviceName : List UInt8) : Bool :=
  (checkRules (usedToOwn serviceName) {} rules).allowed

/-! ## What decides -/

section
variable {used : BusPolicyRule → Bool} {rules : List BusPolicyRule}

theorem allowed_checkRules (used : BusPolicyRule → Bool) (decision : PolicyDecision)
    (rules : List BusPolicyRule) : (checkRules used decision rules).allowed =
      ((governing used rules).map (·.allow)).getD decision.allowed := by
  induction rules generalizing decision with
  | nil => rfl
  | cons rule rest ih =>
    rw [checkRules, governing]
    by_cases hu : used rule = true
    · rw [if_pos hu, if_pos hu, ih]
      cases governing used rest <;> rfl
    · rw [if_neg hu, if_neg hu, ih, Option.or_none]

def covers (r' r : BusPolicyRule) : Bool :=
  r'.type = r.type ∧ r'.removePreceding.toOption = some true

theorem covers_iff {r' r : BusPolicyRule} :
    covers r' r = true ↔ r'.type = r.type ∧ r'.removePreceding = .ok true := by
  rw [covers, decide_eq_true_eq]
  refine and_congr_right fun _ => ?_
  cases r'.removePreceding <;> simp [Except.toOption]

theorem removePreceding_of_perClient {r : BusPolicyRule} (h : r.isPerClient = true) :
    ∃ b, r.removePreceding = .ok b := by
  obtain ⟨allow, d⟩ := r
  cases d with
  | user uid => cases h
  | group gid => cases h
  | _ => exact ⟨_, rfl⟩

theorem optimizeLoop_eq (kept : List BusPolicyRule) (h : ∀ r ∈ rules, r.isPerClient = true) :
    optimizeLoop kept rules =
      .ok (kept.filter (fun r => !rules.any (covers · r)) ++ pruned covers rules) := by
  induction rules generalizing kept with
  | nil => simp [optimizeLoop, pruned]
  | cons rule next ih =>
    obtain ⟨b, hb⟩ := removePreceding_of_perClient (h rule (by simp))
    have hnx := fun k => ih k fun r hr => h r (mem_cons_of_mem _ hr)
    rw [optimizeLoop, hb, ok_bind, hnx]
    -- what the link itself deletes, and what the links behind it delete
    have hcv : ∀ r, covers rule r = (decide (rule.type = r.type) && b) := by
      intro r
      rw [Bool.eq_iff_iff, covers_iff, hb]
      simp
    have hkp : (if b = true then kept.filter (·.type ≠ rule.type) else kept).filter
          (fun r => !next.any (covers · r)) =
        kept.filter fun r => !(rule :: next).any (covers · r) := by
      cases b with
      | false => simp [hcv]
      | true =>
        rw [if_pos rfl, filter_filter]
        refine filter_congr fun r _ => ?_
        simp [hcv, Bool.and_comm, eq_comm]
    rw [filter_append, hkp, pruned, append_assoc]
    by_cases han : next.any (covers · rule) = true
    · simp [han]
    · simp [han]

theorem busClientPolicyOptimize_eq (policy : BusClientPolicy) :
    busClientPolicyOptimize policy = .ok (pruned covers policy.rules) := by
  rw [busClientPolicyOptimize, optimizeLoop_eq [] policy.perClient]
  rfl

section
variable (used : BusPolicyRule → Bool) (rules : List BusPolicyRule)

/-- The rule that decides allows, and a later rule of its type has no constraint. -/
def AllowanceDeleted : Prop :=
  ∃ pre r post, rules = pre ++ r :: post ∧ used r = true ∧ r.allow = true ∧
    (∀ r' ∈ post, used r' = false) ∧ ∃ r' ∈ post, covers r' r = true

theorem allowed_pruned_iff {k : BusPolicyRuleType} (hk : ∀ r, used r = true → r.type = k)
    (decision : PolicyDecision) (hd : decision.allowed = false) :
    (checkRules used decision (pruned covers rules)).allowed =
      (checkRules used decision rules).allowed ↔ ¬ AllowanceDeleted used rules := by
  have hcv : ∀ x r r', used r = true → used r' = true → covers x r = covers x r' := by
    intro x r r' hr hr'
    rw [covers, covers, hk r hr, hk r' hr']
  obtain ⟨hkp, hlo⟩ := governing_pruned hcv rules
  rw [allowed_checkRules, allowed_checkRules, hd]
  by_cases hls : Lost used covers rules
  · obtain ⟨pre, r, post, hl, hr, hp, hc⟩ := hls
    have hg : governing used rules = some r := governing_eq_some.2 ⟨pre, post, hl, hr, hp⟩
    rw [hlo ⟨pre, r, post, hl, hr, hp, hc⟩, hg]
    constructor
    · rintro he ⟨pre', r', post', hl', hr', hal, hp', -⟩
      have hg' : governing used rules = some r' := governing_eq_some.2 ⟨pre', post', hl', hr', hp'⟩
      rw [hg] at hg'
      cases hg'
      simp [Option.map_some, Option.getD_some, hal] at he
    · intro hnt
      cases hal : r.allow with
      | false => simp [hal]
      | true => exact absurd ⟨pre, r, post, hl, hr, hal, hp, hc⟩ hnt
  · rw [hkp hls]
    refine iff_of_true rfl ?_
    rintro ⟨pre, r, post, hl, hr, -, hp, hc⟩
    exact hls ⟨pre, r, post, hl, hr, hp, hc⟩

end

end

variable {m : BusMessage} {r : BusPolicyRule} {name : List UInt8}

theorem type_of_usedToSend {bus : Bus} {q : Bool} {c : Option ℕ}
    (h : usedToSend bus q c m r = true) : r.type = .send := by
  obtain ⟨allow, d⟩ := r
  cases d <;> first | rfl | cases h

theorem type_of_usedToReceive {bus : Bus} {q : Bool} {s c p : Option ℕ}
    (h : usedToReceive bus q s c p m r = true) : r.type = .receive := by
  obtain ⟨allow, d⟩ := r
  cases d <;> first | rfl | cases h

theorem type_of_usedToOwn (h : usedToOwn name r = true) : r.type = .own := by
  obtain ⟨allow, d⟩ := r
  cases d <;> first | rfl | cases h

theorem usedToOwn_of_covers {r' : BusPolicyRule} (h : covers r' r = true)
    (hr : usedToOwn name r = true) : usedToOwn name r' = true := by
  obtain ⟨ht, hp⟩ := covers_iff.1 h
  rw [type_of_usedToOwn hr] at ht
  obtain ⟨allow, d⟩ := r'
  cases d <;> cases ht
  rename_i serviceName
  cases serviceName with
  | none => rfl
  | some n => cases hp

/-- Optimising a policy keeps the three answers if and only if, of the rules for sending and
    of those for receiving, the one that decides denies or is not deleted. -/
theorem optimize_decides_iff (policy : BusClientPolicy) (bus : Bus) (message : BusMessage)
    (requestedReply : Bool) (receiver sender addressed proposed : Option ℕ) (name : List UInt8) :
    (∃ rules, busClientPolicyOptimize policy = .ok rules ∧
      (busClientPolicyCheckCanSend rules bus requestedReply receiver message).allowed =
        (busClientPolicyCheckCanSend policy.rules bus requestedReply receiver message).allowed ∧
      (busClientPolicyCheckCanReceive rules bus requestedReply sender addressed proposed
          message).allowed =
        (busClientPolicyCheckCanReceive policy.rules bus requestedReply sender addressed proposed
          message).allowed ∧
      busClientPolicyCheckCanOwn rules name = busClientPolicyCheckCanOwn policy.rules name) ↔
    ¬ AllowanceDeleted (usedToSend bus requestedReply receiver message) policy.rules ∧
      ¬ AllowanceDeleted (usedToReceive bus requestedReply sender addressed proposed message)
        policy.rules := by
  have hsn := allowed_pruned_iff (usedToSend bus requestedReply receiver message) policy.rules
    (fun _ h => type_of_usedToSend h) {} rfl
  have hrc := allowed_pruned_iff
    (usedToReceive bus requestedReply sender addressed proposed message) policy.rules
    (fun _ h => type_of_usedToReceive h) {} rfl
  have ho := (allowed_pruned_iff (usedToOwn name) policy.rules
    (fun _ h => type_of_usedToOwn h) {} rfl).2 (by
      rintro ⟨pre, r, post, -, hr, -, hp, r', hr', hc⟩
      have hnt := hp r' hr'
      rw [usedToOwn_of_covers hc hr] at hnt
      cases hnt)
  rw [busClientPolicyOptimize_eq]
  constructor
  · rintro ⟨rules, hrl, hs, hr, -⟩
    cases hrl
    exact ⟨hsn.1 hs, hrc.1 hr⟩
  · rintro ⟨hs, hr⟩
    exact ⟨_, rfl, hsn.2 hs, hrc.2 hr, ho⟩

/-- `<allow send_requested_reply="false"/>`, then `<allow send_destination="*"/>`: an
    unrequested reply may be sent before optimisation and not after it. -/
theorem optimize_denies_unrequested_reply :
    ∃ policy : BusClientPolicy, ∃ rules, busClientPolicyOptimize policy = .ok rules ∧
      (busClientPolicyCheckCanSend policy.rules .empty false none
        { type := .methodReturn, replySerial := 7 }).allowed = true ∧
      (busClientPolicyCheckCanSend rules .empty false none
        { type := .methodReturn, replySerial := 7 }).allowed = false := by
  refine ⟨⟨[⟨true, .send { requestedReply := false }⟩, ⟨true, .send (BusPolicyRule.newPattern true)⟩],
    by decide⟩, [⟨true, .send (BusPolicyRule.newPattern true)⟩], ?_, ?_, ?_⟩
  · rfl
  · rfl
  · rfl

end DBus
