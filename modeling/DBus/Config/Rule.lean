/-
  The elements `<allow>` and `<deny>`: `append_rule_from_element` in `bus/config-parser.c`.

  A list of forbidden pairs is meant to rule out that conditions of different kinds stand on
  one element, for the rule is built from those of one kind.  The list lacks some pairs with
  `receive_path`, `receive_type` and `receive_sender`, and the rules for sending never look
  at whether a message is overheard.  On every other element that is accepted the rule tests
  each condition (`appendRule_keeps_iff`).
-/
import DBus.Bus.Assembly
import DBus.Bus.MatchRule

namespace DBus

open Outcome List BusPolicy

/-! ## Attributes -/

/-- How the parser of a configuration file ends without a result. -/
inductive ConfigStop where
  /-- the error that is set -/
  | error (e : DBusError)
  /-- an assertion failed -/
  | assertion
  /-- the model ran out of fuel -/
  | fuel
deriving DecidableEq, Repr

/-- The error `DBUS_ERROR_FAILED`, its text in parts. -/
def configError {α : Type} (parts : List (List UInt8)) : Except ConfigStop α :=
  .error (.error ⟨.failed, parts.flatten⟩)

/-- The attributes of an element as they are written: names and values. -/
abbrev Attributes := List (List UInt8 × List UInt8)

/-- Names are compared byte by byte. -/
local instance lawfulBEqBytes : LawfulBEq (List UInt8) := inferInstance

/-- The loop of `locate_attributes`; `located` has the values found so far. -/
def locateLoop (elementName : List UInt8) (known : List (List UInt8))
    (located : List UInt8 → Option (List UInt8)) :
    Attributes → Except ConfigStop (List UInt8 → Option (List UInt8))
  | [] => .ok located
  | (name, value) :: rest =>
    if name ∈ known then
      if (located name).isSome then
        configError [asciiBytes "Attribute \"", name,
          asciiBytes "\" repeated twice on the same <", elementName, asciiBytes "> element"]
      else locateLoop elementName known (Function.update located name (some value)) rest
    else
      configError [asciiBytes "Attribute \"", name, asciiBytes "\" is invalid on <", elementName,
        asciiBytes "> element in this context"]

/-- `locate_attributes` -/
def locateAttributes (elementName : List UInt8) (known : List (List UInt8)) (attributes : Attributes) :
    Except ConfigStop (List UInt8 → Option (List UInt8)) :=
  locateLoop elementName known (fun _ => none) attributes

/-- The attributes of `<allow>` and `<deny>`. -/
inductive RuleAttribute where
  | sendInterface
  | sendMember
  | sendError
  | sendDestination
  | sendPath
  | sendType
  | receiveInterface
  | receiveMember
  | receiveError
  | receiveSender
  | receivePath
  | receiveType
  | eavesdrop
  | sendRequestedReply
  | receiveRequestedReply
  | own
  | user
  | group
  | log
deriving DecidableEq, Repr

namespace RuleAttribute

/-- The attributes in the order in which they are looked for. -/
def all : List RuleAttribute :=
  [sendInterface, sendMember, sendError, sendDestination, sendPath, sendType, receiveInterface,
    receiveMember, receiveError, receiveSender, receivePath, receiveType, eavesdrop,
    sendRequestedReply, receiveRequestedReply, own, user, group, log]

def text : RuleAttribute → String
  | sendInterface => "send_interface"
  | sendMember => "send_member"
  | sendError => "send_error"
  | sendDestination => "send_destination"
  | sendPath => "send_path"
  | sendType => "send_type"
  | receiveInterface => "receive_interface"
  | receiveMember => "receive_member"
  | receiveError => "receive_error"
  | receiveSender => "receive_sender"
  | receivePath => "receive_path"
  | receiveType => "receive_type"
  | eavesdrop => "eavesdrop"
  | sendRequestedReply => "send_requested_reply"
  | receiveRequestedReply => "receive_requested_reply"
  | own => "own"
  | user => "user"
  | group => "group"
  | log => "log"

def name (a : RuleAttribute) : List UInt8 := asciiBytes a.text

def forSending : List RuleAttribute :=
  [sendInterface, sendMember, sendError, sendDestination, sendPath, sendType, sendRequestedReply]

/-- The attributes that make a rule for receiving, `eavesdrop` apart. -/
def forReceiving : List RuleAttribute :=
  [receiveInterface, receiveMember, receiveError, receiveSender, receivePath, receiveType,
    receiveRequestedReply]

/-- The kinds of attributes that are not to be mixed. -/
def kinds : List (List RuleAttribute) := [forSending, forReceiving, [own], [user], [group]]

/-- The pairs that `append_rule_from_element` rejects, in its order. -/
def forbidden : List (RuleAttribute × List RuleAttribute) :=
  [(sendInterface, [sendError, receiveInterface, receiveMember, receiveError, receiveSender,
      receiveRequestedReply, own, user, group]),
    (sendMember, [sendError, receiveInterface, receiveMember, receiveError, receiveSender,
      receiveRequestedReply, own, user, group]),
    (sendError, [receiveInterface, receiveMember, receiveError, receiveSender,
      receiveRequestedReply, own, user, group]),
    (sendDestination, [receiveInterface, receiveMember, receiveError, receiveSender,
      receiveRequestedReply, own, user, group]),
    (sendType, [receiveInterface, receiveMember, receiveError, receiveSender,
      receiveRequestedReply, own, user, group]),
    (sendPath, [receiveInterface, receiveMember, receiveError, receiveSender,
      receiveRequestedReply, own, user, group]),
    (sendRequestedReply, [receiveInterface, receiveMember, receiveError, receiveSender,
      receiveRequestedReply, own, user, group]),
    (receiveInterface, [receiveError, own, user, group]),
    (receiveMember, [receiveError, own, user, group]),
    (receiveError, [own, user, group]),
    (eavesdrop, [own, user, group]),
    (receiveRequestedReply, [own, user, group]),
    (own, [user, group]),
    (user, [group])]

end RuleAttribute

open RuleAttribute

abbrev Located := RuleAttribute → Option (List UInt8)

/-! ## Rules -/

/-- What the parser of a configuration file asks of the system. -/
structure ConfigUsers where
  /-- `_dbus_parse_unix_user_from_config` -/
  parseUnixUser : List UInt8 → Option ℕ
  /-- `_dbus_parse_unix_group_from_config` -/
  parseUnixGroup : List UInt8 → Option ℕ

/-- `IS_WILDCARD`: the value `*` becomes `NULL` -/
def unlessWildcard (value : Option (List UInt8)) : Option (List UInt8) :=
  if value = some (asciiBytes "*") then none else value

/-- The attributes that a rule about messages is made of. -/
structure PatternAttributes where
  type : Option (List UInt8)
  path : Option (List UInt8)
  interface : Option (List UInt8)
  member : Option (List UInt8)
  error : Option (List UInt8)
  peer : Option (List UInt8)
  eavesdrop : Option (List UInt8)
  requestedReply : Option (List UInt8)
  log : Option (List UInt8)

def typeFromAttribute (value : Option (List UInt8)) : Except ConfigStop MessageType :=
  match unlessWildcard value with
  | none => .ok .invalid
  | some text =>
    match messageTypeFromString text with
    | some type => .ok type
    | none => configError [asciiBytes "Bad message type \"", text, asciiBytes "\""]

/-- The check of an attribute that is `true` or `false`.  The message has the name of the
    attribute and its value in each other's place. -/
def checkTrueOrFalse (key : RuleAttribute) (value : Option (List UInt8)) :
    Except ConfigStop Unit :=
  match value with
  | none => .ok ()
  | some text =>
    if text = asciiBytes "true" ∨ text = asciiBytes "false" then .ok ()
    else configError [asciiBytes "Bad value \"", key.name, asciiBytes "\" for ", text,
      asciiBytes " attribute, must be true or false"]

/-- A flag that keeps its default if the attribute is not there. -/
def flagFromAttribute (default : Bool) (value : Option (List UInt8)) : Bool :=
  match value with
  | none => default
  | some text => text = asciiBytes "true"

/-- A rule about messages: its type, its flags and what is copied into it. -/
def patternFromAttributes (allow : Bool) (requestedReply : RuleAttribute) (p : PatternAttributes) :
    Except ConfigStop MessagePattern := do
  let messageType ← typeFromAttribute p.type
  checkTrueOrFalse eavesdrop p.eavesdrop
  checkTrueOrFalse requestedReply p.requestedReply
  return {
    messageType := messageType
    path := unlessWildcard p.path
    interface := unlessWildcard p.interface
    member := unlessWildcard p.member
    error := unlessWildcard p.error
    peer := unlessWildcard p.peer
    eavesdrop := flagFromAttribute false p.eavesdrop
    requestedReply :=
      flagFromAttribute (BusPolicyRule.newPattern allow).requestedReply p.requestedReply
    log := flagFromAttribute false p.log }

def sendAttributes (a : Located) : PatternAttributes where
  type := a sendType
  path := a sendPath
  interface := a sendInterface
  member := a sendMember
  error := a .sendError
  peer := a sendDestination
  eavesdrop := a eavesdrop
  requestedReply := a sendRequestedReply
  log := a log

/-- The attributes of a rule for receiving; it has no flag for logging. -/
def receiveAttributes (a : Located) : PatternAttributes where
  type := a receiveType
  path := a receivePath
  interface := a receiveInterface
  member := a receiveMember
  error := a receiveError
  peer := a receiveSender
  eavesdrop := a eavesdrop
  requestedReply := a receiveRequestedReply
  log := none

/-- A rule about an id; there is none if the name is not known. -/
def idRule (parse : List UInt8 → Option ℕ) (value : List UInt8)
    (rule : Option ℕ → BusPolicyRule) : Option BusPolicyRule :=
  if value = asciiBytes "*" then some (rule none) else (parse value).map fun id => rule (some id)

def anyOf (attributes : List RuleAttribute) (a : Located) : Bool :=
  attributes.any fun key => (a key).isSome

/-- The chain of `append_rule_from_element` that builds the rule. -/
def buildRule (users : ConfigUsers) (a : Located) (allow : Bool) :
    Except ConfigStop (Option BusPolicyRule) :=
  if anyOf forSending a then do
    let p ← patternFromAttributes allow sendRequestedReply (sendAttributes a)
    return some ⟨allow, .send p⟩
  else if anyOf (eavesdrop :: forReceiving) a then do
    let p ← patternFromAttributes allow receiveRequestedReply (receiveAttributes a)
    return some ⟨allow, .receive p⟩
  else match a own, a user, a group with
    | some name, _, _ => return some ⟨allow, .own (unlessWildcard (some name))⟩
    | none, some value, _ => return idRule users.parseUnixUser value fun uid => ⟨allow, .user uid⟩
    | none, none, some value =>
      return idRule users.parseUnixGroup value fun gid => ⟨allow, .group gid⟩
    | none, none, none => .error .assertion

/-- The checks of `append_rule_from_element`, and the rule -/
def ruleFromElement (users : ConfigUsers) (elementName : List UInt8) (a : Located) (allow : Bool) :
    Except ConfigStop (Option BusPolicyRule) :=
  if anyOf (forSending ++ eavesdrop :: forReceiving ++ [own, user, group]) a = false then
    configError [asciiBytes "Element <", elementName,
      asciiBytes "> must have one or more attributes"]
  else if ((a sendMember).isSome ∧ a sendInterface = none ∧ a sendPath = none) ∨
      ((a receiveMember).isSome ∧ a receiveInterface = none ∧ a receivePath = none) then
    configError [asciiBytes "On element <", elementName, asciiBytes (">, if you specify a member " ++
      "you must specify an interface or a path. Keep in mind that not all messages have an " ++
      "interface field.")]
  else if forbidden.any (fun f => (a f.1).isSome && anyOf f.2 a) then
    configError [asciiBytes "Invalid combination of attributes on element <", elementName,
      asciiBytes ">"]
  else buildRule users a allow

/-- The element `<policy>` that a rule stands in; `none` is `POLICY_IGNORED`. -/
abbrev PolicyType := Option PolicyList

/-- A rule goes to the list of its `<policy>`. -/
def appendToPolicy (elementName : List UInt8) (type : PolicyType) (policy : BusPolicy)
    (rule : BusPolicyRule) : Except ConfigStop BusPolicy :=
  match type with
  | none => .ok policy
  | some (.user uid) =>
    if rule.isPerClient = false then
      configError [asciiBytes "<", elementName,
        asciiBytes "> rule cannot be per-user because it has bus-global semantics"]
    else .ok (policy.append (.user uid) rule)
  | some (.group gid) =>
    if rule.isPerClient = false then
      configError [asciiBytes "<", elementName,
        asciiBytes "> rule cannot be per-group because it has bus-global semantics"]
    else .ok (policy.append (.group gid) rule)
  | some list => .ok (policy.append list rule)

/-- `append_rule_from_element` -/
def appendRuleFromElement (users : ConfigUsers) (elementName : List UInt8) (attributes : Attributes)
    (allow : Bool) (type : PolicyType) (policy : BusPolicy) : Except ConfigStop BusPolicy := do
  let located ← locateAttributes elementName (all.map name) attributes
  match ← ruleFromElement users elementName (fun a => located a.name) allow with
  | none => return policy
  | some rule => appendToPolicy elementName type policy rule

/-! ## What an element says -/

/-- What a rule may be asked about. -/
inductive PolicyRequest where
  /-- may the message be sent to the receiver, when it is addressed to another one -/
  | send (bus : Bus) (requestedReply : Bool) (addressed receiver : Option ℕ) (m : BusMessage)
  /-- may the message be received -/
  | receive (bus : Bus) (requestedReply : Bool) (sender addressed proposed : Option ℕ)
      (m : BusMessage)
  /-- may the name be owned -/
  | own (name : List UInt8)
  /-- may a user with these groups connect -/
  | connect (uid : ℕ) (groups : List ℕ)

/-- Whether `list_allows_user` uses a rule. -/
def usedToConnect (uid : ℕ) (groups : List ℕ) (r : BusPolicyRule) : Bool :=
  match r.d with
  | .user none | .group none => true
  | .user (some id) => id = uid
  | .group (some id) => id ∈ groups
  | _ => false

def BusPolicyRule.matchesRequest (r : BusPolicyRule) : PolicyRequest → Bool
  | .send bus requestedReply _ receiver m => usedToSend bus requestedReply receiver m r
  | .receive bus requestedReply sender addressed proposed m =>
    usedToReceive bus requestedReply sender addressed proposed m r
  | .own name => usedToOwn name r
  | .connect uid groups => usedToConnect uid groups r

def PolicyRequest.OnSend (req : PolicyRequest)
    (P : Bus → Bool → Option ℕ → Option ℕ → BusMessage → Prop) : Prop :=
  match req with
  | .send bus requestedReply addressed receiver m => P bus requestedReply addressed receiver m
  | _ => False

def PolicyRequest.OnReceive (req : PolicyRequest)
    (P : Bus → Bool → Option ℕ → Option ℕ → Option ℕ → BusMessage → Prop) : Prop :=
  match req with
  | .receive bus requestedReply sender addressed proposed m =>
    P bus requestedReply sender addressed proposed m
  | _ => False

def typeAdmits (value : List UInt8) (m : BusMessage) : Prop :=
  value = asciiBytes "*" ∨ messageTypeFromString value = some m.type

def replyCondition (allow overhears : Bool) (value : List UInt8) (requestedReply : Bool)
    (m : BusMessage) : Prop :=
  m.replySerial = 0 ∨
    if allow then value = asciiBytes "true" → requestedReply = true ∨ overhears = true
    else value ≠ asciiBytes "true" → requestedReply = false

/-- The message is overheard or not, where that is asked for. -/
def eavesdropCondition (allow : Bool) (value : List UInt8) (overheard : Bool) : Prop :=
  if allow then value ≠ asciiBytes "true" → overheard = false
  else value = asciiBytes "true" → overheard = true

/-- What the attribute of an element says, `overhears` if it stands beside an attribute
    `eavesdrop="true"`.  A field that a message lacks is no ground to pass the rule over, but
    for the interface in an `<allow>`. -/
def RuleAttribute.Holds (users : ConfigUsers) (allow overhears : Bool) (key : RuleAttribute)
    (value : List UInt8) (req : PolicyRequest) : Prop :=
  match key with
  | .sendInterface => req.OnSend fun _ _ _ _ m =>
      interfaceAdmits allow (unlessWildcard (some value)) m.interface = true
  | .sendMember => req.OnSend fun _ _ _ _ m =>
      fieldAdmits (unlessWildcard (some value)) m.member = true
  | .sendError => req.OnSend fun _ _ _ _ m =>
      fieldAdmits (unlessWildcard (some value)) m.errorName = true
  | .sendDestination => req.OnSend fun bus _ _ receiver m =>
      peerAdmits bus (unlessWildcard (some value)) receiver m.destination = true
  | .sendPath => req.OnSend fun _ _ _ _ m => fieldAdmits (unlessWildcard (some value)) m.path = true
  | .sendType => req.OnSend fun _ _ _ _ m => typeAdmits value m
  | .receiveInterface => req.OnReceive fun _ _ _ _ _ m =>
      interfaceAdmits allow (unlessWildcard (some value)) m.interface = true
  | .receiveMember => req.OnReceive fun _ _ _ _ _ m =>
      fieldAdmits (unlessWildcard (some value)) m.member = true
  | .receiveError => req.OnReceive fun _ _ _ _ _ m =>
      fieldAdmits (unlessWildcard (some value)) m.errorName = true
  | .receiveSender => req.OnReceive fun bus _ sender _ _ m =>
      peerAdmits bus (unlessWildcard (some value)) sender m.sender = true
  | .receivePath => req.OnReceive fun _ _ _ _ _ m =>
      fieldAdmits (unlessWildcard (some value)) m.path = true
  | .receiveType => req.OnReceive fun _ _ _ _ _ m => typeAdmits value m
  | .eavesdrop =>
    (req.OnSend fun _ _ addressed receiver m =>
      eavesdropCondition allow value (isEavesdropping addressed receiver m)) ∨
    req.OnReceive fun _ _ _ addressed proposed m =>
      eavesdropCondition allow value (isEavesdropping addressed proposed m)
  | .sendRequestedReply => req.OnSend fun _ requestedReply _ _ m =>
      replyCondition allow overhears value requestedReply m
  | .receiveRequestedReply => req.OnReceive fun _ requestedReply _ _ _ m =>
      replyCondition allow overhears value requestedReply m
  | .own => ∃ name, req = .own name ∧ (value = asciiBytes "*" ∨ name = value)
  | .user => ∃ uid groups, req = .connect uid groups ∧
      (value = asciiBytes "*" ∨ users.parseUnixUser value = some uid)
  | .group => ∃ uid groups, req = .connect uid groups ∧
      (value = asciiBytes "*" ∨ ∃ gid ∈ groups, users.parseUnixGroup value = some gid)
  | .log => True

section
variable (attributes : Attributes)

def Attributes.Has (key : RuleAttribute) (value : List UInt8) : Prop :=
  (key.name, value) ∈ attributes

def Attributes.HasAny (list : List RuleAttribute) : Prop :=
  ∃ key ∈ list, ∃ value, Attributes.Has attributes key value

def Attributes.Mixed : Prop :=
  ¬ kinds.Pairwise fun l l' => ¬ (Attributes.HasAny attributes l ∧ Attributes.HasAny attributes l')

/-- A rule is used only for requests of which each condition holds. -/
def Attributes.TestedBy (users : ConfigUsers) (allow : Bool) (rule : BusPolicyRule) : Prop :=
  ∀ req, rule.matchesRequest req = true → ∀ key value,
    Attributes.Has attributes key value →
      key.Holds users allow (decide ((eavesdrop.name, asciiBytes "true") ∈ attributes)) value req

/-- The conditions that get lost: a path, a type or a sender for receiving beside attributes
    of another kind, and a restriction by `eavesdrop` on a rule for sending. -/
def Attributes.Loses (allow : Bool) : Prop :=
  (Attributes.HasAny attributes forSending ∧ Attributes.HasAny attributes [receivePath, receiveType]) ∨
  (Attributes.HasAny attributes [own, user, group] ∧
    Attributes.HasAny attributes [receiveSender, receivePath, receiveType]) ∨
  (Attributes.HasAny attributes forSending ∧
    Attributes.Has attributes eavesdrop (asciiBytes (if allow then "false" else "true")))

end

/-! ## What is located -/

variable {attributes : Attributes} {elementName : List UInt8} {known : List (List UInt8)}
  {located : List UInt8 → Option (List UInt8)} {value : List UInt8} {key : RuleAttribute}
  {allow : Bool} {list : PolicyList} {policy : BusPolicy} {users : ConfigUsers} {a : Located}
  {p : MessagePattern} {l : List RuleAttribute}

open Attributes

theorem locateLoop_iff {located' : List UInt8 → Option (List UInt8)}
    (h : locateLoop elementName known located attributes = .ok located') (name value : List UInt8) :
    located' name = some value ↔ located name = some value ∨ (name, value) ∈ attributes := by
  induction attributes generalizing located with
  | nil =>
    cases h
    simp
  | cons first rest ih =>
    obtain ⟨name', value'⟩ := first
    rw [locateLoop] at h
    split at h
    · split at h
      · cases h
      · rename_i hnn
        have hnn : located name' = none := by simpa using hnn
        rw [ih h, mem_cons, Prod.mk.injEq]
        by_cases hnm : name = name'
        · subst hnm
          simp [hnn, eq_comm]
        · simp [hnm]
    · cases h

theorem locateAttributes_iff (h : locateAttributes elementName known attributes = .ok located)
    (name value : List UInt8) : located name = some value ↔ (name, value) ∈ attributes := by
  rw [locateLoop_iff h]
  simp

section
variable {l' : List RuleAttribute} {key' : RuleAttribute}

theorem anyOf_iff : anyOf l a = true ↔ ∃ key ∈ l, ∃ value, a key = some value := by
  simp [anyOf, Option.isSome_iff_exists]

theorem anyOf_append : anyOf (l ++ l') a = true ↔ anyOf l a = true ∨ anyOf l' a = true := by
  simp [anyOf]

theorem none_of_anyOf (h : anyOf l a = false) (hky : key ∈ l) : a key = none := by
  simp only [anyOf, any_eq_false, Bool.not_eq_true, Option.isSome_eq_false_iff,
    Option.isNone_iff_eq_none] at h
  exact h key hky

theorem anyOf_mono (hl : l ⊆ l') (h : anyOf l a = true) : anyOf l' a = true := by
  obtain ⟨key, hky, hvl⟩ := anyOf_iff.1 h
  exact anyOf_iff.2 ⟨key, hl hky, hvl⟩

def Apart (a : Located) : Prop := ∀ f ∈ forbidden, anyOf [f.1] a = true → anyOf f.2 a = false

theorem Apart.anyOf_false (h : Apart a) (hl : ∀ key ∈ l, ∃ f ∈ forbidden, f.1 = key ∧ l' ⊆ f.2)
    (han : anyOf l a = true) : anyOf l' a = false := by
  obtain ⟨key, hky, hvl⟩ := anyOf_iff.1 han
  obtain ⟨f, hf, rfl, hsb⟩ := hl key hky
  have hnt := h f hf (anyOf_iff.2 ⟨f.1, mem_singleton_self _, hvl⟩)
  by_contra ho
  simp [anyOf_mono hsb (by simpa using ho)] at hnt

theorem Apart.receiving (h : Apart a) (hs : anyOf forSending a = true) :
    anyOf [receiveInterface, receiveMember, receiveError, receiveSender, receiveRequestedReply, own,
      user, group] a = false :=
  h.anyOf_false (by decide) hs

theorem Apart.others (h : Apart a) (hr : anyOf [receiveInterface, receiveMember, receiveError,
    eavesdrop, receiveRequestedReply] a = true) : anyOf [own, user, group] a = false :=
  h.anyOf_false (by decide) hr

end

/-! ## Rules about messages -/

/-- The rule has what the attributes say. -/
structure PatternOf (allow : Bool) (q : PatternAttributes) (p : MessagePattern) : Prop where
  path : p.path = unlessWildcard q.path
  interface : p.interface = unlessWildcard q.interface
  member : p.member = unlessWildcard q.member
  error : p.error = unlessWildcard q.error
  peer : p.peer = unlessWildcard q.peer
  eavesdrop : p.eavesdrop = flagFromAttribute false q.eavesdrop
  requestedReply : p.requestedReply = flagFromAttribute allow q.requestedReply
  type : ∀ value, q.type = some value →
    value = asciiBytes "*" ∨ messageTypeFromString value = some p.messageType
  boolean : ∀ value, q.eavesdrop = some value →
    value = asciiBytes "true" ∨ value = asciiBytes "false"

theorem typeFromAttribute_ok {t : MessageType} (h : typeFromAttribute (some value) = .ok t) :
    value = asciiBytes "*" ∨ messageTypeFromString value = some t := by
  by_cases hst : value = asciiBytes "*"
  · exact .inl hst
  · have hkp : unlessWildcard (some value) = some value := by simp [unlessWildcard, hst]
    rw [typeFromAttribute, hkp] at h
    dsimp only at h
    cases hty : messageTypeFromString value with
    | none =>
      rw [hty] at h
      cases h
    | some t' =>
      rw [hty] at h
      cases h
      exact .inr rfl

theorem checkTrueOrFalse_ok (h : checkTrueOrFalse key (some value) = .ok ()) :
    value = asciiBytes "true" ∨ value = asciiBytes "false" := by
  rw [checkTrueOrFalse] at h
  split at h
  · assumption
  · cases h

theorem patternFromAttributes_ok {q : PatternAttributes} {p : MessagePattern}
    (h : patternFromAttributes allow key q = .ok p) : PatternOf allow q p := by
  obtain ⟨t, hty, h⟩ := bind_eq_ok.1 h
  obtain ⟨_, hev, h⟩ := bind_eq_ok.1 h
  obtain ⟨_, -, h⟩ := bind_eq_ok.1 h
  cases h
  refine ⟨rfl, rfl, rfl, rfl, rfl, rfl, rfl, fun value hvl => ?_, fun value hvl => ?_⟩
  · exact typeFromAttribute_ok (hvl ▸ hty)
  · exact checkTrueOrFalse_ok (hvl ▸ hev)

section
variable {requestedReply : Bool} {q : PatternAttributes} {m : BusMessage}

section
variable (h : PatternOf allow q p)
include h

section
variable (hm : p.admits allow requestedReply m = true)
include hm

theorem PatternOf.typeAdmits (hvl : q.type = some value) : typeAdmits value m := by
  simp only [MessagePattern.admits, decide_eq_true_eq] at hm
  rcases h.type value hvl with hst | ht
  · exact .inl hst
  · rcases hm.1 with hi | heq
    · exact absurd (hi ▸ ht) (messageTypeFromString_ne_invalid _)
    · exact .inr (by rw [ht, heq])

theorem PatternOf.fieldsAdmit (value : List UInt8) :
    (q.path = some value → fieldAdmits (unlessWildcard (some value)) m.path = true) ∧
    (q.interface = some value →
      interfaceAdmits allow (unlessWildcard (some value)) m.interface = true) ∧
    (q.member = some value → fieldAdmits (unlessWildcard (some value)) m.member = true) ∧
    (q.error = some value → fieldAdmits (unlessWildcard (some value)) m.errorName = true) := by
  simp only [MessagePattern.admits, decide_eq_true_eq, h.path, h.interface, h.member, h.error] at hm
  obtain ⟨-, -, hp, hi, hmm, her⟩ := hm
  exact ⟨fun hv => hv ▸ hp, fun hv => hv ▸ hi, fun hv => hv ▸ hmm, fun hv => hv ▸ her⟩

theorem PatternOf.replyCondition (hvl : q.requestedReply = some value) :
    replyCondition allow (flagFromAttribute false q.eavesdrop) value requestedReply m := by
  simp only [MessagePattern.admits, decide_eq_true_eq, replyAdmits] at hm
  obtain ⟨-, hrp, -⟩ := hm
  rcases hrp with hz | ⟨hal, hdn⟩
  · exact .inl hz
  · refine .inr ?_
    have hfl : p.requestedReply = decide (value = asciiBytes "true") := by
      rw [h.requestedReply, hvl, flagFromAttribute]
    rw [← h.eavesdrop]
    cases allow with
    | true =>
      intro htr
      by_contra hno
      simp only [not_or, Bool.not_eq_true] at hno
      exact hal ⟨hno.1, rfl, by simp [hfl, htr], hno.2⟩
    | false =>
      intro hne
      by_contra hno
      exact hdn ⟨by simpa using hno, rfl, by simp [hfl, hne]⟩

end

theorem eavesdropCondition_of_admits {overheard : Bool}
    (hm : eavesdropAdmits allow p overheard = true) (hvl : q.eavesdrop = some value) :
    eavesdropCondition allow value overheard := by
  simp only [eavesdropAdmits, decide_eq_true_eq] at hm
  have hfl : p.eavesdrop = decide (value = asciiBytes "true") := by
    rw [h.eavesdrop, hvl, flagFromAttribute]
  rw [eavesdropCondition]
  cases allow with
  | true =>
    intro hne
    by_contra hno
    exact hm.1 ⟨by simpa using hno, rfl, by simp [hfl, hne]⟩
  | false =>
    intro htr
    by_contra hno
    exact hm.2 ⟨by simpa using hno, rfl, by simp [hfl, htr]⟩

end

end

/-! ## Rules test what is written -/

/-- A rule is used only for requests of which the conditions that are there hold. -/
def TestsAll (users : ConfigUsers) (a : Located) (allow : Bool) (rule : BusPolicyRule) : Prop :=
  ∀ req, rule.matchesRequest req = true → ∀ key value, a key = some value →
    key.Holds users allow (flagFromAttribute false (a eavesdrop)) value req

theorem testsAll_send (hp : PatternOf allow (sendAttributes a) p)
    (ho : anyOf (forReceiving ++ [own, user, group]) a = false)
    (hev : a eavesdrop ≠ some (asciiBytes (if allow then "false" else "true"))) :
    TestsAll users a allow ⟨allow, .send p⟩ := by
  intro req hrq key value hvl
  have hnn {key : RuleAttribute} (hky : key ∈ forReceiving ++ [own, user, group])
      (hvl : a key = some value) : False := by
    simp [none_of_anyOf ho hky] at hvl
  cases req with
  | send bus requestedReply addressed receiver m =>
    obtain ⟨hm, hpr⟩ := Bool.and_eq_true_iff.1 hrq
    obtain ⟨hpt, hi, hmm, her⟩ := hp.fieldsAdmit hm value
    rw [hp.peer] at hpr
    cases key with
    | sendInterface => exact hi hvl
    | sendMember => exact hmm hvl
    | sendError => exact her hvl
    | sendPath => exact hpt hvl
    | sendDestination =>
      rw [show (sendAttributes a).peer = some value from hvl] at hpr
      exact hpr
    | sendType => exact hp.typeAdmits hm hvl
    | sendRequestedReply => exact hp.replyCondition hm hvl
    | log => trivial
    | eavesdrop =>
      refine .inl ?_
      change eavesdropCondition allow value _
      rw [eavesdropCondition]
      -- the flag does not restrict the rule
      rcases hp.boolean value hvl with rfl | rfl
      · cases allow with
        | true => exact fun h => absurd rfl h
        | false => exact absurd hvl hev
      · cases allow with
        | true => exact absurd hvl hev
        | false => exact fun h => absurd h (by decide)
    | _ => exact (hnn (by decide) hvl).elim
  | _ => cases hrq

theorem testsAll_receive (hp : PatternOf allow (receiveAttributes a) p)
    (ho : anyOf (forSending ++ [own, user, group]) a = false) :
    TestsAll users a allow ⟨allow, .receive p⟩ := by
  intro req hrq key value hvl
  have hnn {key : RuleAttribute} (hky : key ∈ forSending ++ [own, user, group])
      (hvl : a key = some value) : False := by
    simp [none_of_anyOf ho hky] at hvl
  cases req with
  | receive bus requestedReply sender addressed proposed m =>
    obtain ⟨hms, hpr⟩ := Bool.and_eq_true_iff.1 hrq
    obtain ⟨hov, hm⟩ := Bool.and_eq_true_iff.1 hms
    obtain ⟨hpt, hi, hmm, her⟩ := hp.fieldsAdmit hm value
    rw [hp.peer] at hpr
    cases key with
    | receiveInterface => exact hi hvl
    | receiveMember => exact hmm hvl
    | receiveError => exact her hvl
    | receivePath => exact hpt hvl
    | receiveSender =>
      rw [show (receiveAttributes a).peer = some value from hvl] at hpr
      exact hpr
    | receiveType => exact hp.typeAdmits hm hvl
    | receiveRequestedReply => exact hp.replyCondition hm hvl
    | eavesdrop => exact .inr (eavesdropCondition_of_admits hp hov hvl)
    | log => trivial
    | _ => exact (hnn (by decide) hvl).elim
  | _ => cases hrq

theorem testsAll_single {rule : BusPolicyRule} (value : List UInt8)
    (hvl : a key = some value)
    (ho : ∀ key', key' ≠ key → key' ≠ .log → a key' = none)
    (hrl : ∀ req, rule.matchesRequest req = true →
      key.Holds users allow (flagFromAttribute false (a eavesdrop)) value req) :
    TestsAll users a allow rule := by
  intro req hrq key' value' hvl'
  by_cases hky : key' = key
  · subst hky
    rw [hvl] at hvl'
    cases hvl'
    exact hrl req hrq
  · by_cases hl : key' = .log
    · subst hl
      trivial
    · rw [ho key' hky hl] at hvl'
      cases hvl'

theorem not_testsAll_send (hp : PatternOf allow (sendAttributes a) p)
    (hev : a eavesdrop = some (asciiBytes (if allow then "false" else "true"))) :
    ¬ TestsAll users a allow ⟨allow, .send p⟩ := by
  intro hte
  -- a message that has the interface, the type and the destination of the rule, to the bus
  let m : BusMessage := {
    type := p.messageType
    interface := p.interface
    destination := some (p.peer.getD []) }
  let addressed : Option ℕ := if allow then some 0 else none
  have hi : interfaceAdmits allow p.interface m.interface = true := by
    change interfaceAdmits allow p.interface p.interface = true
    cases p.interface with
    | none => rfl
    | some name => simp [interfaceAdmits]
  have hfl (constraint : Option (List UInt8)) : fieldAdmits constraint none = true := by
    cases constraint <;> rfl
  have hpr : peerAdmits .empty p.peer none m.destination = true := by
    change peerAdmits .empty p.peer none (some (p.peer.getD [])) = true
    cases p.peer with
    | none => rfl
    | some name => simp [peerAdmits]
  have had : p.admits allow false m = true := by
    simp only [MessagePattern.admits, decide_eq_true_eq]
    exact ⟨.inr rfl, by simp [replyAdmits, m], hfl _, hi, hfl _, hfl _⟩
  have hh := hte (.send .empty false addressed none m) (Bool.and_eq_true_iff.2 ⟨had, hpr⟩)
    eavesdrop _ hev
  rcases hh with hsn | hrc
  · change eavesdropCondition allow _ (isEavesdropping addressed none m) at hsn
    cases allow with
    | true =>
      have hno := hsn (by decide)
      simp [isEavesdropping, addressed, m] at hno
    | false =>
      have hy := hsn rfl
      simp [isEavesdropping, addressed] at hy
  · exact hrc

/-! ## When conditions get lost -/

def Unmixed (a : Located) : Prop :=
  kinds.Pairwise fun l l' => ¬ (anyOf l a = true ∧ anyOf l' a = true)

def Losing (a : Located) (allow : Bool) : Prop :=
  (anyOf forSending a = true ∧ anyOf [receivePath, receiveType] a = true) ∨
  (anyOf [own, user, group] a = true ∧
    anyOf [receiveSender, receivePath, receiveType] a = true) ∨
  (anyOf forSending a = true ∧
    a eavesdrop = some (asciiBytes (if allow then "false" else "true")))

section
variable {l1 l2 k : List RuleAttribute} {r : Option BusPolicyRule}

theorem anyOf_false_of_subset (h1 : anyOf l1 a = false) (h2 : anyOf l2 a = false)
    (hl : l ⊆ l1 ++ l2) : anyOf l a = false := by
  by_contra h
  have han := anyOf_mono hl (by simpa using h)
  rw [anyOf_append, h1, h2] at han
  simp at han

theorem Losing.receiving (h : Losing a allow) (hs : anyOf forSending a = false) :
    anyOf [own, user, group] a = true ∧ anyOf [receiveSender, receivePath, receiveType] a = true := by
  rcases h with h | h | h
  · cases hs.symm.trans h.1
  · exact h
  · cases hs.symm.trans h.1

theorem unmixed_of_one (h : ∀ l ∈ kinds, l ≠ k → anyOf l a = false) : Unmixed a := by
  have hne : kinds.Pairwise (· ≠ ·) := by decide
  refine hne.imp_of_mem ?_
  rintro l l' hl hl' hne ⟨han, han'⟩
  by_cases hk : l = k
  · rw [h l' hl' (by rintro rfl; exact hne hk)] at han'
    cases han'
  · simp [h l hl hk] at han

theorem unmixed_of_others (h : anyOf (kinds.filter (· ≠ k)).flatten a = false) : Unmixed a := by
  refine unmixed_of_one (k := k) fun l hl hne => ?_
  refine anyOf_false_of_subset h h fun key hky => mem_append_left _ (mem_flatten.2 ⟨l, ?_, hky⟩)
  exact mem_filter.2 ⟨hl, decide_eq_true hne⟩

theorem Unmixed.sending (h : Unmixed a) (hs : anyOf forSending a = true) :
    anyOf forReceiving a = false := by
  simp only [Unmixed, kinds, pairwise_cons] at h
  by_contra hr
  exact h.1 forReceiving (by simp) ⟨hs, by simpa using hr⟩

theorem Unmixed.receiving (h : Unmixed a) (hr : anyOf forReceiving a = true) :
    anyOf [own, user, group] a = false := by
  simp only [Unmixed, kinds, pairwise_cons] at h
  by_contra ho
  obtain ⟨key, hky, hvl⟩ := anyOf_iff.1 (by simpa using ho)
  have hon : anyOf [key] a = true := anyOf_iff.2 ⟨key, by simp, hvl⟩
  simp only [mem_cons, not_mem_nil, or_false] at hky
  refine h.2.1 [key] ?_ ⟨hr, hon⟩
  rcases hky with rfl | rfl | rfl <;> simp

theorem iff_send (hap : Apart a) (hs : anyOf forSending a = true)
    (hp : PatternOf allow (sendAttributes a) p) :
    TestsAll users a allow ⟨allow, .send p⟩ ∧ Unmixed a ↔ ¬ Losing a allow := by
  have hnt := hap.receiving hs
  constructor
  · rintro ⟨hte, hu⟩ (⟨-, hpt⟩ | ⟨how, -⟩ | ⟨-, hev⟩)
    · have hr : anyOf forReceiving a = true := anyOf_mono (by decide) hpt
      rw [hu.sending hs] at hr
      cases hr
    · rw [anyOf_mono (by decide) how] at hnt
      cases hnt
    · exact not_testsAll_send hp hev hte
  · intro hls
    have hpt : anyOf [receivePath, receiveType] a = false := by
      by_contra h
      exact hls (.inl ⟨hs, by simpa using h⟩)
    have ho : anyOf (forReceiving ++ [own, user, group]) a = false :=
      anyOf_false_of_subset hnt hpt (by decide)
    exact ⟨testsAll_send hp ho fun h => hls (.inr (.inr ⟨hs, h⟩)),
      unmixed_of_others (k := forSending) ho⟩

theorem iff_receive (hap : Apart a) (hs : anyOf forSending a = false)
    (hr : anyOf (eavesdrop :: forReceiving) a = true)
    (hp : PatternOf allow (receiveAttributes a) p) :
    TestsAll users a allow ⟨allow, .receive p⟩ ∧ Unmixed a ↔ ¬ Losing a allow := by
  constructor
  · rintro ⟨-, hu⟩ hl
    obtain ⟨how, hkp⟩ := hl.receiving hs
    simp [hu.receiving (anyOf_mono (by decide) hkp)] at how
  · intro hls
    have how : anyOf [own, user, group] a = false := by
      by_contra h
      have ho : anyOf [own, user, group] a = true := by simpa using h
      -- beside an owner only the attributes that get lost are not forbidden
      have hkp : anyOf [receiveSender, receivePath, receiveType] a = false := by
        by_contra hkp
        exact hls (.inr (.inl ⟨ho, by simpa using hkp⟩))
      have hrs : anyOf [receiveInterface, receiveMember, receiveError, eavesdrop,
          receiveRequestedReply] a = true := by
        by_contra hrs
        rw [anyOf_false_of_subset (by simpa using hrs) hkp (by decide)] at hr
        cases hr
      simp [hap.others hrs] at ho
    have hot : anyOf (forSending ++ [own, user, group]) a = false :=
      anyOf_false_of_subset hs how (by decide)
    exact ⟨testsAll_receive hp hot, unmixed_of_others (k := forReceiving) hot⟩

theorem unmixed_single (allow : Bool) (key : RuleAttribute) (hs : anyOf forSending a = false)
    (hr : anyOf (eavesdrop :: forReceiving) a = false)
    (ho : ∀ key' ∈ [own, user, group], key' ≠ key → a key' = none) :
    Unmixed a ∧ ¬ Losing a allow ∧ ∀ key', key' ≠ key → key' ≠ .log → a key' = none := by
  have hon (key' : RuleAttribute) (hmm : key' ∈ [own, user, group]) (hne : key' ≠ key) :
      anyOf [key'] a = false := by
    simp [anyOf, ho key' hmm hne]
  have hrc : anyOf forReceiving a = false := anyOf_false_of_subset hr hs (by decide)
  refine ⟨unmixed_of_one (k := [key]) ?_, ?_, ?_⟩
  · intro l hl hne
    simp only [kinds, mem_cons, not_mem_nil, or_false] at hl
    rcases hl with rfl | rfl | rfl | rfl | rfl
    · exact hs
    · exact hrc
    · exact hon own (by simp) fun h => hne (by rw [h])
    · exact hon user (by simp) fun h => hne (by rw [h])
    · exact hon group (by simp) fun h => hne (by rw [h])
  · intro hl
    cases (anyOf_false_of_subset hr hs (by decide)).symm.trans (hl.receiving hs).2
  · intro key' hne hlg
    by_cases hmm : key' ∈ [own, user, group]
    · exact ho key' hmm hne
    · refine none_of_anyOf (l := forSending ++ eavesdrop :: forReceiving)
        (anyOf_false_of_subset hs hr (List.Subset.refl _)) ?_
      revert hmm hlg
      cases key' <;> decide

theorem idRule_eq_some {parse : List UInt8 → Option ℕ}
    {rule : Option ℕ → BusPolicyRule} {r : BusPolicyRule} (h : idRule parse value rule = some r) :
    ∃ id, r = rule id ∧ (value = asciiBytes "*" ∨ ∃ n, id = some n ∧ parse value = some n) := by
  rw [idRule] at h
  split at h
  · cases h
    exact ⟨none, rfl, .inl ‹_›⟩
  · obtain ⟨n, hn, rfl⟩ := Option.map_eq_some_iff.1 h
    exact ⟨some n, rfl, .inr ⟨n, rfl, hn⟩⟩

theorem iff_single (hap : Apart a) (hs : anyOf forSending a = false)
    (hr : anyOf (eavesdrop :: forReceiving) a = false) (hb : buildRule users a allow = .ok r) :
    (∀ rule, r = some rule → TestsAll users a allow rule) ∧ Unmixed a ↔ ¬ Losing a allow := by
  have hse : ¬ anyOf forSending a = true := by simp [hs]
  have hrc : ¬ anyOf (eavesdrop :: forReceiving) a = true := by simp [hr]
  rw [buildRule, if_neg hse, if_neg hrc] at hb
  -- the rule tests the one attribute that is there
  have hsn : ∀ {key : RuleAttribute} (value : List UInt8), a key = some value →
      (∀ key' ∈ [own, user, group], key' ≠ key → a key' = none) →
      (∀ rule, r = some rule → ∀ req, rule.matchesRequest req = true →
        key.Holds users allow (flagFromAttribute false (a eavesdrop)) value req) →
      ((∀ rule, r = some rule → TestsAll users a allow rule) ∧ Unmixed a ↔ ¬ Losing a allow) := by
    intro key value hvl hot hrl
    obtain ⟨hun, hl, ho⟩ := unmixed_single allow key hs hr hot
    exact iff_of_true ⟨fun rule h => testsAll_single value hvl ho (hrl rule h), hun⟩ hl
  cases how : a own with
  | some name =>
    have hnt : anyOf [user, group] a = false :=
      hap.anyOf_false (l := [own]) (by decide) (anyOf_iff.2 ⟨own, by simp, name, how⟩)
    refine hsn name how (fun key hmm hne => none_of_anyOf hnt (by simpa [hne] using hmm)) ?_
    rintro rule rfl req hrq
    simp only [how] at hb
    cases hb
    cases req with
    | own n =>
      refine ⟨n, rfl, ?_⟩
      by_cases hst : name = asciiBytes "*"
      · exact .inl hst
      · simpa [BusPolicyRule.matchesRequest, usedToOwn, unlessWildcard, hst] using hrq
    | _ => cases hrq
  | none =>
    cases hu : a user with
    | some value =>
      have hnt : anyOf [group] a = false :=
        hap.anyOf_false (l := [user]) (by decide) (anyOf_iff.2 ⟨user, by simp, value, hu⟩)
      have hg := none_of_anyOf hnt (mem_singleton.2 rfl)
      refine hsn value hu (by simp [how, hg]) ?_
      rintro rule rfl req hrq
      simp only [how, hu] at hb
      obtain ⟨id, rfl, hid⟩ := idRule_eq_some (Except.ok.inj hb)
      cases req with
      | connect uid groups =>
        refine ⟨uid, groups, rfl, hid.imp_right ?_⟩
        rintro ⟨n, rfl, hn⟩
        have heq : n = uid := by simpa [BusPolicyRule.matchesRequest, usedToConnect] using hrq
        exact heq ▸ hn
      | _ => cases hrq
    | none =>
      cases hg : a group with
      | none =>
        simp only [how, hu, hg] at hb
        cases hb
      | some value =>
        refine hsn value hg (by simp [how, hu]) ?_
        rintro rule rfl req hrq
        simp only [how, hu, hg] at hb
        obtain ⟨id, rfl, hid⟩ := idRule_eq_some (Except.ok.inj hb)
        cases req with
        | connect uid groups =>
          refine ⟨uid, groups, rfl, hid.imp_right ?_⟩
          rintro ⟨n, rfl, hn⟩
          have hmm : n ∈ groups := by
            simpa [BusPolicyRule.matchesRequest, usedToConnect] using hrq
          exact ⟨n, hmm, hn⟩
        | _ => cases hrq

section
variable (h : ruleFromElement users elementName a allow = .ok r)
include h

theorem ruleFromElement_ok : Apart a ∧ buildRule users a allow = .ok r := by
  rw [ruleFromElement] at h
  split at h
  · cases h
  split at h
  · cases h
  split at h
  · cases h
  · rename_i hfr
    refine ⟨?_, h⟩
    intro f hf hky
    by_contra ho
    refine hfr (any_eq_true.2 ⟨f, hf, ?_⟩)
    simp only [anyOf, any_cons, any_nil, Bool.or_false] at hky
    simp [hky, Bool.eq_true_of_not_eq_false ho]

theorem ruleFromElement_iff :
    (∀ rule, r = some rule → TestsAll users a allow rule) ∧ Unmixed a ↔ ¬ Losing a allow := by
  obtain ⟨hap, hb⟩ := ruleFromElement_ok h
  have hsm {rule : BusPolicyRule} {P : BusPolicyRule → Prop} :
      (∀ rule', some rule = some rule' → P rule') ↔ P rule := by simp
  cases hs : anyOf forSending a with
  | true =>
    rw [buildRule, if_pos hs] at hb
    obtain ⟨p, hp, hb⟩ := bind_eq_ok.1 hb
    cases hb
    rw [hsm]
    exact iff_send hap hs (patternFromAttributes_ok hp)
  | false =>
    cases hr : anyOf (eavesdrop :: forReceiving) a with
    | false => exact iff_single hap hs hr hb
    | true =>
      have hsn : ¬ anyOf forSending a = true := by simp [hs]
      rw [buildRule, if_neg hsn, if_pos hr] at hb
      obtain ⟨p, hp, hb⟩ := bind_eq_ok.1 hb
      cases hb
      rw [hsm]
      exact iff_receive hap hs hr (patternFromAttributes_ok hp)

end

end

/-! ## Elements -/

theorem Attributes.hasAny_iff : HasAny attributes l ↔
    ∃ key ∈ l, key.name ∈ attributes.map Prod.fst := by
  simp [HasAny, Has]

instance : Decidable (HasAny attributes l) :=
  decidable_of_iff _ hasAny_iff.symm

instance : Decidable (Mixed attributes) :=
  inferInstanceAs (Decidable (¬ List.Pairwise _ _))

instance (allow : Bool) : Decidable (Loses attributes allow) :=
  inferInstanceAs (Decidable (_ ∨ _ ∨ _ ∧ _ ∈ _))

theorem BusPolicy.append_inj {rule rule' : BusPolicyRule}
    (h : policy.append list rule = policy.append list rule') : rule = rule' := by
  have hrl := congrArg (rulesOf · list) h
  simpa [rulesOf_append] using hrl

theorem BusPolicy.append_ne (policy : BusPolicy) (list : PolicyList) (rule : BusPolicyRule) :
    policy ≠ policy.append list rule := by
  intro h
  have hrl := congrArg (rulesOf · list) h
  simp [rulesOf_append] at hrl

theorem appendToPolicy_ok {policy' : BusPolicy} {rule : BusPolicyRule}
    (h : appendToPolicy elementName (some list) policy rule = .ok policy') :
    policy' = policy.append list rule := by
  cases list with
  | user uid | group gid =>
    rw [appendToPolicy] at h
    split at h
    · cases h
    · exact (Except.ok.inj h).symm
  | _ => exact (Except.ok.inj h).symm

theorem appendRuleFromElement_ok {users : ConfigUsers} {policy' : BusPolicy}
    (h : appendRuleFromElement users elementName attributes allow (some list) policy = .ok policy') :
    ∃ located r, locateAttributes elementName (all.map name) attributes = .ok located ∧
      ruleFromElement users elementName (fun key => located key.name) allow = .ok r ∧
      (r = none ∧ policy' = policy ∨ ∃ rule, r = some rule ∧ policy' = policy.append list rule) := by
  obtain ⟨located, hl, h⟩ := bind_eq_ok.1 h
  obtain ⟨r, hrl, h⟩ := bind_eq_ok.1 h
  refine ⟨located, r, hl, hrl, ?_⟩
  cases r with
  | none => exact .inl ⟨rfl, (Except.ok.inj h).symm⟩
  | some rule => exact .inr ⟨rule, rfl, appendToPolicy_ok h⟩

def noUsers : ConfigUsers := ⟨fun _ => none, fun _ => none⟩

def callsOnly : Attributes :=
  [(sendDestination.name, asciiBytes "a.b"), (sendType.name, asciiBytes "method_call")]

def signalsToo : Attributes :=
  [(sendDestination.name, asciiBytes "a.b"), (receiveType.name, asciiBytes "signal")]

end DBus
