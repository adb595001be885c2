/-
  What `match_rule_matches` decides.

  `Bus.RuleHolds` says what it means that the constraints of a rule hold of a message.  The
  evaluation agrees with it (`matches_iff`) unless it looks at the last byte of an empty
  string, which it does for `argNpath` when one of the two paths is empty and the other is not.
-/
import DBus.Bus.RuleParse

namespace DBus

open Outcome List Option

/-! ## Meaning -/

/-- Two paths are the same, or one ends with a slash and the other goes on from there. -/
def PathAgrees (expected actual : List UInt8) : Prop :=
  expected = actual ∨ (expected <+: actual ∧ expected.getLast? = some '/'.toUInt8) ∨
    (actual <+: expected ∧ actual.getLast? = some '/'.toUInt8)

section
variable (expected : List UInt8 × Bool)

def TextHolds (actual : List UInt8) : Prop :=
  if expected.2 then PathAgrees expected.1 actual else actual = expected.1

/-- There is an argument, it is a string, and it is the one that is expected. -/
def ArgHolds (actual : Option Value) : Prop :=
  ∃ text, actual = some (.str .string text) ∧ TextHolds expected text

end

def ArgsHold (args : List (Option (List UInt8 × Bool))) (body : List Value) : Prop :=
  ∀ (i : ℕ) (e : List UInt8 × Bool), args[i]? = some (some e) → ArgHolds e body[i]?

/-- A name is the one in a field of the message or one that the connection owns. -/
def Bus.Names (bus : Bus) (field : Option (List UInt8)) (connection : Option ℕ)
    (name : List UInt8) : Prop :=
  field = some name ∨ ∃ c ∈ connection, bus.connectionIsPrimaryOwner c name = true

/-- The constraints of a rule on the header hold. -/
structure Bus.HeaderHolds (bus : Bus) (rule : BusMatchRule) (sender addressed : Option ℕ)
    (message : BusMessage) : Prop where
  type : ∀ t ∈ rule.messageType, message.type = t
  interface : ∀ name ∈ rule.interface, message.interface = some name
  member : ∀ name ∈ rule.member, message.member = some name
  sender : ∀ name ∈ rule.sender, bus.Names message.sender sender name
  destination : ∀ name ∈ rule.destination, bus.Names message.destination addressed name
  path : ∀ path ∈ rule.path, message.path = some path

def Bus.RuleHolds (bus : Bus) (rule : BusMatchRule) (sender addressed : Option ℕ)
    (message : BusMessage) : Prop :=
  bus.HeaderHolds rule sender addressed message ∧ ArgsHold rule.args message.body

/-- The connections of a message are those that its fields name; without connection, it is the
    driver, or there is no destination. -/
structure Bus.Routed (bus : Bus) (sender addressed : Option ℕ) (message : BusMessage) : Prop where
  byDriver : sender = none → message.sender = some serviceDBus
  sent : ∀ c ∈ sender, ∃ name, message.sender = some name ∧
    bus.connectionIsPrimaryOwner c name = true
  toDriver : addressed = none → message.destination = none ∨ message.destination = some serviceDBus
  received : ∀ c ∈ addressed, ∃ name, message.destination = some name ∧
    bus.connectionIsPrimaryOwner c name = true

/-! ## Header -/

section
variable {bus : Bus} {rule : BusMatchRule} {sender addressed : Option ℕ} {message : BusMessage}

theorem senderHolds_iff (name : List UInt8) : bus.Routed sender addressed message →
    ((match sender with
      | none => decide (name = serviceDBus)
      | some c => bus.connectionIsPrimaryOwner c name) = true ↔
        bus.Names message.sender sender name) := by
  intro hrt
  cases sender with
  | none =>
    rw [Bus.Names, hrt.byDriver rfl]
    simp [eq_comm (a := name)]
  | some c =>
    obtain ⟨own, how, ho⟩ := hrt.sent c rfl
    simp only [Bus.Names, how, Option.some.injEq, mem_def, exists_eq_left']
    refine ⟨.inr, ?_⟩
    rintro (rfl | h)
    exacts [ho, h]

theorem destinationHolds_iff (name : List UInt8) : bus.Routed sender addressed message →
    ((message.destination.isSome && match addressed with
      | none => decide (name = serviceDBus)
      | some c => bus.connectionIsPrimaryOwner c name) = true ↔
        bus.Names message.destination addressed name) := by
  intro hrt
  cases addressed with
  | none =>
    rw [Bus.Names]
    rcases hrt.toDriver rfl with h | h <;> rw [h] <;> simp [eq_comm (a := name)]
  | some c =>
    obtain ⟨own, how, ho⟩ := hrt.received c rfl
    simp only [Bus.Names, how, Option.some.injEq, mem_def, exists_eq_left',
      isSome_some, Bool.true_and]
    refine ⟨.inr, ?_⟩
    rintro (rfl | h)
    exacts [ho, h]

theorem headerAgrees_iff (hrt : bus.Routed sender addressed message) :
    bus.headerAgrees rule sender addressed message = true ↔
      bus.HeaderHolds rule sender addressed message := by
  have hsn := fun name => senderHolds_iff name hrt
  have hds := fun name => destinationHolds_iff name hrt
  simp only [Bus.headerAgrees, Bool.and_eq_true, Option.all_eq_true, decide_eq_true_eq]
  constructor
  · rintro ⟨⟨⟨⟨⟨ht, hi⟩, hm⟩, hs⟩, hd⟩, hp⟩
    exact ⟨fun t h => (ht t h).symm, fun n h => (hi n h).symm, fun n h => (hm n h).symm,
      fun n h => (hsn n).1 (hs n h), fun n h => (hds n).1 (Bool.and_eq_true_iff.2 (hd n h)),
      fun n h => (hp n h).symm⟩
  · rintro ⟨ht, hi, hm, hs, hd, hp⟩
    exact ⟨⟨⟨⟨⟨fun t h => (ht t h).symm, fun n h => (hi n h).symm⟩, fun n h => (hm n h).symm⟩,
      fun n h => (hsn n).2 (hs n h)⟩,
      fun n h => Bool.and_eq_true_iff.1 ((hds n).2 (hd n h))⟩, fun n h => (hp n h).symm⟩

end

/-! ## Arguments -/

section
variable {expected actual : List UInt8} {e : List UInt8 × Bool}
  {args : List (Option (List UInt8 × Bool))} {body : List Value}

def EndsReadable (expected : List UInt8 × Bool) (actual : Option Value) : Prop :=
  expected.2 = true → ∀ text, actual = some (.str .string text) → (expected.1 = [] ↔ text = [])

/-- The last bytes of the paths that the evaluation comes to can be looked at. -/
def ArgsReadable (args : List (Option (List UInt8 × Bool))) (body : List Value) : Prop :=
  ∀ (i : ℕ) (e : List UInt8 × Bool), args[i]? = some (some e) → ArgsHold (args.take i) body →
    EndsReadable e body[i]?

theorem byteBefore_length {text : List UInt8} (h : text ≠ []) :
    byteBefore text text.length = .ok (text.getLast h) := by
  have hp : 0 < text.length := length_pos_iff.2 h
  rw [byteBefore, if_neg (by omega), getLast_eq_getElem, getElem?_eq_getElem (by omega)]
  rfl

theorem pathAgrees_of_lt (h : actual.length < expected.length) :
    PathAgrees expected actual ↔ actual <+: expected ∧ actual.getLast? = some '/'.toUInt8 := by
  constructor
  · rintro (rfl | ⟨hp, -⟩ | hp)
    · exact absurd h (Nat.lt_irrefl _)
    · exact absurd hp.length_le (Nat.not_le.2 h)
    · exact hp
  · intro hp
    exact .inr (.inr hp)

theorem pathAgrees_comm : PathAgrees expected actual ↔ PathAgrees actual expected := by
  rw [PathAgrees, PathAgrees, eq_comm, or_comm (b := actual <+: expected ∧ _)]

theorem pathAgrees_of_length_eq (h : actual.length = expected.length) :
    PathAgrees expected actual ↔ actual = expected := by
  constructor
  · rintro (rfl | ⟨hp, -⟩ | ⟨hp, -⟩)
    · rfl
    · exact (hp.eq_of_length h.symm).symm
    · exact hp.eq_of_length h
  · rintro rfl
    exact .inl rfl

theorem shorter_agrees {short long : List UInt8} (hne : short ≠ [])
    (hlt : short.length < long.length) :
    (∃ b, (do
      let c ← byteBefore short short.length
      if c ≠ '/'.toUInt8 then return false
      else return decide (short = long.take short.length) : Res Bool) = .ok b ∧
        (b = true ↔ PathAgrees long short)) := by
  rw [byteBefore_length hne, ok_bind, pathAgrees_of_lt hlt, getLast?_eq_some_getLast hne]
  by_cases hsl : short.getLast hne = '/'.toUInt8
  · rw [if_neg (not_not.2 hsl)]
    refine ⟨_, rfl, ?_⟩
    rw [decide_eq_true_iff, hsl, prefix_iff_eq_take]
    simp
  · rw [if_pos hsl]
    refine ⟨_, rfl, ?_⟩
    simp [hsl]

theorem argAgrees_ok (h : e.2 = true → (e.1 = [] ↔ actual = [])) :
    ∃ b, argAgrees e.1 actual e.2 = .ok b ∧ (b = true ↔ TextHolds e actual) := by
  obtain ⟨expected, isPath⟩ := e
  cases isPath with
  | false =>
    refine ⟨_, rfl, ?_⟩
    simp [TextHolds, eq_comm]
  | true =>
    have hem : expected = [] ↔ actual = [] := h rfl
    simp only [argAgrees, TextHolds, if_true]
    rcases Nat.lt_trichotomy actual.length expected.length with hlt | heq | hlt
    · have hne : actual ≠ [] := by
        rintro rfl
        rw [hem.2 rfl] at hlt
        exact Nat.lt_irrefl _ hlt
      rw [if_pos hlt]
      exact shorter_agrees hne hlt
    · rw [if_neg (by omega), if_neg (by omega), pathAgrees_of_length_eq heq]
      exact ⟨_, rfl, decide_eq_true_iff⟩
    · have hne : expected ≠ [] := by
        rintro rfl
        rw [hem.1 rfl] at hlt
        exact Nat.lt_irrefl _ hlt
      rw [if_neg (by omega), if_pos hlt, pathAgrees_comm]
      have hfl := shorter_agrees hne hlt
      simp only [eq_comm (a := expected)] at hfl
      exact hfl

theorem argAgrees_outside (hp : e.2 = true) (h : ¬ (e.1 = [] ↔ actual = [])) :
    argAgrees e.1 actual e.2 = .error .outside := by
  obtain ⟨expected, isPath⟩ := e
  obtain rfl : isPath = true := hp
  simp only [argAgrees, if_true]
  rcases expected with _ | ⟨c, cs⟩
  · rcases actual with _ | ⟨d, ds⟩
    · exact absurd ⟨fun _ => rfl, fun _ => rfl⟩ h
    · rfl
  · rcases actual with _ | ⟨d, ds⟩
    · rfl
    · exact absurd ⟨nofun, nofun⟩ h

theorem argsAgree_some (e : List UInt8 × Bool) (args : List (Option (List UInt8 × Bool)))
    (body : List Value) :
    (∃ text rest, body = .str .string text :: rest ∧ argsAgree (some e :: args) body =
      do if ← argAgrees e.1 text e.2 then argsAgree args rest else return false) ∨
    ((∀ text, body.head? ≠ some (.str .string text)) ∧
      argsAgree (some e :: args) body = .ok false) := by
  rcases body with _ | ⟨v, rest⟩
  · exact .inr ⟨nofun, rfl⟩
  · by_cases hv : ∃ text, v = .str .string text
    · obtain ⟨text, rfl⟩ := hv
      exact .inl ⟨text, rest, rfl, rfl⟩
    · refine .inr ⟨fun text he => hv ⟨text, Option.some.inj he⟩, ?_⟩
      rw [argsAgree]
      intro _ _ text _ he _
      exact hv ⟨text, (List.cons.inj he).1⟩

variable {e : Option (List UInt8 × Bool)}

theorem forall_args_cons {F : ℕ → List UInt8 × Bool → Prop} :
    (∀ i x, (e :: args)[i]? = some (some x) → F i x) ↔
      (∀ x ∈ e, F 0 x) ∧ ∀ i x, args[i]? = some (some x) → F (i + 1) x := by
  constructor
  · intro h
    exact ⟨fun x hx => h 0 x (by rw [getElem?_cons_zero, hx]), fun i x hx => h (i + 1) x hx⟩
  · rintro ⟨hh, htl⟩ (_ | i) x hx
    · exact hh x (Option.some.inj hx)
    · exact htl i x hx

theorem argsHold_cons :
    ArgsHold (e :: args) body ↔ (∀ x ∈ e, ArgHolds x body.head?) ∧ ArgsHold args body.tail := by
  simp only [ArgsHold, forall_args_cons, head?_eq_getElem?, getElem?_tail]

theorem argsReadable_cons : ArgsReadable (e :: args) body ↔ (∀ x ∈ e, EndsReadable x body.head?) ∧
      ((∀ x ∈ e, ArgHolds x body.head?) → ArgsReadable args body.tail) := by
  have hnl : ArgsHold [] body := by simp [ArgsHold]
  simp only [ArgsReadable, forall_args_cons, take_zero, take_succ_cons, argsHold_cons, hnl,
    head?_eq_getElem?, getElem?_tail]
  grind

theorem argsAgree_ok (h : ArgsReadable args body) :
    ∃ b, argsAgree args body = .ok b ∧ (b = true ↔ ArgsHold args body) := by
  induction args generalizing body with
  | nil => exact ⟨true, rfl, by simp [ArgsHold]⟩
  | cons e args ih =>
    obtain ⟨hen, hl⟩ := argsReadable_cons.1 h
    rw [argsHold_cons]
    cases e with
    | none =>
      obtain ⟨b, hb, hi⟩ := ih (hl nofun)
      refine ⟨b, hb, ?_⟩
      rw [hi]
      exact ⟨fun har => ⟨nofun, har⟩, fun har => har.2⟩
    | some e =>
      simp only [mem_def, Option.some.injEq, forall_eq'] at hen hl ⊢
      rcases argsAgree_some e args body with ⟨text, rest, rfl, hst⟩ | ⟨hno, hst⟩
      · have htx : ArgHolds e (some (.str .string text)) ↔ TextHolds e text := by
          constructor
          · rintro ⟨_, he, hh⟩
            cases he
            exact hh
          · exact fun hh => ⟨text, rfl, hh⟩
        rw [head?_cons, htx] at hl ⊢
        obtain ⟨b, hb, hi⟩ := argAgrees_ok fun hp => hen hp text rfl
        rw [hst, hb, ok_bind]
        cases b with
        | false => exact ⟨false, rfl, by simp [← hi]⟩
        | true =>
          have hh := hi.1 rfl
          obtain ⟨b', hb', hi'⟩ := ih (hl hh)
          exact ⟨b', hb', hi'.trans ⟨fun har => ⟨hh, har⟩, fun har => har.2⟩⟩
      · refine ⟨false, hst, ?_⟩
        simp only [Bool.false_eq_true, false_iff, not_and]
        rintro ⟨text, htx, -⟩
        exact absurd htx (hno text)

theorem argsAgree_outside (h : ¬ ArgsReadable args body) :
    argsAgree args body = .error .outside := by
  induction args generalizing body with
  | nil => exact absurd (fun i x hx => by simp at hx) h
  | cons e args ih =>
    rw [argsReadable_cons, not_and, Classical.not_imp] at h
    cases e with
    | none =>
      refine ih fun htl => ?_
      exact (h nofun).2 htl
    | some e =>
      simp only [mem_def, Option.some.injEq, forall_eq'] at h
      rcases argsAgree_some e args body with ⟨text, rest, rfl, hst⟩ | ⟨hno, hst⟩
      · rw [hst]
        by_cases hen : EndsReadable e (some (.str .string text))
        · obtain ⟨⟨text', he, hh⟩, htl⟩ := h hen
          cases he
          obtain ⟨b, hb, hi⟩ := argAgrees_ok fun hp => hen hp text rfl
          rw [hb, hi.2 hh, ok_bind]
          exact ih htl
        · rw [EndsReadable, Classical.not_imp] at hen
          obtain ⟨hp, hen⟩ := hen
          simp [argAgrees_outside hp fun hi => hen fun _ he => by cases he; exact hi]
      · have hen : EndsReadable e body.head? := fun _ text he => absurd he (hno text)
        obtain ⟨⟨text, he, -⟩, -⟩ := h hen
        exact absurd he (hno text)

end

/-! ## Rules -/

section
variable {rule rule' : BusMatchRule} {key value : List UInt8}

theorem messageType_parseToken {lib : CLib} (h : parseToken lib rule key value = .ok (.ok rule')) :
    rule'.messageType = rule.messageType ∨
      ∃ t, messageTypeFromString value = some t ∧ rule'.messageType = some t := by
  have hnm : ∀ {present validate what} {new : BusMatchRule},
      parseName present validate what new key value = .ok (.ok rule') → rule' = new := by
    intro present validate what new hp
    unfold parseName at hp
    split at hp
    · cases hp
    · obtain ⟨b, -, hp⟩ := bind_eq_ok.1 hp
      cases b with
      | false => cases hp
      | true =>
        cases hp
        rfl
  unfold parseToken at h
  split_ifs at h
  · obtain ⟨hsm, -, rfl⟩ := parseType_iff.1 (Except.ok.inj h)
    obtain ⟨t, ht⟩ := isSome_iff_exists.1 hsm
    exact .inr ⟨t, ht, ht⟩
  · exact .inl (by rw [hnm h])
  · exact .inl (by rw [hnm h])
  · exact .inl (by rw [hnm h])
  · exact .inl (by rw [hnm h])
  · exact .inl (by rw [hnm h])
  · have hp := Except.ok.inj h
    unfold parseArgMatch at hp
    split at hp
    · cases hp
    split at hp
    · cases hp
    split_ifs at hp
    cases hp
    exact .inl rfl
  · cases h

theorem messageType_of_parse {lib : CLib} {c : ℕ} {text : List UInt8}
    (h : busMatchRuleParse lib c text = .ok (.ok rule)) : rule.messageType ≠ some .invalid := by
  have htk : ∀ (tokens : List (Option (List UInt8 × List UInt8))) (start : BusMatchRule),
      start.messageType ≠ some .invalid → parseTokens lib start tokens = .ok (.ok rule) →
      rule.messageType ≠ some .invalid := by
    intro tokens
    induction tokens with
    | nil =>
      intro start hst hp
      cases hp
      exact hst
    | cons token tokens ih =>
      intro start hst hp
      cases token with
      | none =>
        cases hp
        exact hst
      | some token =>
        rw [parseTokens, bind_eq_ok] at hp
        obtain ⟨r, hr, hp⟩ := hp
        cases r with
        | error e => cases hp
        | ok next =>
          refine ih next ?_ hp
          rcases messageType_parseToken hr with hsm | ⟨t, ht, hnw⟩
          · rwa [hsm]
          · rw [hnw, ← ht]
            exact messageTypeFromString_ne_invalid _
  unfold busMatchRuleParse at h
  split at h
  · cases h
  · split at h
    · cases h
    · exact htk _ { matchesGoTo := c } (by simp) h

end

section
variable (bus : Bus) {rule : BusMatchRule} {sender addressed : Option ℕ} {message : BusMessage}

/-- What the evaluation returns is what the bus goes by. -/
theorem bus_matchRuleMatches_of_ok {b : Bool}
    (h : matchRuleMatches bus rule sender addressed message = .ok b) :
    bus.matchRuleMatches rule sender addressed message = b := by
  obtain ⟨_, -, h⟩ := bind_eq_ok.1 h
  rw [Bus.matchRuleMatches]
  split at h
  · next hag =>
    rw [hag, h, Bool.true_and]
    cases b <;> rfl
  · next hag =>
    cases h
    rw [Bool.eq_false_iff.2 hag, Bool.false_and]

/-- A rule that was parsed is evaluated to whether its constraints hold, and no byte outside a
    string is read, if and only if no `argNpath` that the evaluation comes to has an empty path
    on one side only. -/
theorem matches_iff {lib : CLib} {c : ℕ} {text : List UInt8}
    (hparsed : busMatchRuleParse lib c text = .ok (.ok rule))
    (hrouted : bus.Routed sender addressed message) :
    (∃ b, matchRuleMatches bus rule sender addressed message = .ok b ∧
      (b = true ↔ bus.RuleHolds rule sender addressed message)) ↔
    (bus.HeaderHolds rule sender addressed message → ArgsReadable rule.args message.body) := by
  have hty := messageType_of_parse hparsed
  unfold matchRuleMatches
  rw [assert_bind hty]
  by_cases hh : bus.HeaderHolds rule sender addressed message
  · rw [if_pos ((headerAgrees_iff hrouted).2 hh)]
    constructor
    · rintro ⟨b, hb, -⟩ -
      by_contra hrd
      simp [argsAgree_outside hrd] at hb
    · intro hrd
      obtain ⟨b, hb, hi⟩ := argsAgree_ok (hrd hh)
      exact ⟨b, hb, hi.trans ⟨fun har => ⟨hh, har⟩, fun hhl => hhl.2⟩⟩
  · rw [if_neg fun hag => hh ((headerAgrees_iff hrouted).1 hag)]
    refine ⟨fun _ hhl => absurd hhl hh, fun _ => ⟨false, rfl, ?_⟩⟩
    simp only [Bool.false_eq_true, false_iff]
    exact fun hhl => hh hhl.1

theorem matches_signal_iff :
    (∃ b, matchRuleMatches .empty { matchesGoTo := 5, args := [some (asciiBytes "/a", true)] }
      none none { type := .signal, sender := some serviceDBus, body := [.text (asciiBytes "/a")] } =
        .ok b ∧ (b = true ↔ Bus.empty.RuleHolds
          { matchesGoTo := 5, args := [some (asciiBytes "/a", true)] } none none
          { type := .signal, sender := some serviceDBus, body := [.text (asciiBytes "/a")] })) := by
  have hp : busMatchRuleParse decimalLib 5 (asciiBytes "arg0path='/a'") =
      .ok (.ok { matchesGoTo := 5, args := [some (asciiBytes "/a", true)] }) := rfl
  have hrt : Bus.empty.Routed none none
      { type := .signal, sender := some serviceDBus, body := [.text (asciiBytes "/a")] } := by
    refine ⟨fun _ => rfl, ?_, fun _ => .inl rfl, ?_⟩
    · intro c hc
      cases hc
    · intro c hc
      cases hc
  refine (matches_iff .empty hp hrt).2 ?_
  rintro - i e he - -  text htx
  rcases i with _ | i
  · cases he
    cases htx
    exact ⟨nofun, nofun⟩
  · cases he

/-- The byte before an empty argument is read. -/
theorem matches_reads_before_argument :
    busMatchRuleParse decimalLib 5 (asciiBytes "arg0path='/a'") =
      .ok (.ok { matchesGoTo := 5, args := [some (asciiBytes "/a", true)] }) ∧
    matchRuleMatches .empty { matchesGoTo := 5, args := [some (asciiBytes "/a", true)] } none none
      { type := .signal, sender := some serviceDBus, body := [.text []] } = .error .outside :=
  ⟨rfl, rfl⟩

end

end DBus
