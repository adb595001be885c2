/-
  `bus_match_rule_parse` accepts the texts that are match rules, and the rule it makes has the
  constraints that are written in the text (`parse_exact`).

  Three things in the source stand against this for some texts (`Regular`): no more than 16
  items are looked at, an item that begins with `=` ends the rule silently, and the
  numbers of arguments may also be written in other ways than in decimal.
-/
import DBus.Bus.RuleText

namespace DBus

open Outcome Memory List Option BusMatchRule DBusString

/-! ## Constraints -/

/-- The keys of match rules. -/
inductive RuleKey where
  | type
  | sender
  | interface
  | member
  | path
  | destination
  | arg (n : ℕ) (isPath : Bool)
deriving DecidableEq, Repr

namespace RuleKey

def Text : RuleKey → List UInt8 → Prop
  | type, k => k = asciiBytes "type"
  | sender, k => k = asciiBytes "sender"
  | interface, k => k = asciiBytes "interface"
  | member, k => k = asciiBytes "member"
  | path, k => k = asciiBytes "path"
  | destination, k => k = asciiBytes "destination"
  | arg n isPath, k => ∃ digits, IsDecimal digits ∧ digitsValue digits = n ∧
      n ≤ maximumMatchRuleArgNumber ∧
      k = asciiBytes "arg" ++ (digits ++ if isPath then asciiBytes "path" else [])

def Admits : RuleKey → List UInt8 → Prop
  | type, v => (messageTypeFromString v).isSome
  | sender, v | destination, v => NameValid validateBusName v
  | interface, v => NameValid validateInterface v
  | member, v => NameValid validateMember v
  | path, v => PathValid v
  | arg _ _, _ => True

/-- What a key is about: `arg7` and `arg7path` are about the same argument. -/
def subject : RuleKey → RuleKey
  | arg n _ => arg n false
  | k => k

end RuleKey

def BusMatchRule.Constrains (rule : BusMatchRule) : RuleKey → List UInt8 → Prop
  | .type, v => rule.messageType = messageTypeFromString v ∧ rule.messageType ≠ none
  | .sender, v => rule.sender = some v
  | .interface, v => rule.interface = some v
  | .member, v => rule.member = some v
  | .path, v => rule.path = some v
  | .destination, v => rule.destination = some v
  | .arg n p, v => rule.args[n]? = some (some (v, p))

/-- A rule has exactly the constraints of some items. -/
structure RuleOf (c : ℕ) (items : List (RuleKey × List UInt8)) (rule : BusMatchRule) : Prop where
  goesTo : rule.matchesGoTo = c
  typed : ∀ t, rule.messageType = some t → ∃ v, messageTypeFromString v = some t
  constrains : ∀ K v, rule.Constrains K v ↔ (K, v) ∈ items

/-- A rule has something to say about the subject of a key. -/
def BusMatchRule.has (rule : BusMatchRule) : RuleKey → Prop
  | .type => rule.messageType ≠ none
  | .sender => rule.sender ≠ none
  | .interface => rule.interface ≠ none
  | .member => rule.member ≠ none
  | .path => rule.path ≠ none
  | .destination => rule.destination ≠ none
  | .arg n _ => (rule.args[n]?).join ≠ none

def BusMatchRule.add (rule : BusMatchRule) : RuleKey → List UInt8 → BusMatchRule
  | .type, v => { rule with messageType := messageTypeFromString v }
  | .sender, v => { rule with sender := some v }
  | .interface, v => { rule with interface := some v }
  | .member, v => { rule with member := some v }
  | .path, v => { rule with path := some v }
  | .destination, v => { rule with destination := some v }
  | .arg n p, v => { rule with args := setArg rule.args n v p }

section
variable {c : ℕ} {items : List (RuleKey × List UInt8)} {rule rule' : BusMatchRule} {K : RuleKey}
  {v key value text : List UInt8}

theorem ruleOf_new (c : ℕ) : RuleOf c [] { matchesGoTo := c } := by
  refine ⟨rfl, nofun, fun K v => ?_⟩
  cases K <;> simp [Constrains]

theorem messageTypeFromString_inj {w : List UInt8} (hv : (messageTypeFromString v).isSome)
    (h : messageTypeFromString v = messageTypeFromString w) : v = w := by
  have hrd : ∀ u t, messageTypeFromString u = some t →
      (t = .methodCall ∧ u = asciiBytes "method_call") ∨
      (t = .methodReturn ∧ u = asciiBytes "method_return") ∨
      (t = .signal ∧ u = asciiBytes "signal") ∨ (t = .error ∧ u = asciiBytes "error") := by
    intro u t ht
    unfold messageTypeFromString at ht
    split at ht
    · cases ht
      exact .inl ⟨rfl, ‹_›⟩
    · split at ht
      · cases ht
        exact .inr (.inl ⟨rfl, ‹_›⟩)
      · split at ht
        · cases ht
          exact .inr (.inr (.inl ⟨rfl, ‹_›⟩))
        · split at ht
          · cases ht
            exact .inr (.inr (.inr ⟨rfl, ‹_›⟩))
          · cases ht
  obtain ⟨t, ht⟩ := isSome_iff_exists.1 hv
  rcases hrd v t ht with ⟨rfl, rfl⟩ | ⟨rfl, rfl⟩ | ⟨rfl, rfl⟩ | ⟨rfl, rfl⟩ <;>
    rcases hrd w _ (h ▸ ht) with ⟨he, rfl⟩ | ⟨he, rfl⟩ | ⟨he, rfl⟩ | ⟨he, rfl⟩ <;>
    first | (cases he; done) | rfl

theorem getElem?_setArg (args : List (Option (List UInt8 × Bool))) (n m : ℕ) (v : List UInt8)
    (p : Bool) (x : List UInt8 × Bool) : (setArg args n v p)[m]? = some (some x) ↔
      (m = n ∧ x = (v, p)) ∨ (m ≠ n ∧ args[m]? = some (some x)) := by
  rw [setArg, getElem?_set]
  have hlen : n < (args ++ List.replicate (n + 1 - args.length) none).length := by
    rw [length_append, length_replicate]
    omega
  by_cases hm : n = m
  · subst hm
    rw [if_pos rfl, if_pos hlen]
    simp [eq_comm]
  · rw [if_neg hm]
    have hm' : m ≠ n := fun he => hm he.symm
    by_cases hl : m < args.length
    · rw [getElem?_append_left hl]
      simp [hm']
    · rw [getElem?_append_right (by omega), getElem?_replicate, getElem?_eq_none (by omega)]
      simp [hm']

theorem RuleOf.has_iff (h : RuleOf c items rule) :
    rule.has K ↔ ∃ K' w, K'.subject = K.subject ∧ rule.Constrains K' w := by
  constructor
  · intro hK
    cases K with
    | type =>
      obtain ⟨t, ht⟩ := ne_none_iff_exists'.1 hK
      obtain ⟨w, hw⟩ := h.typed t ht
      exact ⟨.type, w, rfl, by rw [ht, hw], hK⟩
    | arg n p =>
      obtain ⟨⟨w, q⟩, hw⟩ := ne_none_iff_exists'.1 hK
      exact ⟨.arg n q, w, rfl, join_eq_some_iff.1 hw⟩
    | sender => exact (ne_none_iff_exists'.1 hK).elim fun w hw => ⟨.sender, w, rfl, hw⟩
    | interface => exact (ne_none_iff_exists'.1 hK).elim fun w hw => ⟨.interface, w, rfl, hw⟩
    | member => exact (ne_none_iff_exists'.1 hK).elim fun w hw => ⟨.member, w, rfl, hw⟩
    | path => exact (ne_none_iff_exists'.1 hK).elim fun w hw => ⟨.path, w, rfl, hw⟩
    | destination => exact (ne_none_iff_exists'.1 hK).elim fun w hw => ⟨.destination, w, rfl, hw⟩
  · rintro ⟨K', w, hs, hw⟩
    cases K <;> cases K' <;> cases hs
    · exact hw.2
    all_goals simp_all [Constrains, has]

theorem constrains_add (hv : K.Admits v) (K' : RuleKey) (w : List UInt8) :
    (rule.add K v).Constrains K' w ↔
      (K' = K ∧ w = v) ∨ (K'.subject ≠ K.subject ∧ rule.Constrains K' w) := by
  cases K with
  | type =>
    cases K' with
    | type =>
      simp only [add, Constrains, RuleKey.subject, ne_eq, not_true_eq_false,
        false_and, or_false, true_and]
      constructor
      · rintro ⟨he, -⟩
        exact (messageTypeFromString_inj hv he).symm
      · rintro rfl
        exact ⟨rfl, isSome_iff_ne_none.1 hv⟩
    | _ => simp [add, Constrains, RuleKey.subject]
  | arg n p =>
    cases K' with
    | arg m q =>
      simp only [add, Constrains, RuleKey.subject, getElem?_setArg,
        RuleKey.arg.injEq, Prod.mk.injEq, ne_eq, and_true]
      tauto
    | _ => simp [add, Constrains, RuleKey.subject]
  | _ => cases K' <;> simp [add, Constrains, RuleKey.subject, eq_comm]

theorem RuleOf.add (h : RuleOf c items rule) (hv : K.Admits v) (hK : ¬ rule.has K) :
    RuleOf c (items ++ [(K, v)]) (rule.add K v) := by
  refine ⟨?_, fun t ht => ?_, fun K' w => ?_⟩
  · rw [← h.goesTo]
    cases K <;> rfl
  · cases K with
    | type => exact ⟨v, ht⟩
    | _ => exact h.typed t ht
  · rw [constrains_add hv, mem_append, mem_singleton, Prod.mk.injEq, ← h.constrains K' w, or_comm]
    refine or_congr_left ⟨fun hw => hw.2, fun hw => ⟨fun hs => ?_, hw⟩⟩
    exact hK (h.has_iff.2 ⟨K', w, hs, hw⟩)

theorem RuleOf.not_has_iff (h : RuleOf c items rule) :
    ¬ rule.has K ↔ K.subject ∉ items.map (·.1.subject) := by
  rw [h.has_iff, List.mem_map]
  refine not_congr ⟨?_, ?_⟩
  · rintro ⟨K', w, hs, hw⟩
    exact ⟨(K', w), (h.constrains K' w).1 hw, hs⟩
  · rintro ⟨⟨K', w⟩, hm, hs⟩
    exact ⟨K', w, hs, (h.constrains K' w).2 hm⟩

/-! ## Tokens -/

/-- A number in a key that is not plainly decimal: with a sign, blanks, or zeros before it. -/
def OddNumber (r : List UInt8) : Prop :=
  ∃ c rest, r = c :: rest ∧ ((beginsNumber c = true ∧ isDigit c = false) ∨
    (c = '0'.toUInt8 ∧ ∃ d ∈ rest.head?, isDigit d = true ∨ d = 'x'.toUInt8 ∨ d = 'X'.toUInt8))

/-- The number in a key for an argument, if there is one, is decimal. -/
def DecimalKey (key : List UInt8) : Prop := ∀ r, key = asciiBytes "arg" ++ r → ¬ OddNumber r

theorem strtoul_plain (lib : CLib) {r : List UInt8} (ho : ¬ OddNumber r) {n used : ℕ}
    (h : lib.strtoul r = some (n, used)) : ∃ digits rest, IsDecimal digits ∧ r = digits ++ rest ∧
      digitsValue digits = n ∧ digits.length = used := by
  have hsp : r = r.takeWhile isDigit ++ r.dropWhile isDigit := takeWhile_append_dropWhile.symm
  cases r with
  | nil =>
    rw [lib.noNumber [] nofun] at h
    cases h
  | cons c r =>
    by_cases hc : isDigit c = true
    · have hdec : IsDecimal ((c :: r).takeWhile isDigit) := by
        refine ⟨?_, fun d hd => mem_takeWhile_imp hd, fun hl => ?_⟩
        · rw [takeWhile_cons, if_pos hc]
          exact cons_ne_nil _ _
        · rw [takeWhile_cons, if_pos hc] at hl ⊢
          cases hl
          cases r with
          | nil => rfl
          | cons d r =>
            have hd : isDigit d = false := by
              by_contra hd
              exact ho ⟨_, _, rfl, .inr ⟨rfl, d, rfl, .inl (by simpa using hd)⟩⟩
            simp [hd]
      have hend : EndsNumber ((c :: r).takeWhile isDigit) ((c :: r).dropWhile isDigit) := by
        intro d hd
        refine ⟨?_, fun hz => ?_⟩
        · have := head?_dropWhile_not isDigit (c :: r)
          rw [show ((c :: r).dropWhile isDigit).head? = some d from hd] at this
          simpa using this
        · rw [takeWhile_cons, if_pos hc] at hz
          have hcz : c = '0'.toUInt8 := (List.cons.inj hz).1
          have hrz : r.takeWhile isDigit = [] := (List.cons.inj hz).2
          have hdr : (c :: r).dropWhile isDigit = r := by
            rw [dropWhile_cons, if_pos hc]
            have hr : r.takeWhile isDigit ++ r.dropWhile isDigit = r := takeWhile_append_dropWhile
            rwa [hrz] at hr
          rw [hdr] at hd
          constructor
          · rintro rfl
            exact ho ⟨_, _, rfl, .inr ⟨hcz, _, hd, .inr (.inl rfl)⟩⟩
          · rintro rfl
            exact ho ⟨_, _, rfl, .inr ⟨hcz, _, hd, .inr (.inr rfl)⟩⟩
      rw [hsp, lib.decimal _ _ hdec hend] at h
      split at h
      · cases h
        exact ⟨_, _, hdec, hsp, rfl, rfl⟩
      · cases h
    · have hbg : beginsNumber c = false := by
        by_contra hb
        exact ho ⟨c, r, rfl, .inl ⟨by simpa using hb, by simpa using hc⟩⟩
      rw [lib.noNumber] at h
      · cases h
      · intro d hd
        cases hd
        exact hbg

theorem parseArgMatch_sound (lib : CLib) (hky : asciiBytes "arg" <+: key) (hdec : DecimalKey key)
    (h : parseArgMatch lib rule key value = .ok rule') :
    ∃ n p, (RuleKey.arg n p).Text key ∧ ¬ rule.has (.arg n p) ∧ rule' = rule.add (.arg n p) value := by
  obtain ⟨r, rfl⟩ := hky
  have hdr : (asciiBytes "arg" ++ r).drop 3 = r := rfl
  have hlen : (asciiBytes "arg" ++ r).length = 3 + r.length := by
    rw [length_append]
    rfl
  unfold parseArgMatch at h
  rw [hdr] at h
  split at h
  · cases h
  · cases hnm : lib.strtoul r with
    | none => simp [hnm] at h
    | some x =>
      obtain ⟨n, used⟩ := x
      rw [hnm] at h
      simp only at h
      obtain ⟨digits, rest, hdg, rfl, hvl, rfl⟩ := strtoul_plain lib (hdec r rfl) hnm
      split at h
      · cases h
      · rename_i hjn
        split at h
        · cases h
        · rename_i hm
          split at h
          · cases h
          · rename_i hh
            cases h
            rw [hlen, length_append] at hjn ⊢
            have hn : n ≤ maximumMatchRuleArgNumber := Nat.le_of_not_lt hm
            by_cases hrs : rest = []
            · subst hrs
              refine ⟨n, false, ⟨digits, hdg, hvl, hn, by simp⟩, hh, ?_⟩
              simp [add]
            · have hps : 0 < rest.length := length_pos_iff.2 hrs
              have hp : rest = asciiBytes "path" := by
                have hj : 3 + digits.length + 4 = 3 + (digits.length + rest.length) ∧
                    asciiBytes "path" <:+ asciiBytes "arg" ++ (digits ++ rest) := by
                  by_contra hj
                  refine hjn ⟨by omega, ?_⟩
                  by_contra hor
                  rw [not_or, not_not, not_not] at hor
                  exact hj hor
                have h4 : rest.length = 4 := by omega
                have hsf : rest <:+ asciiBytes "arg" ++ (digits ++ rest) := by
                  rw [← append_assoc]
                  exact suffix_append _ _
                refine (suffix_of_suffix_length_le hj.2 hsf ?_).eq_of_length_le ?_ |>.symm
                · rw [h4]
                  decide
                · rw [h4]
                  decide
              refine ⟨n, true, ⟨digits, hdg, hvl, hn, by rw [hp]; rfl⟩, hh, ?_⟩
              simp [add, hrs]

theorem parseArgMatch_complete (lib : CLib) {n : ℕ} {p : Bool} (hky : (RuleKey.arg n p).Text key)
    (hh : ¬ rule.has (.arg n p)) :
    parseArgMatch lib rule key value = .ok (rule.add (.arg n p) value) := by
  obtain ⟨digits, hdg, hvl, hn, rfl⟩ := hky
  have hp : 0 < digits.length := length_pos_iff.2 hdg.nonempty
  have hnm : ∀ rest, EndsNumber digits rest →
      lib.strtoul (digits ++ rest) = some (n, digits.length) := by
    intro rest hrs
    have hm : n ≤ lib.ulongMax := by
      have := lib.ulongMax_le
      simp only [maximumMatchRuleArgNumber] at hn
      omega
    rw [lib.decimal digits rest hdg hrs, hvl, if_pos hm]
  cases p with
  | false =>
    have hend : lib.strtoul (digits ++ []) = some (n, digits.length) := hnm [] nofun
    have hlen : (asciiBytes "arg" ++ (digits ++ [])).length = 3 + digits.length := by
      rw [length_append, append_nil]
      rfl
    have hdr : (asciiBytes "arg" ++ (digits ++ [])).drop 3 = digits ++ [] := rfl
    have hfr : ¬ rule.args[n]?.join ≠ none := hh
    unfold parseArgMatch
    simp only [Bool.false_eq_true, if_false]
    rw [hdr, hend, hlen, if_neg (by omega)]
    simp only
    rw [if_neg (by simp), if_neg (Nat.not_lt.2 hn), if_neg hfr]
    simp [add]
  | true =>
    have hend : lib.strtoul (digits ++ asciiBytes "path") = some (n, digits.length) := by
      refine hnm _ fun c hc => ?_
      cases hc
      exact ⟨by decide, fun _ => ⟨by decide, by decide⟩⟩
    have hlen : (asciiBytes "arg" ++ (digits ++ asciiBytes "path")).length = 3 + (digits.length + 4) := by
      rw [length_append, length_append]
      rfl
    have hsf : asciiBytes "path" <:+ asciiBytes "arg" ++ (digits ++ asciiBytes "path") := by
      rw [← append_assoc]
      exact suffix_append _ _
    have hdr : (asciiBytes "arg" ++ (digits ++ asciiBytes "path")).drop 3 =
        digits ++ asciiBytes "path" := rfl
    have hfr : ¬ rule.args[n]?.join ≠ none := hh
    unfold parseArgMatch
    simp only [if_true]
    rw [hdr, hend, hlen, if_neg (by omega)]
    simp only
    rw [if_neg (by rintro ⟨-, h | h⟩; exacts [h (by omega), h hsf]), if_neg (Nat.not_lt.2 hn),
      if_neg hfr]
    simp [add]

/-! ## Tokens -/

theorem parseName_iff {present : Option (List UInt8)} {validate : DBusString → ℕ → ℕ → Res Bool}
    {what : String} {V : Prop} [Decidable V]
    (hvl : validate (.ofBytes value) 0 value.length = .ok (decide V)) :
    parseName present validate what rule key value = .ok (.ok rule') ↔
      V ∧ present = none ∧ rule' = rule := by
  unfold parseName
  rw [hvl]
  by_cases hp : present = none
  · by_cases hv : V <;> simp [hp, hv, eq_comm]
  · simp [hp]

theorem parseType_iff : parseType rule key value = .ok rule' ↔
    (messageTypeFromString value).isSome ∧ rule.messageType = none ∧
      rule' = { rule with messageType := messageTypeFromString value } := by
  unfold parseType
  by_cases hm : rule.messageType = none
  · cases ht : messageTypeFromString value <;> simp [hm, eq_comm]
  · simp [hm]

theorem arg_prefix_iff (h : K.Text key) : asciiBytes "arg" <+: key ↔ ∃ n p, K = .arg n p := by
  cases K with
  | arg n p =>
    obtain ⟨digits, -, -, -, rfl⟩ := h
    exact ⟨fun _ => ⟨n, p, rfl⟩, fun _ => prefix_append _ _⟩
  | _ =>
    cases h
    exact ⟨fun har => absurd har (by decide), fun ⟨_, _, he⟩ => by cases he⟩

theorem word_unique {K' : RuleKey} (h : K.Text key) (h' : K'.Text key)
    (hw : ¬ asciiBytes "arg" <+: key) : K' = K := by
  have hK := mt (arg_prefix_iff h).2 hw
  have hK' := mt (arg_prefix_iff h').2 hw
  cases K <;> cases K' <;> first
    | rfl
    | exact absurd ⟨_, _, rfl⟩ hK
    | exact absurd ⟨_, _, rfl⟩ hK'
    | exact absurd (h.symm.trans h') (by decide)

theorem exists_word_iff {P : RuleKey → Prop} (h : K.Text key) (hw : ¬ asciiBytes "arg" <+: key) :
    (∃ K : RuleKey, K.Text key ∧ P K) ↔ P K := by
  constructor
  · rintro ⟨K', hK', hP⟩
    rwa [word_unique h hK' hw] at hP
  · intro hP
    exact ⟨K, h, hP⟩

/-- A token is accepted if its key is one that the rule does not have and its value is one
    that the key may have, and then the rule has it. -/
theorem parseToken_iff (lib : CLib) (hdec : DecimalKey key) :
    parseToken lib rule key value = .ok (.ok rule') ↔
      ∃ K : RuleKey, K.Text key ∧ K.Admits value ∧ ¬ rule.has K ∧ rule' = rule.add K value := by
  have hvl : Holds (ofBytes value).str 0 value := (holds_append.1 (holds_ofBytes value)).1
  have hlen : 0 + value.length ≤ (ofBytes value).len := by simp [ofBytes]
  unfold parseToken
  split
  · rename_i hky
    rw [exists_word_iff (K := .type) hky (by rw [hky]; decide), Except.ok.injEq, parseType_iff]
    simp only [RuleKey.Admits, has, ne_eq, not_not]
    rfl
  split
  · rename_i hky
    rw [exists_word_iff (K := .sender) hky (by rw [hky]; decide),
      parseName_iff (validateBusName_eq hlen hvl)]
    simp only [RuleKey.Admits, has, ne_eq, not_not]
    rfl
  split
  · rename_i hky
    rw [exists_word_iff (K := .interface) hky (by rw [hky]; decide),
      parseName_iff (validateInterface_eq hlen hvl)]
    simp only [RuleKey.Admits, has, ne_eq, not_not]
    rfl
  split
  · rename_i hky
    rw [exists_word_iff (K := .member) hky (by rw [hky]; decide),
      parseName_iff (validateMember_eq hlen hvl)]
    simp only [RuleKey.Admits, has, ne_eq, not_not]
    rfl
  split
  · rename_i hky
    rw [exists_word_iff (K := .path) hky (by rw [hky]; decide),
      parseName_iff (validatePath_eq (by simp [ofBytes]) hvl)]
    simp only [RuleKey.Admits, has, ne_eq, not_not]
    rfl
  split
  · rename_i hky
    rw [exists_word_iff (K := .destination) hky (by rw [hky]; decide),
      parseName_iff (validateBusName_eq hlen hvl)]
    simp only [RuleKey.Admits, has, ne_eq, not_not]
    rfl
  rename_i ht hs hi hm hp hd
  split
  · rename_i har
    rw [Except.ok.injEq]
    constructor
    · intro h
      obtain ⟨n, p, htx, hh, rfl⟩ := parseArgMatch_sound lib har hdec h
      exact ⟨.arg n p, htx, trivial, hh, rfl⟩
    · rintro ⟨K, htx, -, hh, rfl⟩
      obtain ⟨n, p, rfl⟩ := (arg_prefix_iff htx).1 har
      exact parseArgMatch_complete lib htx hh
  · rename_i har
    refine ⟨fun h => by simp at h, ?_⟩
    rintro ⟨K, htx, -⟩
    cases K with
    | type => exact absurd htx ht
    | sender => exact absurd htx hs
    | interface => exact absurd htx hi
    | member => exact absurd htx hm
    | path => exact absurd htx hp
    | destination => exact absurd htx hd
    | arg n p => exact absurd ((arg_prefix_iff htx).2 ⟨n, p, rfl⟩) har

theorem parseToken_returns (lib : CLib) (rule : BusMatchRule) (key value : List UInt8) :
    ∃ r, parseToken lib rule key value = .ok r := by
  have hvl : Holds (ofBytes value).str 0 value := (holds_append.1 (holds_ofBytes value)).1
  have hlen : 0 + value.length ≤ (ofBytes value).len := by simp [ofBytes]
  have hnm : ∀ {present validate what rule} {b : Bool},
      validate (.ofBytes value) 0 value.length = .ok b →
      ∃ r, parseName present validate what rule key value = .ok r := by
    intro present validate what rule b hb
    unfold parseName
    rw [hb]
    by_cases hp : present = none
    · cases b <;> exact ⟨_, by simp [hp]; rfl⟩
    · exact ⟨_, by simp [hp]; rfl⟩
  unfold parseToken
  split_ifs
  exacts [⟨_, rfl⟩, hnm (validateBusName_eq hlen hvl), hnm (validateInterface_eq hlen hvl),
    hnm (validateMember_eq hlen hvl),
    hnm (validatePath_eq (by simp [ofBytes]) hvl),
    hnm (validateBusName_eq hlen hvl), ⟨_, rfl⟩, ⟨_, rfl⟩]

theorem parseTokens_returns (lib : CLib) (rule : BusMatchRule)
    (tokens : List (Option (List UInt8 × List UInt8))) :
    ∃ r, parseTokens lib rule tokens = .ok r := by
  induction tokens generalizing rule with
  | nil => exact ⟨_, rfl⟩
  | cons token tokens ih =>
    cases token with
    | none => exact ⟨_, rfl⟩
    | some token =>
      obtain ⟨r, hr⟩ := parseToken_returns lib rule token.1 token.2
      rw [parseTokens, hr]
      cases r with
      | error e => exact ⟨_, rfl⟩
      | ok rule => exact ih rule

def Written (item : RuleKey × List UInt8) (raw : List UInt8 × List UInt8) : Prop :=
  item.1.Text raw.1 ∧ item.2 = raw.2 ∧ item.1.Admits item.2

section
variable {raws : List (List UInt8 × List UInt8)} {tail : List (Option (List UInt8 × List UInt8))}

section
variable (lib : CLib) (htail : ∀ t ∈ tail.head?, t = none)
include htail

theorem parseTokens_tail : parseTokens lib rule tail = .ok (.ok rule) := by
  rcases tail with _ | ⟨t, tail⟩
  · rfl
  · obtain rfl := htail t rfl
    rfl

section
variable (hdec : ∀ raw ∈ raws, DecimalKey raw.1)
include hdec

theorem parseTokens_sound (hrl : RuleOf c items rule) (hnd : (items.map (·.1.subject)).Nodup)
    (h : parseTokens lib rule (raws.map some ++ tail) = .ok (.ok rule')) :
    ∃ more, List.Forall₂ Written more raws ∧ ((items ++ more).map (·.1.subject)).Nodup ∧
      RuleOf c (items ++ more) rule' := by
  induction raws generalizing items rule with
  | nil =>
    rw [map_nil, nil_append, parseTokens_tail lib htail] at h
    cases h
    exact ⟨[], .nil, by rwa [append_nil], by rwa [append_nil]⟩
  | cons raw raws ih =>
    obtain ⟨key, value⟩ := raw
    rw [map_cons, cons_append, parseTokens, bind_eq_ok] at h
    obtain ⟨r, hr, h⟩ := h
    cases r with
    | error e => cases h
    | ok rule1 =>
      obtain ⟨K, htx, had, hfr, rfl⟩ := (parseToken_iff lib (hdec _ mem_cons_self)).1 hr
      have hsb := hrl.not_has_iff.1 hfr
      obtain ⟨more, hm, hnd', hrl'⟩ := ih (fun r hr => hdec r (mem_cons_of_mem _ hr))
        (hrl.add had hfr)
        (by
          rw [map_append, map_singleton, nodup_append_comm]
          exact nodup_cons.2 ⟨hsb, hnd⟩) h
      rw [append_assoc] at hnd' hrl'
      exact ⟨(K, value) :: more, .cons ⟨htx, rfl, had⟩ hm, hnd', hrl'⟩

theorem parseTokens_complete {more : List (RuleKey × List UInt8)}
    (hm : List.Forall₂ Written more raws) (hrl : RuleOf c items rule)
    (hnd : ((items ++ more).map (·.1.subject)).Nodup) :
    ∃ rule', parseTokens lib rule (raws.map some ++ tail) = .ok (.ok rule') ∧
      RuleOf c (items ++ more) rule' := by
  induction hm generalizing items rule with
  | nil => exact ⟨rule, parseTokens_tail lib htail, by rwa [append_nil]⟩
  | @cons item raw more raws hi _ ih =>
    obtain ⟨K, value⟩ := item
    obtain ⟨key, _⟩ := raw
    obtain ⟨htx, rfl, had⟩ := hi
    have hsb : K.subject ∉ items.map (·.1.subject) := by
      rw [map_append, map_cons, nodup_append] at hnd
      intro hmm
      exact hnd.2.2 _ hmm _ mem_cons_self rfl
    have hfr : ¬ rule.has K := hrl.not_has_iff.2 hsb
    obtain ⟨rule', hp, hrl'⟩ := ih (fun r hr => hdec r (mem_cons_of_mem _ hr))
      (hrl.add had hfr) (by rwa [append_assoc])
    rw [append_assoc] at hrl'
    refine ⟨rule', ?_, hrl'⟩
    rw [map_cons, cons_append, parseTokens,
      (parseToken_iff lib (hdec _ mem_cons_self)).2 ⟨K, htx, had, hfr, rfl⟩]
    exact hp

end

end

end

/-! ## Texts -/

/-- The items that a text consists of: none is about the subject of another. -/
def RuleItems (text : List UInt8) (items : List (RuleKey × List UInt8)) : Prop :=
  ∃ raws, RuleText text raws ∧ List.Forall₂ Written items raws ∧ (items.map (·.1.subject)).Nodup

/-- The texts of which nothing is passed over or read in another way: behind 16 items there are
    only blanks, no item begins with `=`, and the numbers of arguments are decimal. -/
structure Regular (text : List UInt8) : Prop where
  room : ∀ done rest, Scanned text done rest → done.length = maxRuleTokens → Blank rest
  named : ∀ done rest, Scanned text done rest →
    (rest.dropWhile isRuleWhite).head? ≠ some '='.toUInt8
  decimal : ∀ raws, RuleText text raws → ∀ raw ∈ raws, DecimalKey raw.1

theorem Scanned.split {s rest : List UInt8} {front back : List (List UInt8 × List UInt8)}
    (h : Scanned s (front ++ back) rest) : ∃ mid, Scanned s front mid ∧ Scanned mid back rest := by
  induction front generalizing s with
  | nil => exact ⟨s, .nil s, h⟩
  | cons raw front ih =>
    cases h with
    | cons hi h =>
      obtain ⟨mid, hfr, hb⟩ := ih h
      exact ⟨mid, .cons hi hfr, hb⟩

theorem Item.not_blank {written : List UInt8 → List UInt8 → Prop} {k t s : List UInt8}
    (h : Item written k v t) : ¬ Blank (t ++ s) := by
  obtain ⟨w, w', q, -, -, -, -, rfl⟩ := h
  intro hb
  exact absurd (hb '='.toUInt8 (by simp)) (by decide)

theorem Regular.length_le {rest : List UInt8} {done : List (List UInt8 × List UInt8)}
    (h : Regular text) (hdn : Scanned text done rest) : done.length ≤ maxRuleTokens := by
  by_contra hl
  rw [← take_append_drop maxRuleTokens done] at hdn
  obtain ⟨mid, hfr, hb⟩ := hdn.split
  have hbl := h.room _ _ hfr (by rw [length_take]; omega)
  cases hd : done.drop maxRuleTokens with
  | nil =>
    have := drop_eq_nil_iff.1 hd
    omega
  | cons raw back =>
    rw [hd] at hb
    cases hb with
    | cons hi _ => exact hi.not_blank hbl

theorem Regular.tokenizeRule_of_ruleText {raws : List (List UInt8 × List UInt8)}
    (h : Regular text) (hrw : RuleText text raws) : ∃ tail,
      tokenizeRule text = .ok (raws.map some ++ tail) ∧ ∀ t ∈ tail.head?, t = none := by
  obtain ⟨done, rest, hdn, ⟨hb, rfl⟩ | ⟨k, v, hi, rfl⟩⟩ := hrw
  · obtain ⟨n, hn⟩ := Nat.exists_eq_add_of_le (h.length_le hdn)
    obtain ⟨tail, htail, hnn⟩ := tokenizeLoop_blank hb n
    refine ⟨tail, ?_, fun t ht => hnn t (mem_of_mem_head? ht)⟩
    rw [tokenizeRule, hn, tokenizeLoop_scanned hdn, htail]
    rfl
  · have hrm : done.length ≠ maxRuleTokens := by
      intro hlen
      have := h.room _ _ hdn hlen
      rw [← append_nil rest] at this
      exact hi.not_blank this
    obtain ⟨n, hn⟩ := Nat.exists_eq_add_of_lt (lt_of_le_of_ne (h.length_le hdn) hrm)
    refine ⟨[], ?_, nofun⟩
    rw [tokenizeRule, hn, Nat.add_assoc, tokenizeLoop_scanned hdn, tokenizeLoop_last hi]
    simp [Except.map]

theorem Regular.ruleText_of_tokenizeRule (h0 : 0 ∉ text) (h : Regular text)
    {tokens : List (Option (List UInt8 × List UInt8))} (htk : tokenizeRule text = .ok tokens) :
    ∃ raws tail, RuleText text raws ∧ tokens = raws.map some ++ tail ∧
      ∀ t ∈ tail.head?, t = none := by
  obtain ⟨done, rest, tail, hdn, hcs⟩ := scanned_of_tokenizeLoop _ h0 htk
  rcases hcs with ⟨hb, rfl, hnn⟩ | heq | ⟨k, v, hi, rfl⟩ | ⟨hlen, rfl⟩
  · exact ⟨done, tail, ⟨done, rest, hdn, .inl ⟨hb, rfl⟩⟩, rfl, hnn⟩
  · exact absurd heq (h.named _ _ hdn)
  · refine ⟨done ++ [(k, v)], [], ⟨done, rest, hdn, .inr ⟨k, v, hi, rfl⟩⟩, ?_, nofun⟩
    rw [append_nil]
  · refine ⟨done, [], ⟨done, rest, hdn, .inl ⟨h.room _ _ hdn hlen, rfl⟩⟩, ?_, nofun⟩
    rw [append_nil]

/-- A text is accepted if it is a list of items about different subjects, and the rule has
    exactly their constraints; other texts are refused. -/
theorem parse_exact (lib : CLib) (c : ℕ) (text : List UInt8) (h0 : 0 ∉ text)
    (hlen : text.length ≤ maximumMatchRuleLength) (h : Regular text) :
    (∃ r, busMatchRuleParse lib c text = .ok r) ∧
    (∀ rule, busMatchRuleParse lib c text = .ok (.ok rule) →
      ∃ items, RuleItems text items ∧ RuleOf c items rule) ∧
    ∀ items, RuleItems text items →
      ∃ rule, busMatchRuleParse lib c text = .ok (.ok rule) ∧ RuleOf c items rule := by
  unfold busMatchRuleParse
  rw [if_neg (Nat.not_lt.2 hlen)]
  refine ⟨?_, ?_, ?_⟩
  · cases tokenizeRule text with
    | error e => exact ⟨_, rfl⟩
    | ok tokens => exact parseTokens_returns lib _ tokens
  · intro rule hp
    cases htk : tokenizeRule text with
    | error e => simp [htk] at hp
    | ok tokens =>
      rw [htk] at hp
      obtain ⟨raws, tail, hrw, rfl, htail⟩ := h.ruleText_of_tokenizeRule h0 htk
      obtain ⟨items, hi, hnd, hrl⟩ := parseTokens_sound lib htail
        (h.decimal raws hrw) (ruleOf_new c) nodup_nil hp
      exact ⟨items, ⟨raws, hrw, hi, hnd⟩, hrl⟩
  · rintro items ⟨raws, hrw, hi, hnd⟩
    obtain ⟨tail, htk, htail⟩ := h.tokenizeRule_of_ruleText hrw
    rw [htk]
    exact parseTokens_complete lib htail (h.decimal raws hrw) hi (ruleOf_new c) hnd

end

def decimalLib : CLib where
  strtoul text :=
    let digits := text.takeWhile isDigit
    if digits ≠ [] ∧ digitsValue digits ≤ 2 ^ 64 - 1 then some (digitsValue digits, digits.length)
    else none
  ulongMax := 2 ^ 64 - 1
  ulongMax_le := by decide
  decimal digits rest hdigits hrest := by
    have htake : (digits ++ rest).takeWhile isDigit = digits := by
      rw [takeWhile_append_of_pos hdigits.digit, (scan_stops fun c hc => (hrest c hc).1).1,
        append_nil]
    simp only [htake, hdigits.nonempty, ne_eq, not_false_eq_true, true_and]
  noNumber text h := by
    have hstop : ∀ c ∈ text.head?, isDigit c = false := by
      intro c hc
      have hbegins := h c hc
      simp only [beginsNumber, Bool.or_eq_false_iff] at hbegins
      exact hbegins.1.1.1.1
    simp only [(scan_stops hstop).1, ne_eq, not_true_eq_false, false_and, if_false]
  pointer _ := []

theorem regular_one {text k v : List UInt8} (hcm : ','.toUInt8 ∉ text)
    (hi : Item QuotedEnd k v text) (hk : DecimalKey k) : Regular text := by
  have hdn : ∀ {done rest}, Scanned text done rest → done = [] ∧ rest = text := by
    intro done rest h
    cases h with
    | nil => exact ⟨rfl, rfl⟩
    | cons _ _ => exact absurd (by simp) hcm
  have hfn : ∀ {k v}, Item QuotedEnd k v text → ∃ q, findKey text = .ok (k, q) := by
    rintro k v ⟨w, w', q, hw, hk, hw', -, rfl⟩
    exact ⟨q, findKey_of_key hw hk hw' q⟩
  refine ⟨fun done rest h hlen => ?_, fun done rest h => ?_, fun raws h raw hrw => ?_⟩
  · rw [(hdn h).1] at hlen
    cases hlen
  · rw [(hdn h).2]
    obtain ⟨w, w', q, hw, hky, hw', -, rfl⟩ := hi
    rw [hw.dropWhile, hky.dropWhile]
    rcases k with _ | ⟨d, k⟩
    · exact absurd rfl hky.nonempty
    · intro he
      cases he
      exact absurd (hky.byte _ mem_cons_self) (by decide)
  · obtain ⟨done, rest, hsc, ⟨-, rfl⟩ | ⟨k', v', hi', rfl⟩⟩ := h
    · simp [(hdn hsc).1] at hrw
    · rw [(hdn hsc).1, nil_append, mem_singleton] at hrw
      rw [(hdn hsc).2] at hi'
      obtain ⟨q, hq⟩ := hfn hi
      obtain ⟨q', hq'⟩ := hfn hi'
      rw [hq] at hq'
      cases hq'
      rwa [hrw]

theorem parse_arg0path : ∃ rule,
    busMatchRuleParse decimalLib 5 (asciiBytes "arg0path='/a'") = .ok (.ok rule) ∧
      RuleOf 5 [(.arg 0 true, asciiBytes "/a")] rule := by
  have hq : QuotedEnd (asciiBytes "'/a'") (asciiBytes "/a") :=
    .inl (.quoted (s := asciiBytes "/a") (by decide) (by decide) .nil)
  have hi : Item QuotedEnd (asciiBytes "arg0path") (asciiBytes "/a")
      (asciiBytes "arg0path='/a'") :=
    ⟨[], [], asciiBytes "'/a'", nofun, ⟨by decide +kernel, by decide +kernel⟩, nofun, hq, rfl⟩
  have hdec : DecimalKey (asciiBytes "arg0path") := by
    intro r hr
    obtain rfl : r = asciiBytes "0path" := (congrArg (List.drop 3) hr).symm
    rintro ⟨d, rest, hd, ho⟩
    cases hd
    rcases ho with ⟨-, ho⟩ | ⟨-, e, he, ho⟩
    · exact absurd ho (by decide)
    · cases he
      exact absurd ho (by decide)
  refine (parse_exact decimalLib 5 _ (by decide) (by decide)
    (regular_one (by decide) hi hdec)).2.2 _ ?_
  refine ⟨[(asciiBytes "arg0path", asciiBytes "/a")], ⟨[], _, .nil _, .inr ⟨_, _, hi, rfl⟩⟩,
    .cons ⟨?_, rfl, trivial⟩ .nil, by decide⟩
  exact ⟨['0'.toUInt8], ⟨by decide, by decide +kernel, fun _ => rfl⟩, rfl, by decide +kernel, rfl⟩

/-- Values need no quotation marks. -/
theorem parse_unquoted :
    (∃ rule, busMatchRuleParse decimalLib 5 (asciiBytes "type=signal") = .ok (.ok rule)) ∧
      ∀ items : List (List UInt8 × List UInt8), asciiBytes "type=signal" ≠
        [','.toUInt8].intercalate (items.map fun i => i.1 ++ asciiBytes "='" ++ i.2 ++ asciiBytes "'") := by
  refine ⟨⟨{ matchesGoTo := 5, messageType := some .signal }, rfl⟩, fun items h => ?_⟩
  cases items with
  | nil => exact absurd h (by decide)
  | cons item items =>
    have hq : '\''.toUInt8 ∈ asciiBytes "type=signal" := by
      rw [h, map_cons]
      cases items <;> simp [List.intercalate, asciiBytes]
    exact absurd hq (by decide)

end DBus
