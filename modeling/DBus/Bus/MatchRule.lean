/-
  Match rules: how their texts are parsed and how messages are compared with them
  (`bus/signals.c`).

  The number in a key such as `arg7` is read by `strtoul`, which is a parameter here with
  what its documentation says of decimal numbers (`CLib`).
-/
import DBus.Bus.Send

namespace DBus

open Outcome

/-! ## Numbers in keys -/

def isDigit (c : UInt8) : Bool := '0'.toUInt8 ≤ c && c ≤ '9'.toUInt8

def digitsValue (digits : List UInt8) : ℕ :=
  digits.foldl (fun n c => 10 * n + (c.toNat - '0'.toNat)) 0

/-- A decimal number: digits, of which the first is 0 only if it is the only one. -/
structure IsDecimal (digits : List UInt8) : Prop where
  nonempty : digits ≠ []
  digit : ∀ c ∈ digits, isDigit c = true
  lead : digits.head? = some '0'.toUInt8 → digits = ['0'.toUInt8]

/-- What may stand behind a decimal number without becoming part of a number. -/
def EndsNumber (digits rest : List UInt8) : Prop :=
  ∀ c ∈ rest.head?, isDigit c = false ∧
    (digits = ['0'.toUInt8] → c ≠ 'x'.toUInt8 ∧ c ≠ 'X'.toUInt8)

/-- A byte with which a number of `strtoul` may begin. -/
def beginsNumber (c : UInt8) : Bool :=
  isDigit c || c = '+'.toUInt8 || c = '-'.toUInt8 || c = ' '.toUInt8 || (9 ≤ c && c ≤ 13)

/-- What the library is asked for: `strtoul` with base 0, as the value and the number of bytes used
    (nothing if there is no number or `errno` is set), and a pointer printed as an integer. -/
structure CLib where
  strtoul : List UInt8 → Option (ℕ × ℕ)
  ulongMax : ℕ
  ulongMax_le : 2 ^ 32 - 1 ≤ ulongMax
  decimal : ∀ digits rest, IsDecimal digits → EndsNumber digits rest →
    strtoul (digits ++ rest) =
      if digitsValue digits ≤ ulongMax then some (digitsValue digits, digits.length) else none
  noNumber : ∀ text, (∀ c ∈ text.head?, beginsNumber c = false) → strtoul text = none
  pointer : List UInt8 → List UInt8

/-! ## Tokens -/

/-- `DBUS_ERROR_MATCH_RULE_INVALID` -/
def matchRuleInvalid (message : List UInt8) : DBusError :=
  ⟨.other "org.freedesktop.DBus.Error.MatchRuleInvalid", message⟩

/-- `ISWHITE` -/
def isRuleWhite (c : UInt8) : Bool :=
  c = ' '.toUInt8 || c = '\t'.toUInt8 || c = '\n'.toUInt8 || c = '\r'.toUInt8

def isKeyByte (c : UInt8) : Bool := c ≠ 0 && c ≠ '='.toUInt8 && !isRuleWhite c

/-- `find_key`: the key, empty if there is none, and what stands behind it -/
def findKey (s : List UInt8) : Except DBusError (List UInt8 × List UInt8) :=
  let s := s.dropWhile isRuleWhite
  let key := s.takeWhile isKeyByte
  let rest := (s.dropWhile isKeyByte).dropWhile isRuleWhite
  if key = [] then .ok ([], rest)
  else if rest.head? = some '='.toUInt8 then .ok (key, rest.tail)
  else .error (matchRuleInvalid (asciiBytes
    "Match rule has a key with no subsequent '=' character"))

/-- `quote_char` -/
inductive QuoteChar where
  | none
  | quote
  | backslash
deriving DecidableEq, Repr

/-- The loop of `find_value`: the value and what stands behind it. -/
def findValueLoop : QuoteChar → List UInt8 → List UInt8 → QuoteChar × List UInt8 × List UInt8
  | q, value, [] => (q, value, [])
  | q, value, c :: s =>
    if c = 0 then (q, value, c :: s)
    else match q with
      | .none =>
        if c = '\''.toUInt8 then findValueLoop .quote value s
        else if c = ','.toUInt8 then (.none, value, s)
        else if c = '\\'.toUInt8 then findValueLoop .backslash value s
        else findValueLoop .none (value ++ [c]) s
      | .backslash =>
        -- a backslash only counts if it stands before a quotation mark
        if c ≠ '\''.toUInt8 then findValueLoop .none (value ++ ['\\'.toUInt8, c]) s
        else findValueLoop .none (value ++ [c]) s
      | .quote =>
        if c = '\''.toUInt8 then findValueLoop .none value s
        else findValueLoop .quote (value ++ [c]) s

/-- `find_value` -/
def findValue (s : List UInt8) : Except DBusError (List UInt8 × List UInt8) :=
  match findValueLoop .none [] s with
  | (.backslash, value, rest) => .ok (value ++ ['\\'.toUInt8], rest)
  | (.quote, _, _) => .error (matchRuleInvalid (asciiBytes
      "Unbalanced quotation marks in match rule"))
  | (.none, value, rest) => .ok (value, rest)

/-- `MAX_RULE_TOKENS` -/
def maxRuleTokens : ℕ := 16

/-- The loop of `tokenize_rule`, with the number of slots that are left: the tokens, of which
    one may have no key. -/
def tokenizeLoop : ℕ → List UInt8 → Except DBusError (List (Option (List UInt8 × List UInt8)))
  | 0, _ => .ok []
  | n + 1, s =>
    if s = [] then .ok []
    else do
      let (key, s) ← findKey s
      if key = [] then do
        let tokens ← tokenizeLoop n s
        return none :: tokens
      else do
        let (value, s) ← findValue s
        let tokens ← tokenizeLoop n s
        return some (key, value) :: tokens

/-- `tokenize_rule` -/
def tokenizeRule (text : List UInt8) :
    Except DBusError (List (Option (List UInt8 × List UInt8))) :=
  tokenizeLoop maxRuleTokens text

/-! ## Keys -/

def specifiedTwice (key : List UInt8) : DBusError :=
  matchRuleInvalid (asciiBytes "Key " ++ key ++ asciiBytes " specified twice in match rule\n")

/-- `dbus_message_type_from_string` -/
def messageTypeFromString (text : List UInt8) : Option MessageType :=
  if text = asciiBytes "method_call" then some .methodCall
  else if text = asciiBytes "method_return" then some .methodReturn
  else if text = asciiBytes "signal" then some .signal
  else if text = asciiBytes "error" then some .error
  else none

theorem messageTypeFromString_ne_invalid (text : List UInt8) :
    messageTypeFromString text ≠ some .invalid := by
  unfold messageTypeFromString
  split_ifs <;> simp

/-- The key `type`. -/
def parseType (rule : BusMatchRule) (key value : List UInt8) : Except DBusError BusMatchRule :=
  if rule.messageType ≠ none then .error (specifiedTwice key)
  else match messageTypeFromString value with
    | none => .error (matchRuleInvalid (asciiBytes "Invalid message type (" ++ value ++
        asciiBytes ") in match rule\n"))
    | some t => .ok { rule with messageType := some t }

/-- A key whose value is a name or a path: what is there already, how it is checked, what it
    is called, and the rule with it. -/
def parseName (present : Option (List UInt8)) (validate : DBusString → ℕ → ℕ → Res Bool)
    (what : String) (rule : BusMatchRule) (key value : List UInt8) :
    Res (Except DBusError BusMatchRule) := do
  if present ≠ none then return .error (specifiedTwice key)
  else if ← validate (.ofBytes value) 0 value.length then return .ok rule
  else return .error (matchRuleInvalid (asciiBytes what ++ asciiBytes " '" ++ value ++
    asciiBytes "' is invalid\n"))

/-- `DBUS_MAXIMUM_MATCH_RULE_ARG_NUMBER` -/
def maximumMatchRuleArgNumber : ℕ := 63

/-- `bus_match_rule_set_arg` -/
def setArg (args : List (Option (List UInt8 × Bool))) (arg : ℕ) (value : List UInt8)
    (isPath : Bool) : List (Option (List UInt8 × Bool)) :=
  (args ++ List.replicate (arg + 1 - args.length) none).set arg (some (value, isPath))

section
variable (lib : CLib) (rule : BusMatchRule) (key value : List UInt8)

/-- `bus_match_rule_parse_arg_match` -/
def parseArgMatch : Except DBusError BusMatchRule :=
  let about (text : String) : DBusError :=
    matchRuleInvalid (asciiBytes "Key '" ++ key ++ asciiBytes text)
  if key.length < 4 then
    .error (about ("' in match rule starts with 'arg' but lacks an arg number. " ++
      "Should be 'arg0' or 'arg7' for example.\n"))
  else match lib.strtoul (key.drop 3) with
    | none => .error (about ("' in match rule starts with 'arg' but could not parse arg number. " ++
        "Should be 'arg0' or 'arg7' for example.\n"))
    | some (arg, used) =>
      if 3 + used ≠ key.length ∧
          (3 + used + 4 ≠ key.length ∨ ¬ asciiBytes "path" <:+ key) then
        .error (about ("' in match rule contains junk after argument number. " ++
          "Only 'path' is optionally valid ('arg0path' for example).\n"))
      else if maximumMatchRuleArgNumber < arg then
        .error (matchRuleInvalid (asciiBytes "Key '" ++ key ++
          asciiBytes "' in match rule has arg number " ++ (Nat.toDigits 10 arg).map Char.toUInt8 ++
          asciiBytes " but the maximum is 63.\n"))
      else if (rule.args[arg]?).join ≠ none then
        -- the text has `%d` for the key
        .error (matchRuleInvalid (asciiBytes "Argument " ++ lib.pointer key ++
          asciiBytes " matched more than once in match rule\n"))
      else .ok { rule with args := setArg rule.args arg value (3 + used ≠ key.length) }

/-- One round of the loop of `bus_match_rule_parse`. -/
def parseToken : Res (Except DBusError BusMatchRule) :=
  if key = asciiBytes "type" then .ok (parseType rule key value)
  else if key = asciiBytes "sender" then
    parseName rule.sender validateBusName "Sender name" { rule with sender := some value } key value
  else if key = asciiBytes "interface" then
    parseName rule.interface validateInterface "Interface name"
      { rule with interface := some value } key value
  else if key = asciiBytes "member" then
    parseName rule.member validateMember "Member name" { rule with member := some value } key value
  else if key = asciiBytes "path" then
    parseName rule.path validatePath "Path" { rule with path := some value } key value
  else if key = asciiBytes "destination" then
    parseName rule.destination validateBusName "Destination name"
      { rule with destination := some value } key value
  else if asciiBytes "arg" <+: key then .ok (parseArgMatch lib rule key value)
  else .ok (.error (matchRuleInvalid (asciiBytes "Unknown key \"" ++ key ++
    asciiBytes "\" in match rule")))

end

/-- The loop of `bus_match_rule_parse`, which ends at the first token without key. -/
def parseTokens (lib : CLib) :
    BusMatchRule → List (Option (List UInt8 × List UInt8)) → Res (Except DBusError BusMatchRule)
  | rule, some (key, value) :: tokens => do
    match ← parseToken lib rule key value with
    | .ok rule => parseTokens lib rule tokens
    | .error e => return .error e
  | rule, _ => .ok (.ok rule)

/-- `DBUS_MAXIMUM_MATCH_RULE_LENGTH` -/
def maximumMatchRuleLength : ℕ := 1024

/-- `bus_match_rule_parse` -/
def busMatchRuleParse (lib : CLib) (matchesGoTo : ℕ) (text : List UInt8) :
    Res (Except DBusError BusMatchRule) :=
  if maximumMatchRuleLength < text.length then
    .ok (.error ⟨.limitsExceeded, asciiBytes "Match rule text is " ++
      (Nat.toDigits 10 text.length).map Char.toUInt8 ++ asciiBytes " bytes, maximum is 1024"⟩)
  else match tokenizeRule text with
    | .error e => .ok (.error e)
    | .ok tokens => parseTokens lib { matchesGoTo := matchesGoTo } tokens

/-! ## Comparison -/

/-- `match_rule_matches` -/
def matchRuleMatches (bus : Bus) (rule : BusMatchRule) (sender addressed : Option ℕ)
    (message : BusMessage) : Res Bool := do
  assert (rule.messageType ≠ some .invalid)
  if bus.headerAgrees rule sender addressed message then argsAgree rule.args message.body
  else return false

end DBus
