import Mathlib.Data.Finset.Insert
import Mathlib.Data.Finset.Lattice.Basic
import LibreFang.Lib.Slices

/-!
# Taint rules on outbound text

What leaves for a tool, a webhook or another agent is looked at for secrets and for personal data.

* `TaintRuleId`, `TaintLabel`, `TaintSink`, `TaintedValue`: the rules, what they label a text with,
  and where a label must not go.
* `Host`: what the rules use of their surroundings.
* **`detectOutboundTextViolationRulesWithSkip`**: the rules that are reported.
-/

namespace LibreFang.Taint

open Text Slices

/-! ## Labels and sinks -/

/-- `TaintRuleId`. -/
inductive TaintRuleId
  | authorizationLiteral
  | keyValueSecret
  | wellKnownPrefix
  | opaqueToken
  | piiEmail
  | piiPhone
  | piiCreditCard
  | piiSsn
  | sensitiveKeyName
  deriving DecidableEq, Repr

/-- `TaintLabel`. -/
inductive TaintLabel
  | externalNetwork
  | userInput
  | pii
  | secret
  | untrustedAgent
  deriving DecidableEq, Repr

/-- `TaintedValue`; the labels in the order of their iteration. -/
structure TaintedValue where
  value : List Char
  labels : List TaintLabel
  source : String

/-- `TaintSink`. -/
structure TaintSink where
  name : String
  blockedLabels : Finset TaintLabel

/-- `TaintSink::mcp_tool_call`. -/
def TaintSink.mcpToolCall : TaintSink := ⟨"mcp_tool_call", {.secret, .pii}⟩

/-- `TaintViolation`. -/
structure TaintViolation where
  label : TaintLabel
  sinkName : String
  source : String
  deriving DecidableEq, Repr

/-- `TaintedValue::check_sink`. -/
def TaintedValue.checkSink (v : TaintedValue) (sink : TaintSink) : Except TaintViolation Unit :=
  match v.labels.find? (· ∈ sink.blockedLabels) with
  | some label => .error ⟨label, sink.name, v.source⟩
  | none => .ok ()

/-! ## Shapes -/

/-- What the rules use of their surroundings: `str::to_lowercase`, and where the regular expressions
match. -/
structure Host where
  toLowercase : List Char → List Char
  dateComponentRegex : List Char → Bool
  emailRegex : List Char → Bool
  phoneRegex : List Char → Bool
  creditCardRegex : List Char → Bool
  ssnRegex : List Char → Bool

/-- `SECRET_KEYS`. -/
def secretKeys : List String :=
  ["api_key", "apikey", "api-key", "authorization", "proxy-authorization", "access_token",
    "refresh_token", "token", "secret", "password", "passwd", "bearer", "x-api-key"]

/-- The ends of a key. -/
def separators : List String := ["=", ":", "\":", "':"]

/-- No blanks stand around a separator. -/
def normalizeSeparators (lower : List Char) : List Char :=
  [(" = ", "="), (" =", "="), ("= ", "="), (" : ", ":"), (" :", ":"), (": ", ":")].foldl
    (fun s rule => replaceChars rule.1.toList rule.2.toList 0 s) lower

/-- `char::is_ascii_alphanumeric`, or one of the signs that tokens are made of. -/
def isTokenChar (c : Char) : Bool := c.isAlphanum || "-_./+=".toList.contains c

/-- The text is a path. -/
def looksLikePath (trimmed : List Char) : Bool :=
  "/".toList.isPrefixOf trimmed ||
    (3 ≤ byteLen trimmed && (bytes trimmed)[1]? == some 58 && (bytes trimmed)[2]? == some 92) ||
    "\\\\".toList.isPrefixOf trimmed ||
    (trimmed.contains '/' &&
      (rfind '.' trimmed).any fun dot => (rfind '/' trimmed).getD 0 < dot)

/-- The text is a long token of mixed characters. -/
def looksOpaque (host : Host) (trimmed : List Char) : Bool :=
  32 ≤ byteLen trimmed &&
    (!trimmed.any isWhitespace && trimmed.all isTokenChar) &&
    (trimmed.any Char.isAlpha && trimmed.any Char.isDigit && !trimmed.all isAsciiHexdigit) &&
    !host.dateComponentRegex trimmed && !looksLikePath trimmed

/-- The beginnings of well-known credentials. -/
def wellKnownPrefixes : List String :=
  ["sk-", "ghp_", "github_pat_", "xoxp-", "xoxb-", "AKIA", "AIza"]

/-- A token, in which the personal data are not looked for. -/
def tokenishMixed (trimmed : List Char) : Bool :=
  !trimmed.isEmpty && !trimmed.contains '@' && !trimmed.any isWhitespace &&
    trimmed.all isTokenChar && trimmed.any Char.isAlpha

/-- A time stamp, in which they are not looked for either. -/
def isNumericTimestamp (trimmed : List Char) : Bool :=
  trimmed.count '.' == 1 && trimmed.all (fun c => c.isDigit || c == '.') &&
    (splitOnceStr ['.'] trimmed).any fun halves => 9 ≤ byteLen halves.1 && !halves.2.isEmpty

/-! ## Detection -/

/-- The rules of a set. -/
abbrev RuleSet := Finset TaintRuleId

variable (host : Host) (payload : List Char) (sink : TaintSink) (skipRules : RuleSet)

/-- `detect_secret_rule_with_skip`. -/
def detectSecretRuleWithSkip : Option TaintRuleId :=
  let lower := host.toLowercase payload
  let trimmed := trim payload
  if .authorizationLiteral ∉ skipRules ∧ "authorization:".toList <:+: lower then
    some .authorizationLiteral
  else if .keyValueSecret ∉ skipRules ∧ secretKeys.any (fun key => separators.any fun sep =>
      decide (key.toList ++ sep.toList <:+: normalizeSeparators lower)) then
    some .keyValueSecret
  else if .opaqueToken ∉ skipRules ∧ looksOpaque host trimmed then some .opaqueToken
  else if .wellKnownPrefix ∉ skipRules ∧
      wellKnownPrefixes.any fun start => start.toList.isPrefixOf trimmed then
    some .wellKnownPrefix
  else none

/-- `detect_pii_rule_with_skip`. -/
def detectPiiRuleWithSkip : Option TaintRuleId :=
  let trimmed := trim payload
  if tokenishMixed trimmed then none
  else if isNumericTimestamp trimmed then none
  else if .piiEmail ∉ skipRules ∧ host.emailRegex payload then some .piiEmail
  else if .piiPhone ∉ skipRules ∧ host.phoneRegex payload then some .piiPhone
  else if .piiCreditCard ∉ skipRules ∧ host.creditCardRegex payload then some .piiCreditCard
  else if .piiSsn ∉ skipRules ∧ host.ssnRegex payload then some .piiSsn
  else none

/-- The payload with a label. -/
def labelled (label : TaintLabel) : TaintedValue := ⟨payload, [label], "llm_tool_call"⟩

/-- The rule, if the sink blocks its label. -/
def hit (label : TaintLabel) (rule : TaintRuleId) : List TaintRuleId :=
  match (labelled payload label).checkSink sink with
  | .error _ => [rule]
  | .ok () => []

/-- `detect_outbound_text_violation_rules_with_skip`. -/
def detectOutboundTextViolationRulesWithSkip : List TaintRuleId :=
  (detectSecretRuleWithSkip host payload skipRules).elim [] (hit payload sink .secret) ++
    if .pii ∈ sink.blockedLabels then
      (detectPiiRuleWithSkip host payload skipRules).elim [] (hit payload sink .pii)
    else []

end LibreFang.Taint
