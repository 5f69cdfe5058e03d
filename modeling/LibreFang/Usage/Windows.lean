import LibreFang.Lib.Calendar

/-!
# Usage rows and spending windows

Rows carry the time of their insertion as a text, and the checks of the quotas select rows by
comparing that text with a text of SQLite's `datetime`. All of these texts are ASCII, so that bytes
are compared as characters are.

* `datetime`: the text that a query compares the text of a row with.
* `checkCost`, **`checkAllWithProviderAndRecord`**: the checks before a row is inserted.
-/

namespace LibreFang.Usage

open Calendar

/-- The nanoseconds of an hour. -/
def hourNanos : Time := 3600000000000

/-! ## Texts -/

/-- The windows that the quotas are for. -/
inductive Window
  | hourly
  | daily
  | monthly
  deriving DecidableEq, Repr

/-- The date and the second of the day of `datetime('now', '-1 hour')`,
`datetime('now', 'start of day')` or `datetime('now', 'start of month')`. SQLite reads the clock in
milliseconds. -/
def boundary (now : Time) : Window → Date × ℕ
  | .hourly =>
    -- counted from the day before the epoch
    let millis := now / 1000000 + 86400000 - 3600000
    (eve.after (millis / 86400000), millis / 1000 % 86400)
  | .daily => (dateOf now, 0)
  | .monthly => ({ dateOf now with day := 1 }, 0)

/-- What `datetime` gives; it knows no dates beyond the year 9999. -/
def datetime (now : Time) (w : Window) : Option (List Char) :=
  let (date, second) := boundary now w
  if date.year < 10000 then some (dateText ['-'] date ++ ' ' :: timeText [':'] second) else none

/-- `timestamp > datetime('now', …)`. -/
def includes (now : Time) (w : Window) (timestamp : List Char) : Bool :=
  match datetime now w with
  | some bound => decide (bound < timestamp)
  | none => false

/-! ## Rows and queries -/

section Store

variable {Cost : Type}

/-- `UsageRecord`, what the checks read of it. -/
structure UsageRecord (Cost : Type) where
  agentId : String
  provider : String
  inputTokens : ℕ
  outputTokens : ℕ
  costUsd : Cost
  deriving DecidableEq, Repr

/-- A row of `usage_events`. -/
structure UsageEvent (Cost : Type) extends UsageRecord Cost where
  timestamp : List Char
  deriving DecidableEq, Repr

/-- What the store uses of its surroundings: sums of SQLite, floating-point numbers and how they are
printed. -/
structure Host (Cost : Type) where
  /-- `COALESCE(SUM(cost_usd), 0.0)`. -/
  sumCost : List Cost → Cost
  /-- `COALESCE(SUM(input_tokens) + SUM(output_tokens), 0)`, or SQLite's error. -/
  sumTokens : List (ℕ × ℕ) → Except String ℤ
  add : Cost → Cost → Cost
  /-- The first cost is at least the second. -/
  ge : Cost → Cost → Bool
  isPositive : Cost → Bool
  /-- `:.4`. -/
  format : Cost → String

/-- `LibreFangError`, the variants of the store. -/
inductive LibreFangError
  | memory (message : String)
  | quotaExceeded (message : String)
  deriving DecidableEq, Repr

/-- Whose rows a query sums. -/
inductive Scope
  | agent (agentId : String)
  | global
  | provider (name : String)
  deriving DecidableEq, Repr

/-- The condition of a query on the owner of a row. -/
def Scope.matchesRow (scope : Scope) (e : UsageEvent Cost) : Bool :=
  match scope with
  | agent agentId => e.agentId == agentId
  | global => true
  | provider name => e.provider == name

/-- `insert_record` at an instant. -/
def insertRecord (rows : List (UsageEvent Cost)) (record : UsageRecord Cost) (t : Time) :
    List (UsageEvent Cost) :=
  rows ++ [⟨record, toRfc3339 t⟩]

/-- The rows that a query sums. -/
def selected (rows : List (UsageEvent Cost)) (scope : Scope) (now : Time) (w : Window) :
    List (UsageEvent Cost) :=
  rows.filter fun e => scope.matchesRow e && includes now w e.timestamp

variable (host : Host Cost)

/-- The cost that a query sums. -/
def queryCost (rows : List (UsageEvent Cost)) (scope : Scope) (now : Time) (w : Window) : Cost :=
  host.sumCost ((selected rows scope now w).map (·.costUsd))

/-- `query_hourly`. -/
def queryHourly (rows : List (UsageEvent Cost)) (agentId : String) (now : Time) : Cost :=
  queryCost host rows (.agent agentId) now .hourly

/-- `query_daily`. -/
def queryDaily (rows : List (UsageEvent Cost)) (agentId : String) (now : Time) : Cost :=
  queryCost host rows (.agent agentId) now .daily

/-- `query_monthly`. -/
def queryMonthly (rows : List (UsageEvent Cost)) (agentId : String) (now : Time) : Cost :=
  queryCost host rows (.agent agentId) now .monthly

/-! ## Checks -/

/-- The words of a window in a message. -/
def Window.name : Window → String
  | hourly => "hourly"
  | daily => "daily"
  | monthly => "monthly"

/-- The beginning of the message of a quota that is exceeded. -/
def Scope.exceeded (scope : Scope) (w : Window) : String :=
  match scope with
  | agent agentId => s!"Agent {agentId} exceeded {w.name} cost quota"
  | global => s!"Global {w.name} budget exceeded"
  | provider name => s!"Provider '{name}' exceeded {w.name} cost budget"

/-- The check of one limit on costs; a limit that is not positive is none. -/
def checkCost (rows : List (UsageEvent Cost)) (record : UsageRecord Cost) (scope : Scope)
    (now : Time) (w : Window) (limit : Cost) : Except LibreFangError Unit :=
  if host.isPositive limit then
    let cost := queryCost host rows scope now w
    if host.ge (host.add cost record.costUsd) limit then
      .error (.quotaExceeded (s!"{scope.exceeded w}: ${host.format cost} + " ++
        s!"${host.format record.costUsd} / ${host.format limit}"))
    else .ok ()
  else .ok ()

/-- The limits of a scope. -/
structure Limits (Cost : Type) where
  maxHourly : Cost
  maxDaily : Cost
  maxMonthly : Cost

/-- The readings of the clock in a call: one for each query, and one for the new row. -/
structure Clock where
  query : Scope → Window → Time
  tokens : Time
  insert : Time

/-- The checks of the limits of a scope. -/
def checkLimits (clock : Clock) (rows : List (UsageEvent Cost)) (record : UsageRecord Cost)
    (scope : Scope) (limits : Limits Cost) : Except LibreFangError Unit := do
  checkCost host rows record scope (clock.query scope .hourly) .hourly limits.maxHourly
  checkCost host rows record scope (clock.query scope .daily) .daily limits.maxDaily
  checkCost host rows record scope (clock.query scope .monthly) .monthly limits.maxMonthly

/-- `u64::saturating_add`. -/
def saturatingAdd (a b : ℕ) : ℕ := min (a + b) (2 ^ 64 - 1)

/-- The check of the tokens of a provider. -/
def checkTokens (now : Time) (rows : List (UsageEvent Cost)) (record : UsageRecord Cost)
    (limit : ℕ) : Except LibreFangError Unit :=
  if limit = 0 then .ok ()
  else
    match host.sumTokens ((selected rows (.provider record.provider) now .hourly).map
      fun e => (e.inputTokens, e.outputTokens)) with
    | .error message => .error (.memory message)
    | .ok tokens =>
      let current := tokens.toNat
      let incoming := saturatingAdd record.inputTokens record.outputTokens
      if limit ≤ saturatingAdd current incoming then
        .error (.quotaExceeded (s!"Provider '{record.provider}' exceeded hourly token budget: " ++
          s!"{current} + {incoming} / {limit}"))
      else .ok ()

/-- `check_quota_and_record`. -/
def checkQuotaAndRecord (clock : Clock) (rows : List (UsageEvent Cost)) (record : UsageRecord Cost)
    (limits : Limits Cost) : Except LibreFangError (List (UsageEvent Cost)) := do
  checkLimits host clock rows record (.agent record.agentId) limits
  pure (insertRecord rows record clock.insert)

/-- `check_global_budget_and_record`. -/
def checkGlobalBudgetAndRecord (clock : Clock) (rows : List (UsageEvent Cost))
    (record : UsageRecord Cost) (limits : Limits Cost) :
    Except LibreFangError (List (UsageEvent Cost)) := do
  checkLimits host clock rows record .global limits
  pure (insertRecord rows record clock.insert)

/-- `check_all_and_record`. -/
def checkAllAndRecord (clock : Clock) (rows : List (UsageEvent Cost)) (record : UsageRecord Cost)
    (agent global : Limits Cost) : Except LibreFangError (List (UsageEvent Cost)) := do
  checkLimits host clock rows record (.agent record.agentId) agent
  checkLimits host clock rows record .global global
  pure (insertRecord rows record clock.insert)

/-- `check_all_with_provider_and_record`. -/
def checkAllWithProviderAndRecord (clock : Clock) (rows : List (UsageEvent Cost))
    (record : UsageRecord Cost) (agent global provider : Limits Cost)
    (providerMaxTokensPerHour : ℕ) : Except LibreFangError (List (UsageEvent Cost)) := do
  checkLimits host clock rows record (.agent record.agentId) agent
  checkLimits host clock rows record .global global
  if record.provider ≠ "" then
    checkLimits host clock rows record (.provider record.provider) provider
    checkTokens host clock.tokens rows record providerMaxTokensPerHour
  pure (insertRecord rows record clock.insert)

end Store

end LibreFang.Usage
