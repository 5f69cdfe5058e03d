import Mathlib.Data.Finset.Insert
import LibreFang.Dispatch.Plan
import LibreFang.Lib.Runs
import LibreFang.Lib.Table
import LibreFang.Lib.Text

/-!
# The loop guard

The loop guard sees every tool call of an agent loop, before it is made and after, and stops an
agent that does the same over and over.

* `LoopGuardConfig`, `LoopGuard`, `LoopGuardVerdict`: the guard; its counters are `u32`.
* `isPollCall`: the calls that may be repeated more often.
* **`check`**, `recordOutcome`: what the guard says of a call, and what it learns of its result.
-/

namespace LibreFang.Guard

open Text Dispatch

/-- What the guard uses of its surroundings. -/
structure Host where
  sha256 : List UInt8 → List UInt8
  /-- `serde_json::to_string`. -/
  toJson : Value → String
  /-- `str::to_lowercase`. -/
  toLowercase : String → String

/-- The tools that are polled. -/
def pollTools : List String := ["shell_exec"]

/-- The beginnings of commands that poll. -/
def pollCommandPrefixes : List String :=
  ["docker ps", "docker inspect", "kubectl get", "kubectl describe", "kubectl wait",
    "systemctl status", "systemctl is-active", "service ", "supervisorctl status", "pgrep", "pidof",
    "lsof -i", "ss -tlnp", "netstat ", "curl -s", "wget -q"]

/-- The words of commands that poll. -/
def pollKeywords : List String :=
  ["status", "poll", "wait", "watch", "tail", "ps ", "jobs", "pgrep", "health", "ping", "alive",
    "ready", "check"]

/-- The number of calls that are remembered. -/
def historySize : ℕ := 30

/-- `LoopGuardConfig`. -/
structure LoopGuardConfig where
  warnThreshold : ℕ
  blockThreshold : ℕ
  globalCircuitBreaker : ℕ
  pollMultiplier : ℕ
  outcomeWarnThreshold : ℕ
  outcomeBlockThreshold : ℕ
  pingPongMinRepeats : ℕ
  maxWarningsPerCall : ℕ

/-- The defaults. -/
def LoopGuardConfig.default : LoopGuardConfig where
  warnThreshold := 3
  blockThreshold := 5
  globalCircuitBreaker := 30
  pollMultiplier := 3
  outcomeWarnThreshold := 2
  outcomeBlockThreshold := 3
  pingPongMinRepeats := 3
  maxWarningsPerCall := 3

/-- `LoopGuardVerdict`. -/
inductive LoopGuardVerdict
  | allow
  | warn (message : String)
  | block (message : String)
  | circuitBreak (message : String)
  deriving DecidableEq

/-- The call may be made. -/
def LoopGuardVerdict.Passes : LoopGuardVerdict → Bool
  | allow | warn _ => true
  | block _ | circuitBreak _ => false

/-- The loop is broken off. -/
def LoopGuardVerdict.Breaks : LoopGuardVerdict → Bool
  | circuitBreak _ => true
  | _ => false

/-- A tool call. -/
structure Call where
  toolName : String
  params : Value

/-- `LoopGuard`. -/
structure LoopGuard where
  config : LoopGuardConfig
  callCounts : Table String ℕ
  totalCalls : ℕ
  outcomeCounts : Table String ℕ
  blockedOutcomes : Finset String
  recentCalls : List String
  warningsEmitted : Table String ℕ
  blockedCalls : ℕ
  hashToTool : Table String String

/-- `+= 1` of a `u32`. -/
def nextU32 (n : ℕ) : ℕ := (n + 1) % 2 ^ 32

/-- The count of a key, 0 if it has none. -/
def countOf (counts : Table String ℕ) (key : String) : ℕ := (counts.lookup key).getD 0

/-- `*entry(key).or_insert(0) += 1`. -/
def bump (counts : Table String ℕ) (key : String) : Table String ℕ :=
  counts.insert key (nextU32 (countOf counts key))

variable (host : Host)

/-- `compute_hash`. -/
def computeHash (call : Call) : String :=
  hexEncode (host.sha256 (utf8 (call.toolName ++ "|" ++ host.toJson call.params)))

/-- `compute_outcome_hash`. -/
def computeOutcomeHash (call : Call) (result : String) : String :=
  hexEncode (host.sha256 (utf8 (call.toolName ++ "|" ++ host.toJson call.params ++ "|" ++
    truncateStr result 1000)))

/-- The command is one that polls. -/
def isPollCommand (cmd : String) : Bool :=
  pollCommandPrefixes.any (fun start => start.toList.isPrefixOf (host.toLowercase cmd).toList) ||
    pollKeywords.any fun keyword => containsStr (host.toLowercase cmd) keyword

/-- `is_poll_call`. -/
def isPollCall (call : Call) : Bool :=
  match (call.params.get "poll").bind Value.asBool with
  | some poll => poll
  | none =>
    if call.toolName ∈ pollTools ∧
        (((call.params.get "command").bind Value.asStr).any fun cmd => isPollCommand host cmd) then
      true
    else
      let paramsStr := host.toLowercase (host.toJson call.params)
      containsStr paramsStr "status" || containsStr paramsStr "poll" || containsStr paramsStr "wait"

/-- The factor of the thresholds of a call. -/
def LoopGuardConfig.multiplier (config : LoopGuardConfig) (call : Call) : ℕ :=
  if isPollCall host call then config.pollMultiplier else 1

namespace LoopGuard

/-- `LoopGuard::new`. -/
def new (config : LoopGuardConfig) : LoopGuard := ⟨config, ∅, 0, ∅, ∅, [], ∅, 0, ∅⟩

variable (guard : LoopGuard)

/-! ## Alternating calls -/

/-- The tool of a hash. -/
def toolOf (hash : String) : String := (guard.hashToTool.lookup hash).getD "unknown"

/-- Three repeats of two calls, at the end of the last calls. -/
def alternating : Option String :=
  match guard.recentCalls.drop (guard.recentCalls.length - 6) with
  | [a, b, a', b', a'', b''] =>
    if a ≠ b ∧ a' = a ∧ b' = b ∧ a'' = a ∧ b'' = b then
      some (s!"Ping-pong detected: tools '{guard.toolOf a}' and '{guard.toolOf b}' are " ++
        "alternating repeatedly. Break the cycle by trying a different approach.")
    else none
  | _ => none

/-- Three repeats of three calls, at the end of the last calls. -/
def cycling : Option String :=
  match guard.recentCalls.drop (guard.recentCalls.length - 9) with
  | [a, b, c, a', b', c', a'', b'', c''] =>
    if ¬(a = b ∧ b = c) ∧ a' = a ∧ b' = b ∧ c' = c ∧ a'' = a ∧ b'' = b ∧ c'' = c then
      some (s!"Ping-pong detected: tools '{guard.toolOf a}', '{guard.toolOf b}', " ++
        s!"'{guard.toolOf c}' are cycling repeatedly. " ++
        "Break the cycle by trying a different approach.")
    else none
  | _ => none

/-- `detect_ping_pong`. -/
def detectPingPong : Option String := guard.alternating <|> guard.cycling

/-- How often two calls are repeated, in the calls from the last one back. -/
def repeatsOfTwo (a b : String) : List String → ℕ
  | y :: x :: earlier => if x = a ∧ y = b then repeatsOfTwo a b earlier + 1 else 0
  | _ => 0

/-- How often three calls are repeated, in the calls from the last one back. -/
def repeatsOfThree (a b c : String) : List String → ℕ
  | z :: y :: x :: earlier =>
    if x = a ∧ y = b ∧ z = c then repeatsOfThree a b c earlier + 1 else 0
  | _ => 0

/-- The repeats of the last two calls, if there are at least two. -/
def countAlternating : Option ℕ :=
  match guard.recentCalls.reverse with
  | b :: a :: earlier =>
    if 2 ≤ earlier.length ∧ a ≠ b ∧ 2 ≤ repeatsOfTwo a b (b :: a :: earlier) then
      some (repeatsOfTwo a b (b :: a :: earlier))
    else none
  | _ => none

/-- The repeats of the last three calls, if there are at least two. -/
def countCycling : Option ℕ :=
  match guard.recentCalls.reverse with
  | c :: b :: a :: earlier =>
    if 3 ≤ earlier.length ∧ ¬(a = b ∧ b = c) ∧ 2 ≤ repeatsOfThree a b c (c :: b :: a :: earlier) then
      some (repeatsOfThree a b c (c :: b :: a :: earlier))
    else none
  | _ => none

/-- `count_ping_pong_repeats`. -/
def countPingPongRepeats : ℕ := (guard.countAlternating <|> guard.countCycling).getD 0

/-! ## The checks -/

/-- The call is counted as blocked. -/
def blocked (verdict : LoopGuardVerdict) : LoopGuardVerdict × LoopGuard :=
  (verdict, { guard with blockedCalls := nextU32 guard.blockedCalls })

/-- The call is remembered: its tool, and its place among the last calls. -/
def remember (call : Call) (hash : String) : LoopGuard :=
  { guard with
    hashToTool :=
      if hash ∈ guard.hashToTool then guard.hashToTool
      else guard.hashToTool.insert hash call.toolName
    recentCalls :=
      (if historySize ≤ guard.recentCalls.length then guard.recentCalls.tail
        else guard.recentCalls) ++ [hash] }

/-- The call is counted among all calls. -/
def countTotal : LoopGuard := { guard with totalCalls := nextU32 guard.totalCalls }

/-- The call is counted among those with its hash. -/
def countCall (hash : String) : LoopGuard :=
  { guard with callCounts := bump guard.callCounts hash }

/-- The end of `check`, for a call that has not been repeated often: alternating calls. -/
def checkPingPong (hash : String) : LoopGuardVerdict × LoopGuard :=
  match guard.detectPingPong with
  | none => (.allow, guard)
  | some message =>
    if guard.config.pingPongMinRepeats ≤ guard.countPingPongRepeats then
      guard.blocked (.block message)
    else
      let warned :=
        { guard with warningsEmitted := bump guard.warningsEmitted ("pingpong_" ++ hash) }
      if countOf warned.warningsEmitted ("pingpong_" ++ hash) ≤ guard.config.maxWarningsPerCall then
        (.warn message, warned)
      else (.allow, warned)

/-- The part of `check` for a call that has been repeated often enough for a warning. -/
def checkWarnings (call : Call) (hash : String) (count : ℕ) : LoopGuardVerdict × LoopGuard :=
  let warned := { guard with warningsEmitted := bump guard.warningsEmitted hash }
  if guard.config.maxWarningsPerCall < countOf warned.warningsEmitted hash then
    warned.blocked (.block
      (s!"Blocked: tool '{call.toolName}' called {count} times with identical parameters " ++
        "(warnings exhausted). Try a different approach."))
  else
    (.warn (s!"Warning: tool '{call.toolName}' has been called {count} times with identical " ++
      "parameters. Consider a different approach."), warned)

/-- The part of `check` after the call has been counted. -/
def checkCount (call : Call) (hash : String) : LoopGuardVerdict × LoopGuard :=
  let count := countOf guard.callCounts hash
  let effectiveWarn := guard.config.warnThreshold * guard.config.multiplier host call % 2 ^ 32
  let effectiveBlock := guard.config.blockThreshold * guard.config.multiplier host call % 2 ^ 32
  if effectiveBlock ≤ count then
    guard.blocked (.block
      (s!"Blocked: tool '{call.toolName}' called {count} times with identical parameters. " ++
        "Try a different approach or different parameters."))
  else if effectiveWarn ≤ count then guard.checkWarnings call hash count
  else guard.checkPingPong hash

/-- The part of `check` behind the global circuit breaker. -/
def checkCall (call : Call) : LoopGuardVerdict × LoopGuard :=
  let hash := computeHash host call
  let seen := guard.remember call hash
  if hash ∈ seen.blockedOutcomes then
    seen.blocked (.block
      (s!"Blocked: tool '{call.toolName}' is returning identical results repeatedly. " ++
        "The current approach is not working — try something different."))
  else (seen.countCall hash).checkCount host call hash

/-- `LoopGuard::check`. -/
def check (call : Call) : LoopGuardVerdict × LoopGuard :=
  if guard.config.globalCircuitBreaker < guard.countTotal.totalCalls then
    guard.countTotal.blocked (.circuitBreak
      (s!"Circuit breaker: exceeded {guard.config.globalCircuitBreaker} total tool calls in this " ++
        "loop. The agent appears to be stuck."))
  else guard.countTotal.checkCall host call

/-- The warning about a result that repeats itself. -/
def outcomeWarning (call : Call) : String :=
  s!"Tool '{call.toolName}' is returning identical results — the approach isn't working."

/-- `LoopGuard::record_outcome`. -/
def recordOutcome (call : Call) (result : String) : Option String × LoopGuard :=
  let outcome := computeOutcomeHash host call result
  let counted := { guard with outcomeCounts := bump guard.outcomeCounts outcome }
  let count := countOf counted.outcomeCounts outcome
  if guard.config.outcomeBlockThreshold ≤ count then
    (some (outcomeWarning call),
      { counted with blockedOutcomes := insert (computeHash host call) guard.blockedOutcomes })
  else if guard.config.outcomeWarnThreshold ≤ count then (some (outcomeWarning call), counted)
  else (none, counted)

end LoopGuard

/-- A call of one of the two methods. -/
inductive Act
  | check (call : Call)
  | recordOutcome (call : Call) (result : String)

/-- What has happened: a check with its verdict, or a result that has been recorded. -/
inductive Event
  | checked (call : Call) (verdict : LoopGuardVerdict)
  | recorded (call : Call) (result : String)

/-- A guard with what has happened to it, the last event first. -/
structure Run where
  guard : LoopGuard
  events : List Event

/-- A new guard. -/
def start (config : LoopGuardConfig) : Run := ⟨.new config, []⟩

/-- One call. -/
def step (run : Run) : Act → Run
  | .check call =>
    ⟨(run.guard.check host call).2, .checked call (run.guard.check host call).1 :: run.events⟩
  | .recordOutcome call result =>
    ⟨(run.guard.recordOutcome host call result).2, .recorded call result :: run.events⟩

end LibreFang.Guard
