import Mathlib.Algebra.GroupWithZero.Nat
import Mathlib.Algebra.Order.Ring.Nat

/-!
# Token quotas of an agent

The usage tracker of one agent and the scheduler operations on it. Time is in nanoseconds; an
operation holds the tracker for its whole run and reads the clock once.

* `UsageTracker.resetIfExpired`: the hourly window.
* `checkQuotaAndReserve`, `settleReservation`, `releaseReservation`: calls charged in advance.
* `recordUsage`, `resetUsage`, `checkQuota`, `recordToolCalls`: the other operations.
-/

namespace LibreFang.Quota

/-- `u64::MAX`. -/
def maxU64 : ℕ := 2 ^ 64 - 1

/-- `+` of `u64`, which wraps around. -/
def wrappingAdd (a b : ℕ) : ℕ := (a + b) % 2 ^ 64

/-- `u64::saturating_add`; `u64::saturating_sub` is the subtraction of `ℕ`. -/
def saturatingAdd (a b : ℕ) : ℕ := min (a + b) maxU64

/-- The tokens of one LLM call. -/
structure TokenUsage where
  inputTokens : ℕ
  outputTokens : ℕ
  deriving DecidableEq, Repr

/-- `TokenUsage::total`. -/
def TokenUsage.total (usage : TokenUsage) : ℕ := wrappingAdd usage.inputTokens usage.outputTokens

/-- The limits of an agent that the scheduler reads. -/
structure ResourceQuota where
  maxLlmTokensPerHour : Option ℕ
  maxToolCallsPerMinute : ℕ
  deriving DecidableEq, Repr

/-- `ResourceQuota::effective_token_limit`: `0` means unlimited. -/
def ResourceQuota.effectiveTokenLimit (quota : ResourceQuota) : ℕ :=
  quota.maxLlmTokensPerHour.getD 0

/-- Resource usage of an agent within an hourly window. -/
structure UsageTracker where
  totalTokens : ℕ
  inputTokens : ℕ
  outputTokens : ℕ
  toolCalls : ℕ
  llmCalls : ℕ
  windowStart : ℕ
  toolCallTimestamps : List ℕ
  tokenTimestamps : List (ℕ × ℕ)
  deriving DecidableEq, Repr

/-- `ONE_MINUTE`. -/
def oneMinute : ℕ := 60 * 1000000000

/-- `ONE_HOUR`. -/
def oneHour : ℕ := 3600 * 1000000000

/-- `UsageTracker::default` at a time, and what every reset leaves. -/
def UsageTracker.fresh (now : ℕ) : UsageTracker := ⟨0, 0, 0, 0, 0, now, [], []⟩

/-- The hourly window has run out. -/
def UsageTracker.expired (tracker : UsageTracker) (now : ℕ) : Bool :=
  decide (oneHour ≤ now - tracker.windowStart)

/-- `UsageTracker::reset_if_expired`. -/
def UsageTracker.resetIfExpired (tracker : UsageTracker) (now : ℕ) : UsageTracker :=
  if tracker.expired now then .fresh now else tracker

/-- `UsageTracker::tool_calls_in_last_minute`, which evicts older entries. -/
def UsageTracker.toolCallsInLastMinute (tracker : UsageTracker) (now : ℕ) : ℕ × UsageTracker :=
  let recent := tracker.toolCallTimestamps.dropWhile (· < now - oneMinute)
  (recent.length % 2 ^ 32, { tracker with toolCallTimestamps := recent })

/-- `UsageTracker::tokens_in_last_minute`, which evicts older entries. -/
def UsageTracker.tokensInLastMinute (tracker : UsageTracker) (now : ℕ) : ℕ × UsageTracker :=
  let recent := tracker.tokenTimestamps.dropWhile fun entry => entry.1 < now - oneMinute
  ((recent.map Prod.snd).foldl wrappingAdd 0, { tracker with tokenTimestamps := recent })

/-- The entries of one agent in the maps of the scheduler. -/
structure Agent where
  quota : Option ResourceQuota
  usage : Option UsageTracker
  deriving DecidableEq, Repr

/-- `AgentScheduler::register`. -/
def Agent.register (quota : ResourceQuota) (now : ℕ) : Agent := ⟨some quota, some (.fresh now)⟩

/-- The counters an LLM call adds to, apart from the total. -/
def UsageTracker.countCall (tracker : UsageTracker) (usage : TokenUsage) (now : ℕ) : UsageTracker :=
  { tracker with
    inputTokens := wrappingAdd tracker.inputTokens usage.inputTokens
    outputTokens := wrappingAdd tracker.outputTokens usage.outputTokens
    llmCalls := wrappingAdd tracker.llmCalls 1
    tokenTimestamps := tracker.tokenTimestamps ++ [(now, usage.total)] }

/-- `AgentScheduler::record_usage`. -/
def recordUsage (agent : Agent) (now : ℕ) (usage : TokenUsage) : Agent :=
  { agent with usage := agent.usage.map fun tracker =>
      let tracker := tracker.resetIfExpired now
      let tracker := { tracker with totalTokens := wrappingAdd tracker.totalTokens usage.total }
      tracker.countCall usage now }

/-- `AgentScheduler::record_tool_calls`. -/
def recordToolCalls (agent : Agent) (now count : ℕ) : Agent :=
  if count = 0 then agent
  else
    { agent with usage := agent.usage.map fun tracker =>
        let tracker := tracker.resetIfExpired now
        { tracker with
          toolCallTimestamps := tracker.toolCallTimestamps ++ List.replicate count now
          toolCalls := wrappingAdd tracker.toolCalls count } }

/-- `AgentScheduler::check_quota`; an error is the text of `QuotaExceeded`. -/
def checkQuota (agent : Agent) (now : ℕ) : Except String Unit × Agent :=
  match agent.quota, agent.usage with
  | some quota, some tracker =>
    let tracker := tracker.resetIfExpired now
    let tokenLimit := quota.effectiveTokenLimit
    if 0 < tokenLimit ∧ tokenLimit < tracker.totalTokens then
      (.error s!"Token limit exceeded: {tracker.totalTokens} / {tokenLimit}",
        { agent with usage := some tracker })
    else
      let burstCap := tokenLimit / 5
      let (tokensLastMin, evicted) := tracker.tokensInLastMinute now
      let tracker := if 0 < tokenLimit then evicted else tracker
      if 0 < tokenLimit ∧ 0 < burstCap ∧ burstCap < tokensLastMin then
        (.error (s!"Token burst limit exceeded: {tokensLastMin} tokens in last minute " ++
            s!"(max {burstCap}/min)"),
          { agent with usage := some tracker })
      else if 0 < quota.maxToolCallsPerMinute then
        let (recent, tracker) := tracker.toolCallsInLastMinute now
        if quota.maxToolCallsPerMinute ≤ recent then
          (.error (s!"Tool call rate limit exceeded: {recent} / " ++
              s!"{quota.maxToolCallsPerMinute} per minute"),
            { agent with usage := some tracker })
        else (.ok (), { agent with usage := some tracker })
      else (.ok (), { agent with usage := some tracker })
  | _, _ => (.ok (), agent)

/-- `AgentScheduler::check_quota_and_reserve`: the tokens reserved, `0` when nothing is limited. -/
def checkQuotaAndReserve (agent : Agent) (now estimatedTokens : ℕ) : Except String ℕ × Agent :=
  match agent.quota, agent.usage with
  | some quota, some tracker =>
    let tracker := tracker.resetIfExpired now
    let tokenLimit := quota.effectiveTokenLimit
    if tokenLimit = 0 then (.ok 0, { agent with usage := some tracker })
    else
      let projected := saturatingAdd tracker.totalTokens estimatedTokens
      if tokenLimit < projected then
        (.error (s!"Token limit would be exceeded: {tracker.totalTokens} + {estimatedTokens} " ++
            s!"reserved > {tokenLimit}"),
          { agent with usage := some tracker })
      else
        let burstCap := tokenLimit / 5
        let (tokensLastMin, tracker) := tracker.tokensInLastMinute now
        if 0 < burstCap ∧ burstCap < saturatingAdd tokensLastMin estimatedTokens then
          (.error (s!"Token burst limit would be exceeded: {tokensLastMin} + {estimatedTokens} " ++
              s!"reserved in last minute (max {burstCap}/min)"),
            { agent with usage := some tracker })
        else (.ok estimatedTokens, { agent with usage := some { tracker with totalTokens := projected } })
  | _, _ => (.ok 0, agent)

/-- `AgentScheduler::settle_reservation`. -/
def settleReservation (agent : Agent) (now estimatedTokens : ℕ) (usage : TokenUsage) : Agent :=
  { agent with usage := agent.usage.map fun tracker =>
      let tracker := tracker.resetIfExpired now
      let total :=
        if 0 < estimatedTokens then
          saturatingAdd (tracker.totalTokens - estimatedTokens) usage.total
        else wrappingAdd tracker.totalTokens usage.total
      { tracker with totalTokens := total }.countCall usage now }

/-- `AgentScheduler::release_reservation`. -/
def releaseReservation (agent : Agent) (now estimatedTokens : ℕ) : Agent :=
  if estimatedTokens = 0 then agent
  else
    { agent with usage := agent.usage.map fun tracker =>
        let tracker := tracker.resetIfExpired now
        { tracker with totalTokens := tracker.totalTokens - estimatedTokens } }

/-- `AgentScheduler::reset_usage`. -/
def resetUsage (agent : Agent) (now : ℕ) : Agent :=
  { agent with usage := agent.usage.map fun _ => .fresh now }

end LibreFang.Quota
