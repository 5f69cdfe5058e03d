import Mathlib.Algebra.Order.Ring.Int
import LibreFang.Lib.Table
import LibreFang.Caps.Glob

/-!
# The approval manager

What the calls of the approval manager share: the map of pending requests, the two tables of the
database, and the operations on them that take one lock.

* `ApprovalRequest`, `ApprovalDecision`, `ApprovalPolicy`: requests, how they end, and the policy.
* `effectiveTimeoutSecs`, `timeoutDecision`: when a request expires, and what then becomes of it.
* `ApprovalManager`: the state; `dbInsertPending`, `dbDeletePending`, `pushRecent`: its updates.
-/

namespace LibreFang.Approval

/-! ## Limits -/

/-- `MAX_PENDING_PER_AGENT`. -/
def maxPendingPerAgent : ℕ := 5

/-- `MAX_RECENT_APPROVALS`. -/
def maxRecentApprovals : ℕ := 100

/-- `MAX_ESCALATIONS`. -/
def maxEscalations : ℕ := 3

/-! ## Requests and decisions -/

/-- The id of a request, in its text form. -/
abbrev Uuid := String

/-- A UTC time, in nanoseconds since the epoch. -/
abbrev Time := ℤ

/-- A second. -/
def second : Time := 1000000000

/-- `RiskLevel`. -/
inductive RiskLevel
  | low
  | medium
  | high
  | critical
  deriving DecidableEq, Repr

/-- The level as it is serialized. -/
def RiskLevel.serialized : RiskLevel → String
  | low => "low"
  | medium => "medium"
  | high => "high"
  | critical => "critical"

/-- `ApprovalDecision`. -/
inductive ApprovalDecision
  | approved
  | denied
  | timedOut
  | modifyAndRetry (feedback : String)
  | skipped
  deriving DecidableEq, Repr

/-- `ApprovalDecision::is_approved`. -/
def ApprovalDecision.isApproved : ApprovalDecision → Bool
  | approved => true
  | _ => false

/-- `ApprovalDecision::as_str`. -/
def ApprovalDecision.asStr : ApprovalDecision → String
  | approved => "approved"
  | denied => "denied"
  | timedOut => "timed_out"
  | modifyAndRetry _ => "modify_and_retry"
  | skipped => "skipped"

/-- What the user asks for with a decision, if anything. -/
def ApprovalDecision.feedback : ApprovalDecision → Option String
  | modifyAndRetry feedback => some feedback
  | _ => none

/-- `ApprovalRequest`, the fields that the manager reads. -/
structure ApprovalRequest where
  id : Uuid
  agentId : String
  toolName : String
  description : String
  actionSummary : String
  riskLevel : RiskLevel
  requestedAt : Time
  timeoutSecs : ℕ
  escalationCount : ℕ
  sessionId : Option String
  deriving DecidableEq, Repr

/-- The request of the next round; the counter is a `u8`. -/
def ApprovalRequest.escalate (req : ApprovalRequest) : ApprovalRequest :=
  { req with escalationCount := (req.escalationCount + 1) % 2 ^ 8 }

/-- `DeferredToolExecution`, by the id of the tool call. -/
structure DeferredToolExecution where
  toolUseId : String
  deriving DecidableEq, Repr

/-- `ApprovalResponse`. -/
structure ApprovalResponse where
  requestId : Uuid
  decision : ApprovalDecision
  decidedAt : Time
  decidedBy : Option String
  deriving DecidableEq, Repr

/-- `TimeoutFallback`. -/
inductive TimeoutFallback
  | deny
  | skip
  | escalate (extraTimeoutSecs : ℕ)
  deriving DecidableEq, Repr

/-- `SecondFactor`. -/
inductive SecondFactor
  | none
  | totp
  | login
  | both
  deriving DecidableEq, Repr

/-- `SecondFactor::requires_approval_totp`. -/
def SecondFactor.requiresApprovalTotp : SecondFactor → Bool
  | totp | both => true
  | none | login => false

/-- `ApprovalPolicy`, the fields that the modelled calls read. -/
structure ApprovalPolicy where
  timeoutFallback : TimeoutFallback
  secondFactor : SecondFactor
  totpTools : List String
  totpGracePeriodSecs : ℕ
  deriving DecidableEq, Repr

/-- `ApprovalPolicy::tool_requires_totp`. -/
def ApprovalPolicy.toolRequiresTotp (policy : ApprovalPolicy) (toolName : String) : Bool :=
  if !policy.secondFactor.requiresApprovalTotp then false
  else if policy.totpTools.isEmpty then true
  else policy.totpTools.any fun pattern => Caps.globMatches pattern.toList toolName.toList

/-- `ExpiryOutcome`. -/
inductive ExpiryOutcome
  | escalate
  | resolve (decision : ApprovalDecision)
  deriving DecidableEq, Repr

/-- `effective_timeout_secs`, in the 64 bits of its result. -/
def effectiveTimeoutSecs (request : ApprovalRequest) : TimeoutFallback → ℕ
  | .escalate extraTimeoutSecs =>
    (request.timeoutSecs + extraTimeoutSecs * request.escalationCount % 2 ^ 64) % 2 ^ 64
  | _ => request.timeoutSecs

/-- `timeout_decision`. -/
def timeoutDecision (request : ApprovalRequest) : TimeoutFallback → ExpiryOutcome
  | .escalate _ =>
    if request.escalationCount < maxEscalations then .escalate else .resolve .timedOut
  | .skip => .resolve .skipped
  | .deny => .resolve .timedOut

/-- `chrono::Duration::seconds` of a `u64` cast to an `i64`; out of its range it panics. -/
def durationSeconds (secs : ℕ) : Option Time :=
  let secs := (secs : ℤ).bmod (2 ^ 64)
  if -(2 ^ 63 / 1000) ≤ secs ∧ secs ≤ (2 ^ 63 - 1) / 1000 then some (secs * second) else none

/-! ## The state -/

/-- A oneshot channel: the call that waits for it, in which round, and for which request. -/
structure Channel where
  call : ℕ
  round : ℕ
  requestId : Uuid
  deriving DecidableEq, Repr

/-- `PendingRequest`. -/
structure PendingRequest where
  request : ApprovalRequest
  sender : Option Channel
  deferred : Option DeferredToolExecution
  submittedAt : Time
  deriving DecidableEq, Repr

/-- `EscalatedApproval`. -/
structure EscalatedApproval where
  requestId : Uuid
  request : ApprovalRequest
  deriving DecidableEq, Repr

/-- `ApprovalRecord`. -/
structure ApprovalRecord where
  request : ApprovalRequest
  decision : ApprovalDecision
  decidedAt : Time
  decidedBy : Option String
  deriving DecidableEq, Repr

/-- `ApprovalAuditEntry`, without its own id. -/
structure ApprovalAuditEntry where
  requestId : Uuid
  agentId : String
  toolName : String
  description : String
  actionSummary : String
  riskLevel : String
  decision : String
  decidedBy : Option String
  decidedAt : Time
  requestedAt : Time
  feedback : Option String
  secondFactorUsed : Bool
  deriving DecidableEq, Repr

/-- A row of `pending_approvals`, under the id of its request; `created_at` is in seconds. -/
structure PendingRow where
  agentId : String
  sessionId : Option String
  toolName : String
  toolInput : String
  createdAt : ℤ
  deriving DecidableEq, Repr

/-- The tables of the manager; the audit log with its newest entry first. -/
structure Database where
  pendingApprovals : Table Uuid PendingRow
  approvalAudit : List ApprovalAuditEntry

/-- A database without rows. -/
def Database.empty : Database := ⟨∅, []⟩

/-- `ApprovalManager`. -/
structure ApprovalManager where
  pending : Table Uuid PendingRequest
  recent : List ApprovalRecord
  policy : ApprovalPolicy
  auditDb : Database
  totpGrace : Table String Time

/-! ## Operations under one lock -/

/-- The row that a request is stored as. -/
def ApprovalRequest.row (req : ApprovalRequest) : PendingRow where
  agentId := req.agentId
  sessionId := req.sessionId
  toolName := req.toolName
  toolInput := req.actionSummary
  createdAt := req.requestedAt / second

/-- The request that a row is restored to. -/
def PendingRow.restore (id : Uuid) (row : PendingRow) : PendingRequest where
  request :=
    { id
      agentId := row.agentId
      toolName := row.toolName
      description := "Restored pending approval (daemon restarted): " ++ row.toolName
      actionSummary := row.toolInput
      riskLevel := .high
      requestedAt := row.createdAt * second
      timeoutSecs := 86400
      escalationCount := 0
      sessionId := row.sessionId }
  sender := none
  deferred := none
  submittedAt := row.createdAt * second

/-- The audit entry that a submission leaves. -/
def ApprovalRequest.submission (req : ApprovalRequest) : ApprovalAuditEntry where
  requestId := req.id
  agentId := req.agentId
  toolName := req.toolName
  description := req.description
  actionSummary := req.actionSummary
  riskLevel := req.riskLevel.serialized
  decision := "pending"
  decidedBy := none
  decidedAt := req.requestedAt
  requestedAt := req.requestedAt
  feedback := none
  secondFactorUsed := false

namespace ApprovalManager

/-- `new_with_db`. -/
def newWithDb (policy : ApprovalPolicy) (db : Database) : ApprovalManager where
  pending := db.pendingApprovals.mapVal PendingRow.restore
  recent := []
  policy := policy
  auditDb := db
  totpGrace := ∅

variable (m : ApprovalManager)

/-- `pending_count_for_agent`. -/
def pendingCountForAgent (agentId : String) : ℕ :=
  m.pending.entries.countP fun e => e.2.request.agentId = agentId

/-- `INSERT OR IGNORE`: a row that is there stays. -/
def insertRow (id : Uuid) (row : PendingRow) : Table Uuid PendingRow :=
  if id ∈ m.auditDb.pendingApprovals then m.auditDb.pendingApprovals
  else m.auditDb.pendingApprovals.insert id row

/-- `db_insert_pending`. -/
def dbInsertPending (req : ApprovalRequest) : ApprovalManager :=
  { m with auditDb := ⟨m.insertRow req.id req.row, req.submission :: m.auditDb.approvalAudit⟩ }

/-- `db_delete_pending`. -/
def dbDeletePending (id : Uuid) : ApprovalManager :=
  { m with auditDb := { m.auditDb with pendingApprovals := m.auditDb.pendingApprovals.erase id } }

/-- `pending.insert`. -/
def insertPending (id : Uuid) (p : PendingRequest) : ApprovalManager :=
  { m with pending := m.pending.insert id p }

/-- What `pending.remove` leaves. -/
def removePending (id : Uuid) : ApprovalManager := { m with pending := m.pending.erase id }

/-- `push_recent`. -/
def pushRecent (request : ApprovalRequest) (decision : ApprovalDecision)
    (decidedBy : Option String) (decidedAt : Time) (secondFactorUsed : Bool) : ApprovalManager :=
  let entry : ApprovalAuditEntry :=
    { requestId := request.id
      agentId := request.agentId
      toolName := request.toolName
      description := request.description
      actionSummary := request.actionSummary
      riskLevel := request.riskLevel.serialized
      decision := decision.asStr
      decidedBy
      decidedAt
      requestedAt := request.requestedAt
      feedback := decision.feedback
      secondFactorUsed }
  { m with
    auditDb := { m.auditDb with approvalAudit := entry :: m.auditDb.approvalAudit }
    recent := (⟨request, decision, decidedAt, decidedBy⟩ :: m.recent).take maxRecentApprovals }

/-- `is_within_totp_grace`. -/
def isWithinTotpGrace (senderId : String) (policy : ApprovalPolicy) (now : Time) : Bool :=
  if policy.totpGracePeriodSecs = 0 then false
  else match m.totpGrace.lookup senderId with
    | some last => decide ((now - last) / second < policy.totpGracePeriodSecs)
    | none => false

/-- `record_totp_grace`, without the counters of failures. -/
def recordTotpGrace (senderId : String) (now : Time) : ApprovalManager :=
  { m with totpGrace := m.totpGrace.insert senderId now }

/-- The handler named to one who comes too late. -/
def handlerInfo (requestId : Uuid) : Option String :=
  (m.recent.find? fun r => r.request.id = requestId).map fun r =>
    "Already " ++ r.decision.asStr ++ " by " ++ r.decidedBy.getD "unknown"

/-- The requests that a sweep finds expired; `none` if a timeout is no duration. -/
def expiredIds (now : Time) (fallback : TimeoutFallback) : Option (List Uuid) :=
  (m.pending.entries.mapM fun e =>
    (durationSeconds (effectiveTimeoutSecs e.2.request fallback)).map fun timeout =>
      if now - e.2.submittedAt > timeout then [e.1] else []).map List.flatten

end ApprovalManager

/-- A decision as the audit log holds it. -/
abbrev Verdict := String × Option String

/-- The columns of the audit log that hold the decision. -/
def ApprovalDecision.verdict (d : ApprovalDecision) : Verdict := (d.asStr, d.feedback)

theorem asStr_ne_pending (d : ApprovalDecision) : d.asStr ≠ "pending" := by
  cases d <;> simp [ApprovalDecision.asStr]

/-- The terminal decisions that the audit log holds for a request. -/
def ApprovalManager.outcomes (m : ApprovalManager) (id : Uuid) : List Verdict :=
  (m.auditDb.approvalAudit.filter fun e => e.requestId = id ∧ e.decision ≠ "pending").map
    fun e => (e.decision, e.feedback)

end LibreFang.Approval
