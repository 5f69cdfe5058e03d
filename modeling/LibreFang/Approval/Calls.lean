import LibreFang.Approval.Manager

/-!
# The calls of the approval manager

Each call is the list of its atomic steps: one operation on the map, on the database, or on a
channel. Calls interleave between them.

* `RequestCall`, `SubmitCall`, `ResolveCall`, `SweepCall`: where a call stands, and its next step.
* `System`: the manager and all calls made so far; `Event`: what can happen, a restart included.
* `step`: one event; `System.init`: a manager over an empty database.
-/

namespace LibreFang.Approval

variable (m : ApprovalManager)

/-! ## `request_approval` -/

/-- A turn of the loop: the request, the fallback read at the start, and how many turns before. -/
structure Round where
  req : ApprovalRequest
  fallback : TimeoutFallback
  round : ℕ
  deriving DecidableEq, Repr

/-- A call of `request_approval`, by its next step. -/
inductive RequestCall
  /-- the limit of pending requests -/
  | limit (t : Round)
  /-- `db_insert_pending` -/
  | persist (t : Round)
  /-- `pending.insert` -/
  | insert (t : Round)
  /-- waiting for the receiver or the timer -/
  | await (t : Round)
  /-- `pending.remove`, nothing having been received -/
  | remove (t : Round)
  /-- `db_delete_pending`, with the request taken from the map or the copy, and which -/
  | deleteRow (id : Uuid) (request : ApprovalRequest) (decision : ApprovalDecision) (found : Bool)
  /-- `push_recent` -/
  | record (id : Uuid) (request : ApprovalRequest) (decision : ApprovalDecision) (found : Bool)
  /-- finished; `entered` tells whether the request has ever been pending -/
  | returned (id : Uuid) (decision : ApprovalDecision) (entered : Bool)
  deriving DecidableEq, Repr

/-- What `pending.remove` finds: the request, or else the copy. -/
def Round.taken (t : Round) : ApprovalRequest :=
  ((m.pending.lookup t.req.id).map PendingRequest.request).getD t.req

/-- The next step of the `k`th call. -/
def RequestCall.next (k : ℕ) (now : Time) : RequestCall → ApprovalManager × RequestCall
  | .limit t =>
    if m.pendingCountForAgent t.req.agentId ≥ maxPendingPerAgent then
      (m, .returned t.req.id .denied (0 < t.round))
    else (m, .persist t)
  | .persist t => (m.dbInsertPending t.req, .insert t)
  | .insert t =>
    (m.insertPending t.req.id
      { request := t.req
        sender := some ⟨k, t.round, t.req.id⟩
        deferred := none
        submittedAt := now }, .await t)
  | .await t => (m, .await t)
  | .remove t =>
    (m.removePending t.req.id,
      match timeoutDecision t.req t.fallback with
      | .escalate => .limit ⟨(t.taken m).escalate, t.fallback, t.round + 1⟩
      | .resolve decision =>
        .deleteRow t.req.id (t.taken m) decision (m.pending.lookup t.req.id).isSome)
  | .deleteRow id request decision found =>
    (m.dbDeletePending id, .record id request decision found)
  | .record id request decision _ =>
    (m.pushRecent request decision none now false, .returned id decision true)
  | .returned id decision entered => (m, .returned id decision entered)

/-- A value has come through the channel. -/
def RequestCall.receive (k : ℕ) (tx : Channel) (decision : ApprovalDecision) :
    RequestCall → RequestCall
  | .await t =>
    if tx = ⟨k, t.round, t.req.id⟩ then .returned t.req.id decision true else .await t
  | call => call

/-- A call of `submit_request`, by its next step. -/
inductive SubmitCall
  /-- the guard against duplicates -/
  | duplicate (req : ApprovalRequest) (deferred : DeferredToolExecution)
  /-- the limit of pending requests -/
  | limit (req : ApprovalRequest) (deferred : DeferredToolExecution)
  /-- `db_insert_pending` -/
  | persist (req : ApprovalRequest) (deferred : DeferredToolExecution)
  /-- `pending.insert` -/
  | insert (req : ApprovalRequest) (deferred : DeferredToolExecution)
  /-- finished -/
  | returned (result : Except String Uuid)

/-- Another pending request has the same tool call. -/
def ApprovalManager.hasDuplicate (deferred : DeferredToolExecution) : Bool :=
  m.pending.entries.any fun e =>
    e.2.deferred.any fun d => d.toolUseId = deferred.toolUseId

/-- The next step. -/
def SubmitCall.next (now : Time) : SubmitCall → ApprovalManager × SubmitCall
  | .duplicate req deferred =>
    if m.hasDuplicate deferred then
      (m, .returned (.error "Duplicate approval request already pending"))
    else (m, .limit req deferred)
  | .limit req deferred =>
    if m.pendingCountForAgent req.agentId ≥ maxPendingPerAgent then
      (m, .returned (.error "Too many pending approval requests for this agent"))
    else (m, .persist req deferred)
  | .persist req deferred => (m.dbInsertPending req, .insert req deferred)
  | .insert req deferred =>
    (m.insertPending req.id
      { request := req
        sender := none
        deferred := some deferred
        submittedAt := now }, .returned (.ok req.id))
  | .returned result => (m, .returned result)

/-! ## `resolve` -/

/-- The arguments of `resolve`, with the policy it holds. -/
structure Resolution where
  policy : ApprovalPolicy
  requestId : Uuid
  decision : ApprovalDecision
  decidedBy : Option String
  totpVerified : Bool
  userId : Option String
  deriving DecidableEq, Repr

/-- A call of `resolve`, by its next step. -/
inductive ResolveCall
  /-- the TOTP gate -/
  | gate (q : Resolution)
  /-- `pending.remove` -/
  | remove (q : Resolution)
  /-- the recent records, nothing being pending -/
  | lookUp (q : Resolution)
  /-- `db_delete_pending` -/
  | deleteRow (q : Resolution) (pending : PendingRequest)
  /-- `record_totp_grace` -/
  | grace (q : Resolution) (pending : PendingRequest)
  /-- `push_recent` -/
  | record (q : Resolution) (pending : PendingRequest)
  /-- `sender.send` -/
  | send (q : Resolution) (pending : PendingRequest) (response : ApprovalResponse)
  /-- finished -/
  | returned (result : Except String (ApprovalResponse × Option DeferredToolExecution))

/-- The gate lets nobody approve without the second factor that the tool asks for. -/
def Resolution.totpMissing (q : Resolution) (now : Time) : Bool :=
  q.decision.isApproved &&
    (m.pending.lookup q.requestId).any fun p =>
      q.policy.toolRequiresTotp p.request.toolName &&
        !m.isWithinTotpGrace (q.userId.getD "unknown") q.policy now && !q.totpVerified

/-- The manager with the grace period of an approval with TOTP. -/
def Resolution.withGrace (q : Resolution) (p : PendingRequest) (now : Time) : ApprovalManager :=
  match q.userId with
  | some uid =>
    if q.decision.isApproved ∧ q.totpVerified ∧ q.policy.toolRequiresTotp p.request.toolName then
      m.recordTotpGrace uid now
    else m
  | none => m

/-- What a call sends: through which channel, and what. -/
abbrev Message := Channel × ApprovalDecision

/-- The next step, and what it sends. -/
def ResolveCall.next (now : Time) :
    ResolveCall → ApprovalManager × ResolveCall × Option Message
  | .gate q =>
    if q.totpMissing m now then
      (m, .returned (.error "TOTP code required for approval (second_factor = totp)"), none)
    else (m, .remove q, none)
  | .remove q =>
    (m.removePending q.requestId,
      match m.pending.lookup q.requestId with
      | some p => .deleteRow q p
      | none => .lookUp q, none)
  | .lookUp q =>
    (m, .returned (.error ((m.handlerInfo q.requestId).getD
      ("Approval request " ++ q.requestId ++ " not found or expired"))), none)
  | .deleteRow q p => (m.dbDeletePending q.requestId, .grace q p, none)
  | .grace q p => (q.withGrace m p now, .record q p, none)
  | .record q p =>
    (m.pushRecent p.request q.decision q.decidedBy now q.totpVerified,
      .send q p ⟨q.requestId, q.decision, now, q.decidedBy⟩, none)
  | .send q p response =>
    (m, .returned (.ok (response, p.deferred)), p.sender.map fun tx => (tx, q.decision))
  | .returned result => (m, .returned result, none)

/-! ## `expire_pending_requests` -/

/-- A sweep under way: its clock and fallback, the ids it has still to look at, its results. -/
structure Sweep where
  now : Time
  fallback : TimeoutFallback
  ids : List Uuid
  escalated : List EscalatedApproval
  expired : List (Uuid × ApprovalDecision × DeferredToolExecution)

/-- A call of `expire_pending_requests`, by its next step. -/
inductive SweepCall
  /-- `pending.remove` of the next id -/
  | remove (w : Sweep)
  /-- `pending.insert` of an escalated request -/
  | insert (w : Sweep) (id : Uuid) (pending : PendingRequest)
  /-- `db_delete_pending` -/
  | deleteRow (w : Sweep) (id : Uuid) (pending : PendingRequest) (decision : ApprovalDecision)
  /-- `push_recent` -/
  | record (w : Sweep) (id : Uuid) (pending : PendingRequest) (decision : ApprovalDecision)
  /-- `sender.send` -/
  | send (w : Sweep) (id : Uuid) (pending : PendingRequest) (decision : ApprovalDecision)
  /-- finished -/
  | returned (escalated : List EscalatedApproval)
      (expired : List (Uuid × ApprovalDecision × DeferredToolExecution))

/-- The entry that a sweep puts back. -/
def PendingRequest.escalate (p : PendingRequest) (now : Time) : PendingRequest :=
  { p with request := p.request.escalate, submittedAt := now }

/-- What a sweep does next with an entry it has taken. -/
def Sweep.decide (w : Sweep) (id : Uuid) (p : PendingRequest) : SweepCall :=
  match timeoutDecision p.request w.fallback with
  | .escalate => .insert w id (p.escalate w.now)
  | .resolve decision => .deleteRow w id p decision

/-- The next step, and what it sends. -/
def SweepCall.next : SweepCall → ApprovalManager × SweepCall × Option Message
  | .remove w =>
    match w.ids with
    | [] => (m, .returned w.escalated w.expired, none)
    | id :: rest =>
      (m.removePending id,
        match m.pending.lookup id with
        | some p => ({ w with ids := rest } : Sweep).decide id p
        | none => .remove { w with ids := rest }, none)
  | .insert w id p =>
    (m.insertPending id p,
      .remove { w with escalated := w.escalated ++ [⟨id, p.request⟩] }, none)
  | .deleteRow w id p decision => (m.dbDeletePending id, .record w id p decision, none)
  | .record w id p decision =>
    (m.pushRecent p.request decision none w.now false, .send w id p decision, none)
  | .send w id p decision =>
    (m, .remove { w with expired := w.expired ++
        (p.deferred.map fun deferred => (id, decision, deferred)).toList },
      p.sender.map fun tx => (tx, decision))
  | .returned escalated expired => (m, .returned escalated expired, none)

/-! ## The system -/

/-- A call. -/
inductive Call
  | request (call : RequestCall)
  | submit (call : SubmitCall)
  | resolve (call : ResolveCall)
  | sweep (call : SweepCall)
  /-- abandoned by its caller, or lost in a crash -/
  | gone

/-- The manager, the calls made so far, and the ids of the requests among them. -/
structure System where
  manager : ApprovalManager
  calls : List Call
  submitted : List Uuid

/-- What a caller asks for. -/
inductive Ask
  | requestApproval (req : ApprovalRequest)
  | submitRequest (req : ApprovalRequest) (deferred : DeferredToolExecution)
  | resolve (requestId : Uuid) (decision : ApprovalDecision) (decidedBy : Option String)
      (totpVerified : Bool) (userId : Option String)
  | expirePendingRequests (now : Time)

/-- `resolve_batch`: a call of `resolve` for each id, without a code and without a user. -/
def resolveBatch (ids : List Uuid) (decision : ApprovalDecision) (decidedBy : Option String) :
    List Ask := ids.map fun id => .resolve id decision decidedBy false none

/-- `resolve_all_for_session`: the batch of what is pending for the session. -/
def resolveAllForSession (sessionId : String) (decision : ApprovalDecision)
    (decidedBy : Option String) : List Ask :=
  resolveBatch ((m.pending.entries.filter fun e => e.2.request.sessionId = some sessionId).map
    (·.1)) decision decidedBy

/-- The request that is submitted; callers give each a new id. -/
def Ask.subject : Ask → Option Uuid
  | .requestApproval req => some req.id
  | .submitRequest req _ => some req.id
  | _ => none

/-- A call at its start, with the policy that it reads. A sweep has collected the ids it will look
at; a timeout beyond the range of a duration is a panic. -/
def Ask.start (policy : ApprovalPolicy) : Ask → Call
  | .requestApproval req => .request (.limit ⟨req, policy.timeoutFallback, 0⟩)
  | .submitRequest req deferred => .submit (.duplicate req deferred)
  | .resolve requestId decision decidedBy totpVerified userId =>
    .resolve (.gate ⟨policy, requestId, decision, decidedBy, totpVerified, userId⟩)
  | .expirePendingRequests now =>
    match m.expiredIds now policy.timeoutFallback with
    | some ids => .sweep (.remove ⟨now, policy.timeoutFallback, ids, [], []⟩)
    | none => .gone

/-- What can happen. -/
inductive Event
  /-- a call begins -/
  | call (ask : Ask)
  /-- a call takes its next step -/
  | act (k : ℕ) (now : Time)
  /-- the timer of a waiting call fires, or its channel is closed -/
  | expire (k : ℕ)
  /-- the future of a waiting call is dropped -/
  | cancel (k : ℕ)
  | updatePolicy (policy : ApprovalPolicy)
  | restart (policy : ApprovalPolicy)

/-- The timer fires. -/
def Call.expire : Call → Call
  | .request (.await t) => .request (.remove t)
  | call => call

/-- The caller goes away; it can do so only while the call waits. -/
def Call.cancel : Call → Call
  | .request (.await _) => .gone
  | call => call

/-- A crash leaves of a call only its result. -/
def Call.crash : Call → Call
  | .request (.returned id decision entered) => .request (.returned id decision entered)
  | .submit (.returned result) => .submit (.returned result)
  | .resolve (.returned result) => .resolve (.returned result)
  | .sweep (.returned escalated expired) => .sweep (.returned escalated expired)
  | _ => .gone

/-- A value reaches the `k`th call. -/
def Call.receive (k : ℕ) (tx : Channel) (decision : ApprovalDecision) : Call → Call
  | .request call => .request (call.receive k tx decision)
  | call => call

/-- The next step of the `k`th call. -/
def Call.next (k : ℕ) (now : Time) : Call → ApprovalManager × Call × Option Message
  | .request call => ((call.next m k now).1, .request (call.next m k now).2, none)
  | .submit call => ((call.next m now).1, .submit (call.next m now).2, none)
  | .resolve call =>
    ((call.next m now).1, .resolve (call.next m now).2.1, (call.next m now).2.2)
  | .sweep call => ((call.next m).1, .sweep (call.next m).2.1, (call.next m).2.2)
  | .gone => (m, .gone, none)

namespace System

variable (s : System)

/-- The system over an empty database. -/
def init (policy : ApprovalPolicy) : System where
  manager := .newWithDb policy .empty
  calls := []
  submitted := []

/-- The `k`th call rewritten. -/
def modifyCall (k : ℕ) (f : Call → Call) : System := { s with calls := s.calls.modify k f }

/-- What is sent reaches the receiver while it waits. -/
def deliver : Option Message → System
  | some (tx, decision) => s.modifyCall tx.call (Call.receive tx.call tx decision)
  | none => s

/-- The `k`th call takes its next step. -/
def act (k : ℕ) (now : Time) : System :=
  match s.calls[k]? with
  | none => s
  | some call =>
    let next := call.next s.manager k now
    (System.mk next.1 (s.calls.set k next.2.1) s.submitted).deliver next.2.2

/-- A call begins; a request comes with an id of its own. -/
def start (ask : Ask) : System :=
  if ∃ id ∈ ask.subject, id ∈ s.submitted then s
  else
    { s with
      calls := s.calls ++ [ask.start s.manager s.manager.policy]
      submitted := ask.subject.toList ++ s.submitted }

end System

/-- One event. -/
def step (s : System) : Event → System
  | .call ask => s.start ask
  | .act k now => s.act k now
  | .expire k => s.modifyCall k Call.expire
  | .cancel k => s.modifyCall k Call.cancel
  | .updatePolicy policy => { s with manager := { s.manager with policy } }
  | .restart policy =>
    { s with
      manager := .newWithDb policy s.manager.auditDb
      calls := s.calls.map Call.crash }

end LibreFang.Approval
