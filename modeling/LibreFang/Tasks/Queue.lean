import Mathlib.Algebra.Order.Ring.Int
import Mathlib.Algebra.Order.Ring.Nat
import Mathlib.Data.List.Nodup
import LibreFang.Lib.Runs

/-!
# The task queue

Agents post tasks for each other, claim and complete them; a sweep resets tasks whose worker
stalled, and operators retry, reset, cancel and delete them.

* `Task`, `Queue`: the rows of the table `task_queue`; `Task.claim`, `Task.complete` and so on, what
  the statements set in a row.
-/

namespace LibreFang.Tasks

/-! ## Tasks -/

/-- The id of a task, by the number of its post; a UUID is not drawn twice. -/
abbrev TaskId := ℕ

/-- An instant, in seconds. -/
abbrev Time := ℤ

/-- The status of a task. -/
inductive TaskStatus
  | pending
  | inProgress
  | completed
  | failed
  | cancelled
  deriving DecidableEq, Repr

/-- A row of `task_queue`. -/
structure Task where
  id : TaskId
  title : String
  description : String
  status : TaskStatus
  priority : ℤ
  assignedTo : String
  createdBy : String
  createdAt : Time
  claimedAt : Option Time
  completedAt : Option Time
  finishedAt : Option Time
  result : Option String
  retryCount : ℕ
  deriving DecidableEq, Repr

/-- The table, and how many tasks have been posted. -/
structure Queue where
  rows : List Task
  posted : ℕ
  deriving DecidableEq, Repr

/-- What `task_claim` returns. -/
structure ClaimedTask where
  id : TaskId
  title : String
  description : String
  assignedTo : String
  createdBy : String
  createdAt : Time
  claimedAt : Time
  deriving DecidableEq, Repr

/-! ## What the statements set -/

namespace Task

variable (t : Task)

/-- A new row of `task_post`. -/
def post (id : TaskId) (title description : String) (assignedTo createdBy : Option String)
    (now : Time) : Task :=
  { id
    title
    description
    status := .pending
    priority := 0
    assignedTo := assignedTo.getD ""
    createdBy := createdBy.getD ""
    createdAt := now
    claimedAt := none
    completedAt := none
    finishedAt := none
    result := none
    retryCount := 0 }

/-- What `task_claim` sets. -/
def claim (agentId : String) (now : Time) : Task :=
  { t with status := .inProgress, assignedTo := agentId, claimedAt := some now }

/-- What `task_complete` sets. -/
def complete (result : String) (now : Time) : Task :=
  { t with
    status := .completed
    result := some result
    completedAt := some now
    finishedAt := some now
    claimedAt := none }

/-- What `task_retry` sets. -/
def retry : Task :=
  { t with
    status := .pending
    result := none
    completedAt := none
    finishedAt := none
    claimedAt := none }

/-- What `task_reset_stuck` sets, which has read so many retries. -/
def resetStuck (maxRetries retries : ℕ) (now : Time) : Task :=
  if 0 < maxRetries ∧ maxRetries ≤ retries then
    { t with
      status := .failed
      assignedTo := ""
      claimedAt := none
      finishedAt := some now
      retryCount := t.retryCount + 1 }
  else
    { t with
      status := .pending
      assignedTo := ""
      claimedAt := none
      retryCount := t.retryCount + 1 }

/-- What `task_update_status` sets for `pending`. -/
def reopen : Task :=
  { t with status := .pending, claimedAt := none, assignedTo := "", finishedAt := none }

/-- What `task_update_status` sets for `cancelled`. -/
def cancel (now : Time) : Task := { t with status := .cancelled, finishedAt := some now }

/-- The task may be claimed by an agent. -/
def Claimable (agentId agentName : String) : Prop :=
  t.status = .pending ∧
    (t.assignedTo = agentId ∨ t.assignedTo = agentName ∨ t.assignedTo = "")

instance (agentId agentName : String) : Decidable (t.Claimable agentId agentName) :=
  inferInstanceAs (Decidable (_ ∧ _))

/-- `status IN ('completed', 'failed')`. -/
def Retryable : Prop := t.status = .completed ∨ t.status = .failed

instance : Decidable t.Retryable := inferInstanceAs (Decidable (_ ∨ _))

/-- The age at which a task counts as stuck; one that `chrono` cannot hold is no age. -/
def stuckAge (ttlSecs : ℕ) : Time := if ttlSecs ≤ (2 ^ 63 - 1) / 1000 then ttlSecs else 0

/-- The row is one that `task_reset_stuck` reads; a retry count that does not fit drops the row. -/
def Stuck (ttlSecs : ℕ) (now : Time) : Prop :=
  t.status = .inProgress ∧
    t.claimedAt.any (fun claimed => decide (claimed < now - stuckAge ttlSecs)) ∧
    t.retryCount < 2 ^ 32

instance (ttlSecs : ℕ) (now : Time) : Decidable (t.Stuck ttlSecs now) :=
  inferInstanceAs (Decidable (_ ∧ _))

/-- `status IN ('in_progress', 'failed')`. -/
def Reopenable : Prop := t.status = .inProgress ∨ t.status = .failed

instance : Decidable t.Reopenable := inferInstanceAs (Decidable (_ ∨ _))

/-- `status NOT IN ('completed', 'cancelled')`. -/
def Cancellable : Prop := ¬ (t.status = .completed ∨ t.status = .cancelled)

instance : Decidable t.Cancellable := inferInstanceAs (Decidable (¬ _))

/-- The cutoff of `task_prune_finished`, in 64-bit arithmetic. -/
def cutoff (olderThanDays : ℕ) (now : Time) : Time := (now - olderThanDays * 86400).bmod (2 ^ 64)

/-- The row is one that `task_prune_finished` deletes. -/
def Expired (olderThanDays : ℕ) (now : Time) : Prop :=
  (t.status = .completed ∨ t.status = .failed ∨ t.status = .cancelled) ∧
    t.finishedAt.any fun finished => decide (finished < cutoff olderThanDays now)

instance (olderThanDays : ℕ) (now : Time) : Decidable (t.Expired olderThanDays now) :=
  inferInstanceAs (Decidable (_ ∧ _))

end Task

/-! ## The operations -/

namespace Queue

variable (q : Queue)

/-- `UPDATE … SET … WHERE …`: how many rows there are, and the table then. -/
def update (p : Task → Prop) [DecidablePred p] (f : Task → Task) : ℕ × Queue :=
  (q.rows.countP fun t => p t, { q with rows := q.rows.map fun t => if p t then f t else t })

/-- `task_post`. -/
def taskPost (title description : String) (assignedTo createdBy : Option String) (now : Time) :
    TaskId × Queue :=
  (q.posted,
    { rows := q.rows ++ [.post q.posted title description assignedTo createdBy now]
      posted := q.posted + 1 })

/-- The order of `task_claim`: by priority, then by age. -/
def ComesBefore (t u : Task) : Prop :=
  u.priority < t.priority ∨ u.priority = t.priority ∧ t.createdAt < u.createdAt

instance (t u : Task) : Decidable (ComesBefore t u) := inferInstanceAs (Decidable (_ ∨ _))

/-- The first of some rows in the order of `task_claim`. -/
def first : List Task → Option Task
  | [] => none
  | t :: ts =>
    match first ts with
    | none => some t
    | some u => if ComesBefore u t then some u else some t

/-- The task that `task_claim` selects. -/
def selected (agentId : String) (agentName : Option String) : Option Task :=
  first (q.rows.filter fun t => t.Claimable agentId (agentName.getD ""))

/-- `task_claim`. -/
def taskClaim (agentId : String) (agentName : Option String) (now : Time) :
    Option ClaimedTask × Queue :=
  match q.selected agentId agentName with
  | none => (none, q)
  | some t =>
    (some ⟨t.id, t.title, t.description, agentId, t.createdBy, t.createdAt, now⟩,
      (q.update (·.id = t.id) (·.claim agentId now)).2)

/-- `task_complete`. -/
def taskComplete (id : TaskId) (result : String) (now : Time) : Except String Unit × Queue :=
  let (rows, q) := q.update (·.id = id) (·.complete result now)
  (if rows = 0 then .error s!"Task not found: {id}" else .ok (), q)

/-- `task_delete`. -/
def taskDelete (id : TaskId) : Bool × Queue :=
  (q.rows.any (·.id = id), { q with rows := q.rows.filter (·.id ≠ id) })

/-- `task_retry`. -/
def taskRetry (id : TaskId) : Bool × Queue :=
  let (rows, q) := q.update (fun t => t.id = id ∧ t.Retryable) (·.retry)
  (decide (0 < rows), q)

/-- The rows that `task_reset_stuck` reads. -/
def stuck (ttlSecs : ℕ) (now : Time) : List Task := q.rows.filter fun t => t.Stuck ttlSecs now

/-- The loop of `task_reset_stuck`. -/
def resetRows (maxRetries : ℕ) (now : Time) : List Task → Queue → Queue
  | [], q => q
  | s :: rest, q =>
    resetRows maxRetries now rest
      (q.update (fun t => t.id = s.id ∧ t.status = .inProgress)
        (·.resetStuck maxRetries s.retryCount now)).2

/-- `task_reset_stuck`. -/
def taskResetStuck (ttlSecs maxRetries : ℕ) (now : Time) : List TaskId × Queue :=
  ((q.stuck ttlSecs now).map (·.id), resetRows maxRetries now (q.stuck ttlSecs now) q)

/-- `task_update_status`. -/
def taskUpdateStatus (id : TaskId) (newStatus : String) (now : Time) : Except String Bool × Queue :=
  if newStatus = "pending" then
    let (rows, q) := q.update (fun t => t.id = id ∧ t.Reopenable) (·.reopen)
    (.ok (decide (0 < rows)), q)
  else if newStatus = "cancelled" then
    let (rows, q) := q.update (fun t => t.id = id ∧ t.Cancellable) (·.cancel now)
    (.ok (decide (0 < rows)), q)
  else
    (.error s!"Invalid status '{newStatus}': only 'pending' and 'cancelled' are allowed", q)

/-- `task_prune_finished`. -/
def taskPruneFinished (olderThanDays : ℕ) (now : Time) : ℕ × Queue :=
  if olderThanDays = 0 then (0, q)
  else
    (q.rows.countP fun t => t.Expired olderThanDays now,
      { q with rows := q.rows.filter fun t => ¬ t.Expired olderThanDays now })

end Queue

/-- An operation on the queue. -/
inductive Event
  | post (title description : String) (assignedTo createdBy : Option String) (now : Time)
  | claim (agentId : String) (agentName : Option String) (now : Time)
  | complete (id : TaskId) (result : String) (now : Time)
  | resetStuck (ttlSecs maxRetries : ℕ) (now : Time)
  | updateStatus (id : TaskId) (newStatus : String) (now : Time)
  | retry (id : TaskId)
  | delete (id : TaskId)
  | prune (olderThanDays : ℕ) (now : Time)

/-- The queue after an operation. -/
def step (q : Queue) : Event → Queue
  | .post title description assignedTo createdBy now =>
    (q.taskPost title description assignedTo createdBy now).2
  | .claim agentId agentName now => (q.taskClaim agentId agentName now).2
  | .complete id result now => (q.taskComplete id result now).2
  | .resetStuck ttlSecs maxRetries now => (q.taskResetStuck ttlSecs maxRetries now).2
  | .updateStatus id newStatus now => (q.taskUpdateStatus id newStatus now).2
  | .retry id => (q.taskRetry id).2
  | .delete id => (q.taskDelete id).2
  | .prune olderThanDays now => (q.taskPruneFinished olderThanDays now).2

/-- The queue before any task. -/
def Queue.init : Queue := ⟨[], 0⟩

end LibreFang.Tasks
