import Mathlib.Algebra.Order.Ring.Nat
import Mathlib.Data.List.Sort
import LibreFang.Lib.Runs
import LibreFang.Lib.Table

/-!
# The store of A2A tasks

Tasks of other agents are tracked in a bounded map in memory; each write also goes to a database,
in which `get` looks up the tasks that the map has evicted.

* `A2aTask`: a task with its messages and artifacts; `Codec`: the JSON texts of the columns.
* `insert`, `get`, `updateStatus`, `complete`, `fail`, `cancel`: the operations;
  `evictExpired`, `makeRoom`: the two evictions.
-/

namespace LibreFang.A2a

/-! ## Tasks -/

section Tasks

variable (Value : Type)

/-- A part of a message. -/
inductive A2aPart
  | text (text : String)
  | file (name mimeType data : String)
  | data (mimeType : String) (data : Value)
  deriving DecidableEq

/-- A message of a task. -/
structure A2aMessage where
  role : String
  parts : List (A2aPart Value)
  deriving DecidableEq

/-- What a task has produced. -/
structure A2aArtifact where
  name : Option String
  description : Option String
  metadata : Option Value
  index : Option UInt32
  lastChunk : Option Bool
  parts : List (A2aPart Value)
  deriving DecidableEq

/-- The state of a task. -/
inductive A2aTaskStatus
  | submitted
  | working
  | inputRequired
  | completed
  | cancelled
  | failed
  deriving DecidableEq

/-- The text of a state. -/
def A2aTaskStatus.name : A2aTaskStatus → String
  | .submitted => "submitted"
  | .working => "working"
  | .inputRequired => "inputRequired"
  | .completed => "completed"
  | .cancelled => "cancelled"
  | .failed => "failed"

/-- All states. -/
def A2aTaskStatus.all : List A2aTaskStatus :=
  [.submitted, .working, .inputRequired, .completed, .cancelled, .failed]

/-- A status, bare or as an object. -/
inductive A2aTaskStatusWrapper
  | object (state : A2aTaskStatus) (message : Option Value)
  | enum (status : A2aTaskStatus)
  deriving DecidableEq

variable {Value} in
/-- The state of a status. -/
def A2aTaskStatusWrapper.state : A2aTaskStatusWrapper Value → A2aTaskStatus
  | .object state _ => state
  | .enum status => status

/-- A task. -/
structure A2aTask where
  id : String
  sessionId : Option String
  status : A2aTaskStatusWrapper Value
  messages : List (A2aMessage Value)
  artifacts : List (A2aArtifact Value)
  agentId : Option String
  callerA2aAgentId : Option String
  deriving DecidableEq

variable {Value} in
/-- A task without a session, messages and artifacts. -/
def A2aTask.bare (id : String) (status : A2aTaskStatus) : A2aTask Value :=
  ⟨id, none, .enum status, [], [], none, none⟩

/-- A task in memory; instants are nanoseconds of a monotonic clock. -/
structure TrackedTask where
  task : A2aTask Value
  updatedAt : ℕ
  deriving DecidableEq

/-- The JSON texts of the columns, and how they are read. -/
structure Codec where
  status : A2aTaskStatusWrapper Value → String
  messages : List (A2aMessage Value) → String
  artifacts : List (A2aArtifact Value) → String
  statusFromStr : String → Option (A2aTaskStatusWrapper Value)
  statusFromName : String → Option (A2aTaskStatusWrapper Value)
  messagesFromStr : String → Option (List (A2aMessage Value))
  artifactsFromStr : String → Option (List (A2aArtifact Value))

/-- The texts of tasks that have a bare status and neither messages nor artifacts. -/
def Codec.plain : Codec Value where
  status w := "\"" ++ w.state.name ++ "\""
  messages _ := "[]"
  artifacts _ := "[]"
  statusFromStr text := (A2aTaskStatus.all.find? fun s => "\"" ++ s.name ++ "\"" = text).map .enum
  statusFromName text := (A2aTaskStatus.all.find? fun s => s.name = text).map .enum
  messagesFromStr _ := some []
  artifactsFromStr _ := some []

end Tasks

/-- A row of `a2a_tasks_v2`, without its key. -/
structure Row where
  status : String
  sessionId : Option String
  messagesJson : String
  artifactsJson : String
  agentId : Option String
  callerA2aAgentId : Option String
  createdAt : ℤ
  updatedAt : ℤ
  deriving DecidableEq

/-- `A2aTaskStore`. -/
structure A2aTaskStore (Value : Type) where
  tasks : Table String (TrackedTask Value)
  maxTasks : ℕ
  taskTtl : ℕ
  db : Option (Table String Row)

variable {Value : Type} (codec : Codec Value)

/-! ## The database -/

/-- `decode_task_row`. -/
def decodeTaskRow (id : String) (row : Row) : Option (A2aTask Value) :=
  match (codec.statusFromStr row.status).or (codec.statusFromName row.status) with
  | none => none
  | some status =>
    some
      { id
        sessionId := row.sessionId
        status
        messages := (codec.messagesFromStr row.messagesJson).getD []
        artifacts := (codec.artifactsFromStr row.artifactsJson).getD []
        agentId := row.agentId
        callerA2aAgentId := row.callerA2aAgentId }

/-- `db_upsert`, at a time in seconds; a row keeps the time of its creation. -/
def dbUpsert (task : A2aTask Value) (unix : ℤ) (store : A2aTaskStore Value) : A2aTaskStore Value :=
  match store.db with
  | none => store
  | some rows =>
    { store with
      db := some <| AList.insert task.id
        { status := codec.status task.status
          sessionId := task.sessionId
          messagesJson := codec.messages task.messages
          artifactsJson := codec.artifacts task.artifacts
          agentId := task.agentId
          callerA2aAgentId := task.callerA2aAgentId
          createdAt := (rows.lookup task.id).elim unix (·.createdAt)
          updatedAt := unix } rows }

/-- `DB_TASK_RETENTION_SECS`: seven days. -/
def dbTaskRetentionSecs : ℤ := 7 * 24 * 60 * 60

/-- `db_prune_old_tasks`. -/
def dbPruneOldTasks (unix : ℤ) (rows : Table String Row) : Table String Row :=
  rows.retain fun _ row => decide (unix - dbTaskRetentionSecs ≤ row.createdAt)

/-- A row is loaded unless its status is not recognised. -/
def loadRow (now : ℕ) (tasks : Table String (TrackedTask Value)) (e : Table.Entry String Row) :
    Table String (TrackedTask Value) :=
  match decodeTaskRow codec e.1 e.2 with
  | none => tasks
  | some task => AList.insert e.1 ⟨task, now⟩ tasks

/-- `db_load_into_memory`: the rows that have been updated last, up to the limit. -/
def dbLoadIntoMemory (maxTasks : ℕ) (now : ℕ) (rows : Table String Row) :
    Table String (TrackedTask Value) :=
  ((rows.entries.insertionSort fun e e' => e'.2.updatedAt ≤ e.2.updatedAt).take maxTasks).foldl
    (loadRow codec now) ∅

/-- `evict_expired`. -/
def evictExpired (ttl now : ℕ) (tasks : Table String (TrackedTask Value)) :
    Table String (TrackedTask Value) :=
  tasks.retain fun _ tracked => decide (now - tracked.updatedAt < ttl)

/-- The task is completed, failed or cancelled. -/
def A2aTask.Terminal (task : A2aTask Value) : Prop :=
  task.status.state = .completed ∨ task.status.state = .failed ∨ task.status.state = .cancelled

instance : DecidablePred (@A2aTask.Terminal Value) := fun task =>
  inferInstanceAs (Decidable (task.status.state = .completed ∨ task.status.state = .failed ∨
    task.status.state = .cancelled))

/-- The entry that was updated first. -/
def oldest : List (Table.Entry String (TrackedTask Value)) →
    Option (Table.Entry String (TrackedTask Value))
  | [] => none
  | e :: es =>
    match oldest es with
    | none => some e
    | some u => if u.2.updatedAt < e.2.updatedAt then some u else some e

/-- The key to evict: of the oldest terminal task, else of the oldest task. -/
def evictKey (tasks : Table String (TrackedTask Value)) : Option String :=
  match oldest (tasks.entries.filter fun e => e.2.task.Terminal) with
  | some e => some e.1
  | none => (oldest tasks.entries).map (·.1)

/-- The eviction of `insert` at capacity. -/
def makeRoom (maxTasks : ℕ) (tasks : Table String (TrackedTask Value)) :
    Table String (TrackedTask Value) :=
  if maxTasks ≤ tasks.keys.length then
    match evictKey tasks with
    | some key => tasks.erase key
    | none => tasks
  else tasks

/-! ## The operations -/

namespace A2aTaskStore

variable (store : A2aTaskStore Value)

/-- A store without tasks. -/
def new (maxTasks taskTtl : ℕ) (db : Option (Table String Row)) : A2aTaskStore Value :=
  ⟨∅, maxTasks, taskTtl, db⟩

/-- `insert`, which reads the clock for the sweep and again for the new task. -/
def insert (task : A2aTask Value) (unix : ℤ) (swept now : ℕ) : A2aTaskStore Value :=
  let store := dbUpsert codec task unix store
  { store with
    tasks := AList.insert task.id ⟨task, now⟩
      (makeRoom store.maxTasks (evictExpired store.taskTtl swept store.tasks)) }

/-- `get`. -/
def get (id : String) : Option (A2aTask Value) :=
  match store.tasks.lookup id with
  | some tracked => some tracked.task
  | none => (store.db.bind (·.lookup id)).bind (decodeTaskRow codec id)

/-- A change of a task in memory, which is written to the database. -/
def change (id : String) (f : A2aTask Value → A2aTask Value) (unix : ℤ) (now : ℕ) :
    Bool × A2aTaskStore Value :=
  match store.tasks.lookup id with
  | none => (false, store)
  | some tracked =>
    (true, dbUpsert codec (f tracked.task) unix
      { store with tasks := store.tasks.modify id fun _ => ⟨f tracked.task, now⟩ })

/-- `update_status`. -/
def updateStatus (id : String) (status : A2aTaskStatus) (unix : ℤ) (now : ℕ) :
    Bool × A2aTaskStore Value :=
  store.change codec id (fun task => { task with status := .enum status }) unix now

/-- `complete`. -/
def complete (id : String) (response : A2aMessage Value) (artifacts : List (A2aArtifact Value))
    (unix : ℤ) (now : ℕ) : A2aTaskStore Value :=
  (store.change codec id
    (fun task =>
      { task with
        messages := task.messages ++ [response]
        artifacts := task.artifacts ++ artifacts
        status := .enum .completed })
    unix now).2

/-- `fail`. -/
def fail (id : String) (errorMessage : A2aMessage Value) (unix : ℤ) (now : ℕ) :
    A2aTaskStore Value :=
  (store.change codec id
    (fun task =>
      { task with messages := task.messages ++ [errorMessage], status := .enum .failed })
    unix now).2

/-- `cancel`. -/
def cancel (id : String) (unix : ℤ) (now : ℕ) : Bool × A2aTaskStore Value :=
  store.updateStatus codec id .cancelled unix now

/-- A new process: `with_persistence` on the same database, else an empty store. -/
def restart (unix : ℤ) (now : ℕ) : A2aTaskStore Value :=
  match store.db with
  | none => new store.maxTasks store.taskTtl none
  | some rows =>
    let rows := dbPruneOldTasks unix rows
    { store with tasks := dbLoadIntoMemory codec store.maxTasks now rows, db := some rows }

end A2aTaskStore

/-- A call that changes a task. -/
inductive Change (Value : Type)
  | updateStatus (status : A2aTaskStatus)
  | complete (response : A2aMessage Value) (artifacts : List (A2aArtifact Value))
  | fail (errorMessage : A2aMessage Value)
  | cancel

/-- What happens to the store. -/
inductive Event (Value : Type)
  | insert (task : A2aTask Value) (unix : ℤ) (swept now : ℕ)
  | get (id : String)
  | change (id : String) (c : Change Value) (unix : ℤ) (now : ℕ)
  | restart (unix : ℤ) (now : ℕ)

/-- The store after an operation. -/
def step (store : A2aTaskStore Value) : Event Value → A2aTaskStore Value
  | .insert task unix swept now => store.insert codec task unix swept now
  | .get _ => store
  | .change id (.updateStatus status) unix now => (store.updateStatus codec id status unix now).2
  | .change id (.complete response artifacts) unix now =>
    store.complete codec id response artifacts unix now
  | .change id (.fail errorMessage) unix now => store.fail codec id errorMessage unix now
  | .change id .cancel unix now => (store.cancel codec id unix now).2
  | .restart unix now => store.restart codec unix now

end LibreFang.A2a
