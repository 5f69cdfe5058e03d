import Mathlib.Data.List.Basic
import LibreFang.Lib.Runs

/-!
# The consolidation lock

Processes take turns by a file: its body names the holder, and its modification time is when the
last consolidation was. Each call is a list of file-system steps; calls of all processes interleave
between them, time passes and processes come and go.

* `File`: the lock file; `Body.pid`: the holder that a body names.
* `Stage`, `Caller`: where a caller of `try_acquire`, `release` and `rollback` stands.
-/

namespace LibreFang.Dream

/-- The id of a process. -/
abbrev Pid := ℕ

/-- The random part of a token, by the number of its draw. -/
abbrev Uuid := ℕ

/-- An instant, in milliseconds since the epoch. -/
abbrev Time := ℕ

/-- `HOLDER_STALE_MS`. -/
def holderStaleMs : Time := 60 * 60 * 1000

/-- The body of the lock file: empty, the token of an acquisition, or anything else. -/
inductive Body
  | empty
  | token (pid : Pid) (uuid : Uuid)
  | other (pid : Option Pid)
  deriving DecidableEq, Repr

/-- `parse_pid_from_body`. -/
def Body.pid : Body → Option Pid
  | empty => none
  | token pid _ => some pid
  | other pid => pid

/-- The lock file. -/
structure File where
  body : Body
  mtime : Time
  deriving DecidableEq, Repr

/-! ## Callers -/

/-- What an acquisition has made sure of: the time it read and its token; `before` is the recorded
time immediately before its write, and `since` the time of the write. -/
structure Claim where
  prior : Time
  uuid : Uuid
  before : Time
  since : Time
  deriving DecidableEq, Repr

/-- Where a caller stands, by its next step. -/
inductive Stage
  /-- `metadata` -/
  | stat
  /-- `read_to_string` -/
  | read (mtime : Time)
  /-- the clock, and `kill(0)` -/
  | probe (mtime : Time) (holder : Option Pid)
  /-- `IN_PROCESS_CLAIMS.insert` -/
  | claim (prior : Option Time)
  /-- `write` of the token -/
  | write (prior : Option Time)
  /-- `read_to_string` again -/
  | verify (c : Claim)
  /-- `try_acquire` has returned the prior time -/
  | held (c : Claim)
  /-- `try_acquire` has returned nothing -/
  | refused
  /-- `try_acquire` has failed -/
  | failed
  /-- `IN_PROCESS_CLAIMS.remove` of `release` -/
  | release (c : Claim)
  /-- `write` of the empty body -/
  | releaseWrite (c : Claim)
  /-- `set_mtime_ms` to now -/
  | touch (c : Claim)
  | released
  /-- `IN_PROCESS_CLAIMS.remove` of `rollback` -/
  | rollback (c : Claim)
  /-- `remove_file` -/
  | unlink (c : Claim)
  /-- `write` of the empty body -/
  | rollbackWrite (c : Claim)
  /-- `set_mtime_ms` to the prior time -/
  | rewind (c : Claim)
  | rolledBack
  /-- lost with its process -/
  | gone
  deriving DecidableEq, Repr

/-- A caller, in its process. -/
structure Caller where
  pid : Pid
  stage : Stage
  deriving DecidableEq, Repr

/-- The file, the processes that run, the ones with a claim on the path, the clock, all callers so
far, and how many tokens have been drawn. -/
structure World where
  file : Option File
  alive : List Pid
  claims : List Pid
  now : Time
  callers : List Caller
  drawn : ℕ
  deriving DecidableEq, Repr

/-- `read_last_consolidated_at`. -/
def World.readLastConsolidatedAt (w : World) : Time := w.file.elim 0 (·.mtime)

/-! ## The steps of the calls -/

namespace World

variable (w : World)

/-- The world and the stage after a step of a caller. -/
abbrev Next := World × Stage

/-- `metadata`. -/
def stat : Next :=
  match w.file with
  | none => (w, .claim none)
  | some f => (w, .read f.mtime)

/-- `read_to_string(..).unwrap_or_default()`, and the holder in it. -/
def read (mtime : Time) : Next := (w, .probe mtime (w.file.bind (·.body.pid)))

/-- The lock is held: a process that runs has written it within the stale window. -/
def Held (mtime : Time) (holder : Option Pid) : Prop :=
  w.now - mtime < holderStaleMs ∧ ∃ pid ∈ holder, pid ∈ w.alive

instance (mtime : Time) (holder : Option Pid) : Decidable (w.Held mtime holder) :=
  inferInstanceAs (Decidable (_ ∧ ∃ pid ∈ holder, pid ∈ w.alive))

/-- The check of the holder. -/
def probe (mtime : Time) (holder : Option Pid) : Next :=
  if w.Held mtime holder then (w, .refused) else (w, .claim (some mtime))

/-- `IN_PROCESS_CLAIMS.insert`. -/
def claim (pid : Pid) (prior : Option Time) : Next :=
  if pid ∈ w.claims then (w, .refused) else ({ w with claims := pid :: w.claims }, .write prior)

/-- `write` of a new token. -/
def write (pid : Pid) (prior : Option Time) : Next :=
  ({ w with file := some ⟨.token pid w.drawn, w.now⟩, drawn := w.drawn + 1 },
    .verify ⟨prior.getD 0, w.drawn, w.readLastConsolidatedAt, w.now⟩)

/-- `IN_PROCESS_CLAIMS.remove`. -/
def unclaim (pid : Pid) : World := { w with claims := w.claims.filter (· ≠ pid) }

/-- The token is read again. -/
def verify (pid : Pid) (c : Claim) : Next :=
  match w.file with
  | none => (w.unclaim pid, .failed)
  | some f => if f.body = .token pid c.uuid then (w, .held c) else (w.unclaim pid, .refused)

/-- `write` of the empty body, which makes the file anew if need be. -/
def clear : World := { w with file := some ⟨.empty, w.now⟩ }

/-- `set_mtime_ms`, which fails on a file that is not there. -/
def setMtimeMs (mtime : Time) : World := { w with file := w.file.map ({ · with mtime }) }

/-- The next step of a caller in a process. -/
def next (pid : Pid) : Stage → Next
  | .stat => w.stat
  | .read mtime => w.read mtime
  | .probe mtime holder => w.probe mtime holder
  | .claim prior => w.claim pid prior
  | .write prior => w.write pid prior
  | .verify c => w.verify pid c
  | .release c => (w.unclaim pid, .releaseWrite c)
  | .releaseWrite c => (w.clear, .touch c)
  | .touch _ => (w.setMtimeMs w.now, if w.file.isSome then .released else .failed)
  | .rollback c => (w.unclaim pid, if c.prior = 0 then .unlink c else .rollbackWrite c)
  | .unlink _ => ({ w with file := none }, .rolledBack)
  | .rollbackWrite c => (w.clear, .rewind c)
  | .rewind c => (w.setMtimeMs c.prior, if w.file.isSome then .rolledBack else .failed)
  | stage => (w, stage)

end World

/-! ## Runs -/

/-- What can happen. -/
inductive Event
  /-- a process calls `try_acquire` -/
  | tryAcquire (pid : Pid)
  /-- a call takes its next step -/
  | act (k : ℕ)
  /-- a holder calls `release` -/
  | release (k : ℕ)
  /-- a holder calls `rollback` -/
  | rollback (k : ℕ)
  /-- time passes -/
  | tick (ms : ℕ)
  /-- a process begins -/
  | spawn (pid : Pid)
  /-- a process ends -/
  | exit (pid : Pid)

/-- A holder begins to give the lock back. -/
def Caller.finish (stage : Claim → Stage) (caller : Caller) : Caller :=
  match caller.stage with
  | .held c => { caller with stage := stage c }
  | _ => caller

/-- A caller is lost with its process. -/
def Caller.lose (pid : Pid) (caller : Caller) : Caller :=
  if caller.pid = pid then { caller with stage := .gone } else caller

/-- One event. -/
def step (w : World) : Event → World
  | .tryAcquire pid =>
    if pid ∈ w.alive then { w with callers := w.callers ++ [⟨pid, .stat⟩] } else w
  | .act k =>
    match w.callers[k]? with
    | none => w
    | some caller =>
      { (w.next caller.pid caller.stage).1 with
        callers := w.callers.set k { caller with stage := (w.next caller.pid caller.stage).2 } }
  | .release k => { w with callers := w.callers.modify k (Caller.finish .release) }
  | .rollback k => { w with callers := w.callers.modify k (Caller.finish .rollback) }
  | .tick ms => { w with now := w.now + ms }
  | .spawn pid => { w with alive := pid :: w.alive }
  | .exit pid =>
    { w with
      alive := w.alive.filter (· ≠ pid)
      claims := w.claims.filter (· ≠ pid)
      callers := w.callers.map (Caller.lose pid) }

end LibreFang.Dream
