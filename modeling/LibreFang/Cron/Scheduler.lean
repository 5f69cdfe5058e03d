import LibreFang.Lib.Table
import LibreFang.Cron.Job

/-!
# The cron scheduler

The stored jobs and the operations on them. Every operation takes the readings of the clock that it
makes. A time out of the range of `DateTime` panics: the operation stops, and keeps what it has
written until then.

* `computeNextRunAfter`: when a schedule fires next.
* `addJob`, `removeJob`, `setEnabled`, `updateJob`, `setDeliveryTargets`: what users and agents do.
* `Op`, `apply`: any of them; **`apply_cases`**: what it can do to one entry.
-/

namespace LibreFang.Cron

open Text

/-- `MAX_CONSECUTIVE_ERRORS`. -/
def maxConsecutiveErrors : ℕ := 5

/-- `JobMeta`. -/
structure JobMeta where
  job : CronJob
  oneShot : Bool
  lastStatus : Option String
  consecutiveErrors : ℕ
  autoDisabled : Bool
  deriving DecidableEq, Repr

/-- `JobMeta::new`. -/
def JobMeta.new (job : CronJob) (oneShot : Bool) : JobMeta := ⟨job, oneShot, none, 0, false⟩

/-- `CronScheduler`; the entries of the table stand in the order of an iteration. -/
structure CronScheduler where
  jobs : Table String JobMeta
  homeDir : String
  maxTotalJobs : ℕ

/-- `CronScheduler::new`. -/
def CronScheduler.new (homeDir : String) (maxTotalJobs : ℕ) : CronScheduler :=
  ⟨∅, homeDir, maxTotalJobs⟩

/-- How an operation fails. -/
inductive Failure
  | internal (message : String)
  | invalidInput (message : String)
  | panicked
  deriving DecidableEq, Repr

/-- The error for a job that is not stored. -/
def notFound (id : String) : Failure := .internal s!"Cron job {id} not found"

variable (host : Host)

/-! ## The next run -/

/-- `DateTime::<Utc>::MIN_UTC`. -/
def minUtc : Time := -8334601228800 * second

/-- `DateTime::<Utc>::MAX_UTC`. -/
def maxUtc : Time := 8210266876799 * second + 999999999

/-- The largest number of seconds of a `Duration`. -/
def maxDurationSecs : ℕ := 9223372036854775

/-- A time and a `Duration::seconds`; out of range, `none`: either panics. -/
def addSeconds (time : Time) (secs : ℤ) : Option Time :=
  if secs.natAbs ≤ maxDurationSecs ∧ minUtc ≤ time + secs * second ∧ time + secs * second ≤ maxUtc
  then some (time + secs * second)
  else none

theorem addSeconds_eq {time next : Time} {secs : ℤ} (h : addSeconds time secs = some next) :
    next = time + secs * second := by
  unfold addSeconds at h
  split at h
  · exact (Option.some.inj h).symm
  · cases h

/-- `as i64` of a `u64`. -/
def asI64 (n : ℕ) : ℤ := (n : ℤ).bmod (2 ^ 64)

/-- The seven fields the expression is read as. -/
def sevenField (expr : String) : String :=
  let trimmed := trim expr.toList
  match (splitWhitespace trimmed).length with
  | 5 => s!"0 {String.ofList trimmed} *"
  | 6 => s!"{String.ofList trimmed} *"
  | _ => expr

/-- The time zone an expression is read in; `none` is UTC. -/
def effectiveTz (tz : Option String) : Option String :=
  tz.filter fun tzStr => tzStr ≠ "" ∧ tzStr ≠ "UTC" ∧ host.tzParses tzStr

/-- `compute_next_run_after`; `none` when it panics. -/
def computeNextRunAfter (schedule : CronSchedule) (after : Time) : Option Time :=
  match schedule with
  | .at_ time => if after < time then some time else addSeconds after (36500 * 86400)
  | .every everySecs => addSeconds after (asI64 everySecs)
  | .cron expr tz =>
    match addSeconds after 1 with
    | none => none
    | some base =>
      if host.cronParses (sevenField expr) then
        match host.cronNext (sevenField expr) (effectiveTz host tz) base with
        | some next => some next
        | none => addSeconds after 3600
      else addSeconds after 3600

/-! ## What users and agents do -/

/-- `CronScheduler::add_job`; the clock is read to validate the job and for its first run. -/
def addJob (s : CronScheduler) (job : CronJob) (oneShot : Bool) (now₁ now₂ : Time) :
    Except Failure String × CronScheduler :=
  if s.maxTotalJobs ≤ s.jobs.entries.length then
    (.error (.internal s!"Global cron job limit reached ({s.maxTotalJobs})"), s)
  else
    let agentCount := s.jobs.entries.countP fun entry => entry.2.job.agentId == job.agentId
    match job.validateWithHome host agentCount (some s.homeDir) now₁ with
    | .error message => (.error (.invalidInput message), s)
    | .ok () =>
      match computeNextRunAfter host job.schedule now₂ with
      | none => (.error .panicked, s)
      | some next =>
        let job := { job with nextRun := some next }
        let oneShot := oneShot || job.schedule matches .at_ _
        (.ok job.id, { s with jobs := s.jobs.insert job.id (.new job oneShot) })

/-- `CronScheduler::remove_job`. -/
def removeJob (s : CronScheduler) (id : String) : Except Failure CronJob × CronScheduler :=
  match s.jobs.lookup id with
  | some entry => (.ok entry.job, { s with jobs := s.jobs.erase id })
  | none => (.error (notFound id), s)

/-- An entry after a user has enabled or disabled the job, and whether the clock panicked. -/
def JobMeta.setEnabled (entry : JobMeta) (enabled : Bool) (now : Time) :
    JobMeta × Option Failure :=
  let entry := { entry with job := { entry.job with enabled := enabled }, autoDisabled := false }
  if enabled then
    let entry := { entry with consecutiveErrors := 0 }
    match computeNextRunAfter host entry.job.schedule now with
    | some next => ({ entry with job := { entry.job with nextRun := some next } }, none)
    | none => (entry, some .panicked)
  else (entry, none)

/-- One entry rewritten by an operation that may fail. -/
def onEntry (s : CronScheduler) (id : String) (f : JobMeta → JobMeta × Option Failure) :
    Except Failure CronJob × CronScheduler :=
  match s.jobs.lookup id with
  | none => (.error (notFound id), s)
  | some entry =>
    ((f entry).2.elim (.ok (f entry).1.job) .error,
      { s with jobs := s.jobs.modify id fun _ => (f entry).1 })

/-- `CronScheduler::set_enabled`. -/
def setEnabled (s : CronScheduler) (id : String) (enabled : Bool) (now : Time) :
    Except Failure Unit × CronScheduler :=
  let r := onEntry s id fun entry => entry.setEnabled host enabled now
  (r.1.map fun _ => (), r.2)

/-- `Index` of a JSON value by a key. -/
def Value.get (value : Value) (key : String) : Value :=
  match value with
  | .object fields => (fields.lookup key).getD .null
  | _ => .null

/-- `Value::as_str`. -/
def Value.asStr : Value → Option String
  | .string s => some s
  | _ => none

/-- `Value::as_bool`. -/
def Value.asBool : Value → Option Bool
  | .bool b => some b
  | _ => none

/-- `Value::is_null`. -/
def Value.isNull : Value → Bool
  | .null => true
  | _ => false

/-- The name in `CronScheduler::update_job`. -/
def JobMeta.patchName (entry : JobMeta) (updates : Value) : JobMeta × Option Failure :=
  match (updates.get "name").asStr with
  | some name => ({ entry with job := { entry.job with name := name } }, none)
  | none => (entry, none)

/-- The enabled flag in `CronScheduler::update_job`. -/
def JobMeta.patchEnabled (entry : JobMeta) (updates : Value) (now : Time) :
    JobMeta × Option Failure :=
  match (updates.get "enabled").asBool with
  | some enabled => entry.setEnabled host enabled now
  | none => (entry, none)

/-- The agent in `CronScheduler::update_job`. -/
def JobMeta.patchAgentId (entry : JobMeta) (updates : Value) : JobMeta × Option Failure :=
  match (updates.get "agent_id").asStr with
  | some text =>
    match host.parseAgentId text with
    | .ok agentId => ({ entry with job := { entry.job with agentId := agentId } }, none)
    | .error e => (entry, some (.internal s!"Invalid agent_id: {e}"))
  | none => (entry, none)

/-- One of the parts of a job that `CronScheduler::update_job` replaces as a whole. -/
def JobMeta.patchPart {α : Type} (entry : JobMeta) (updates : Value) (key : String)
    (fromValue : Value → Except String α) (set : α → JobMeta × Option Failure) :
    JobMeta × Option Failure :=
  if (updates.get key).isNull then (entry, none)
  else
    match fromValue (updates.get key) with
    | .ok part => set part
    | .error e => (entry, some (.internal s!"Invalid {key}: {e}"))

/-- The schedule in `CronScheduler::update_job`. -/
def JobMeta.patchSchedule (entry : JobMeta) (updates : Value) (now : Time) :
    JobMeta × Option Failure :=
  entry.patchPart updates "schedule" host.scheduleFromValue fun schedule =>
    match computeNextRunAfter host schedule now with
    | some next =>
      ({ entry with job := { entry.job with nextRun := some next, schedule := schedule } }, none)
    | none => (entry, some .panicked)

/-- The action in `CronScheduler::update_job`. -/
def JobMeta.patchAction (entry : JobMeta) (updates : Value) : JobMeta × Option Failure :=
  entry.patchPart updates "action" host.actionFromValue fun action =>
    ({ entry with job := { entry.job with action := action } }, none)

/-- The delivery in `CronScheduler::update_job`. -/
def JobMeta.patchDelivery (entry : JobMeta) (updates : Value) : JobMeta × Option Failure :=
  entry.patchPart updates "delivery" host.deliveryFromValue fun delivery =>
    ({ entry with job := { entry.job with delivery := delivery } }, none)

/-- The delivery targets in `CronScheduler::update_job`. -/
def JobMeta.patchDeliveryTargets (entry : JobMeta) (updates : Value) : JobMeta × Option Failure :=
  entry.patchPart updates "delivery_targets" host.targetsFromValue fun targets =>
    ({ entry with job := { entry.job with deliveryTargets := targets } }, none)

/-- The next part of an update, unless it has failed. -/
def andThen (r : JobMeta × Option Failure) (f : JobMeta → JobMeta × Option Failure) :
    JobMeta × Option Failure :=
  match r with
  | (entry, none) => f entry
  | (entry, some failure) => (entry, some failure)

/-- The parts of an update before the schedule. -/
def JobMeta.patchIdentity (entry : JobMeta) (updates : Value) (now : Time) :
    JobMeta × Option Failure :=
  let r := entry.patchName updates
  let r := andThen r fun entry => entry.patchEnabled host updates now
  andThen r fun entry => entry.patchAgentId host updates

/-- The body of `CronScheduler::update_job`. -/
def JobMeta.patch (entry : JobMeta) (updates : Value) (now₁ now₂ : Time) :
    JobMeta × Option Failure :=
  let r := entry.patchIdentity host updates now₁
  let r := andThen r fun entry => entry.patchSchedule host updates now₂
  let r := andThen r fun entry => entry.patchAction host updates
  let r := andThen r fun entry => entry.patchDelivery host updates
  andThen r fun entry => entry.patchDeliveryTargets host updates

/-- `CronScheduler::update_job`; the clock is read for `enabled` and for `schedule`. -/
def updateJob (s : CronScheduler) (id : String) (updates : Value) (now₁ now₂ : Time) :
    Except Failure CronJob × CronScheduler :=
  onEntry s id fun entry => entry.patch host updates now₁ now₂

/-- `CronScheduler::set_delivery_targets`. -/
def setDeliveryTargets (s : CronScheduler) (id : String) (targets : List CronDeliveryTarget) :
    Except Failure Unit × CronScheduler :=
  let r := onEntry s id fun entry =>
    ({ entry with job := { entry.job with deliveryTargets := targets } }, none)
  (r.1.map fun _ => (), r.2)

/-! ## What the tick loop does -/

/-- The job is enabled and its next run has come. -/
def JobMeta.isDue (entry : JobMeta) (now : Time) : Bool :=
  entry.job.enabled && entry.job.nextRun.any (· ≤ now)

theorem isDue_iff {entry : JobMeta} {now : Time} : entry.isDue now = true ↔
    entry.job.enabled = true ∧ ∃ next, entry.job.nextRun = some next ∧ next ≤ now := by
  unfold JobMeta.isDue
  rw [Bool.and_eq_true, Option.any_eq_true]
  simp only [decide_eq_true_eq]

/-- The entry after `CronScheduler::due_jobs` has passed it, and whether the clock panicked. -/
def JobMeta.preAdvance (entry : JobMeta) (now : Time) : JobMeta × Bool :=
  if entry.isDue now then
    match computeNextRunAfter host entry.job.schedule now with
    | some next => ({ entry with job := { entry.job with nextRun := some next } }, false)
    | none => (entry, true)
  else (entry, false)

/-- `CronScheduler::due_jobs`. -/
def dueJobs (s : CronScheduler) (now : Time) : Except Failure (List CronJob) × CronScheduler :=
  let visited := s.jobs.visit fun _ entry => entry.preAdvance host now
  (if visited.2 then .error .panicked
    else .ok ((s.jobs.entries.filter fun entry => entry.2.isDue now).map fun entry => entry.2.job),
    { s with jobs := visited.1 })

/-- `CronScheduler::mark_due_now_by_agent`. -/
def markDueNowByAgent (s : CronScheduler) (agentId : String) (now : Time) : CronScheduler :=
  { s with jobs := s.jobs.update fun _ entry =>
      if entry.job.agentId = agentId ∧ entry.job.enabled then
        { entry with job := { entry.job with nextRun := some now } }
      else entry }

/-- An entry whose one-shot job is dropped. -/
def dropOneShot (s : CronScheduler) (id : String) : CronScheduler :=
  match s.jobs.lookup id with
  | some entry => if entry.oneShot then { s with jobs := s.jobs.erase id } else s
  | none => s

/-- `CronScheduler::record_success`. -/
def recordSuccess (s : CronScheduler) (id : String) (now : Time) : CronScheduler :=
  dropOneShot
    { s with jobs := s.jobs.modify id fun entry =>
        { entry with
          job := { entry.job with lastRun := some now }
          lastStatus := some "ok"
          consecutiveErrors := 0 } }
    id

/-- `CronScheduler::record_skipped`. -/
def recordSkipped (s : CronScheduler) (id : String) : CronScheduler :=
  dropOneShot
    { s with jobs := s.jobs.modify id fun entry =>
        { entry with lastStatus := some "skipped: agent suspended" } }
    id

/-- The entry after `CronScheduler::record_failure`; the clock is read twice. -/
def JobMeta.recordFailure (entry : JobMeta) (errorMsg : String) (now₁ now₂ : Time) :
    JobMeta × Option Failure :=
  let entry :=
    { entry with
      job := { entry.job with lastRun := some now₁ }
      lastStatus := some s!"error: {truncateStr errorMsg 256}"
      consecutiveErrors := (entry.consecutiveErrors + 1) % 2 ^ 32 }
  if entry.oneShot then (entry, none)
  else if maxConsecutiveErrors ≤ entry.consecutiveErrors then
    ({ entry with job := { entry.job with enabled := false }, autoDisabled := true }, none)
  else
    match computeNextRunAfter host entry.job.schedule now₂ with
    | some next => ({ entry with job := { entry.job with nextRun := some next } }, none)
    | none => (entry, some .panicked)

/-- `CronScheduler::record_failure`. -/
def recordFailure (s : CronScheduler) (id errorMsg : String) (now₁ now₂ : Time) : CronScheduler :=
  dropOneShot (onEntry s id fun entry => entry.recordFailure host errorMsg now₁ now₂).2 id

/-- The entry after `CronScheduler::reassign_agent_jobs` has passed it, and whether the clock
panicked. -/
def JobMeta.reassign (entry : JobMeta) (oldAgentId newAgentId : String) (now : Time) :
    JobMeta × Bool :=
  if entry.job.agentId = oldAgentId then
    let entry :=
      { entry with job := { entry.job with agentId := newAgentId }, consecutiveErrors := 0 }
    if ¬ entry.job.enabled ∧ entry.autoDisabled then
      let entry := { entry with job := { entry.job with enabled := true }, autoDisabled := false }
      match computeNextRunAfter host entry.job.schedule now with
      | some next => ({ entry with job := { entry.job with nextRun := some next } }, false)
      | none => (entry, true)
    else (entry, false)
  else (entry, false)

/-- `CronScheduler::reassign_agent_jobs`; the clock is read for every job that is enabled again. -/
def reassignAgentJobs (s : CronScheduler) (oldAgentId newAgentId : String)
    (now : String → Time) : Except Failure ℕ × CronScheduler :=
  let visited := s.jobs.visit fun id entry => entry.reassign host oldAgentId newAgentId (now id)
  (if visited.2 then .error .panicked
    else .ok (s.jobs.entries.countP fun entry => entry.2.job.agentId == oldAgentId),
    { s with jobs := visited.1 })

/-- `CronScheduler::remove_agent_jobs`. -/
def removeAgentJobs (s : CronScheduler) (agentId : String) : CronScheduler :=
  let ids := (s.jobs.entries.filter fun entry => entry.2.job.agentId == agentId).map (·.1)
  { s with jobs := ids.foldl (fun jobs id => jobs.erase id) s.jobs }

/-- An operation with the readings of the clock it makes. -/
inductive Op
  | addJob (job : CronJob) (oneShot : Bool) (now₁ now₂ : Time)
  | removeJob (id : String)
  | setEnabled (id : String) (enabled : Bool) (now : Time)
  | updateJob (id : String) (updates : Value) (now₁ now₂ : Time)
  | setDeliveryTargets (id : String) (targets : List CronDeliveryTarget)
  | dueJobs (now : Time)
  | markDueNowByAgent (agentId : String) (now : Time)
  | recordSuccess (id : String) (now : Time)
  | recordSkipped (id : String)
  | recordFailure (id errorMsg : String) (now₁ now₂ : Time)
  | reassignAgentJobs (oldAgentId newAgentId : String) (now : String → Time)
  | removeAgentJobs (agentId : String)

/-- The scheduler after an operation. -/
def apply (s : CronScheduler) : Op → CronScheduler
  | .addJob job oneShot now₁ now₂ => (addJob host s job oneShot now₁ now₂).2
  | .removeJob id => (removeJob s id).2
  | .setEnabled id enabled now => (setEnabled host s id enabled now).2
  | .updateJob id updates now₁ now₂ => (updateJob host s id updates now₁ now₂).2
  | .setDeliveryTargets id targets => (setDeliveryTargets s id targets).2
  | .dueJobs now => (dueJobs host s now).2
  | .markDueNowByAgent agentId now => markDueNowByAgent s agentId now
  | .recordSuccess id now => recordSuccess s id now
  | .recordSkipped id => recordSkipped s id
  | .recordFailure id errorMsg now₁ now₂ => recordFailure host s id errorMsg now₁ now₂
  | .reassignAgentJobs oldAgentId newAgentId now =>
    (reassignAgentJobs host s oldAgentId newAgentId now).2
  | .removeAgentJobs agentId => removeAgentJobs s agentId

/-! ## What an operation does to one entry -/

/-- The entry after an operation that reaches it. -/
def Op.rewrite (op : Op) (id' : String) (entry : JobMeta) : JobMeta :=
  match op with
  | .setEnabled id enabled now =>
    if id' = id then (entry.setEnabled host enabled now).1 else entry
  | .updateJob id updates now₁ now₂ =>
    if id' = id then (entry.patch host updates now₁ now₂).1 else entry
  | .setDeliveryTargets id targets =>
    if id' = id then { entry with job := { entry.job with deliveryTargets := targets } } else entry
  | .dueJobs now => (entry.preAdvance host now).1
  | .markDueNowByAgent agentId now =>
    if entry.job.agentId = agentId ∧ entry.job.enabled then
      { entry with job := { entry.job with nextRun := some now } }
    else entry
  | .recordSuccess id now =>
    if id' = id then
      { entry with
        job := { entry.job with lastRun := some now }
        lastStatus := some "ok"
        consecutiveErrors := 0 }
    else entry
  | .recordSkipped id =>
    if id' = id then { entry with lastStatus := some "skipped: agent suspended" } else entry
  | .recordFailure id errorMsg now₁ now₂ =>
    if id' = id then (entry.recordFailure host errorMsg now₁ now₂).1 else entry
  | .reassignAgentJobs oldAgentId newAgentId now =>
    (entry.reassign host oldAgentId newAgentId (now id')).1
  | .addJob .. | .removeJob _ | .removeAgentJobs _ => entry

/-- The operation visits one entry after the other, and may stop before it reaches an entry. -/
def Op.Visits : Op → Prop
  | .dueJobs _ | .reassignAgentJobs .. => True
  | _ => False

section Cases

variable {host} {s : CronScheduler} {id id' : String} {entry entry' : JobMeta}

theorem lookup_erase_some (h : (s.jobs.erase id).lookup id' = some entry) :
    s.jobs.lookup id' = some entry := by
  by_cases hid : id' = id
  · rw [hid, AList.lookup_erase] at h
    cases h
  · rwa [AList.lookup_erase_ne hid] at h

theorem lookup_dropOneShot (h : (dropOneShot s id).jobs.lookup id' = some entry) :
    s.jobs.lookup id' = some entry := by
  unfold dropOneShot at h
  split at h
  · split at h
    · exact lookup_erase_some h
    · exact h
  · exact h

theorem lookup_modify_some {f : JobMeta → JobMeta}
    (h : (s.jobs.modify id f).lookup id' = some entry') :
    ∃ entry, s.jobs.lookup id' = some entry ∧
      entry' = if id' = id then f entry else entry := by
  by_cases hid : id' = id
  · subst hid
    rw [Table.lookup_modify_self] at h
    obtain ⟨entry, hentry, rfl⟩ := Option.map_eq_some_iff.mp h
    exact ⟨entry, hentry, (if_pos rfl).symm⟩
  · rw [Table.lookup_modify_ne _ hid] at h
    exact ⟨entry', h, (if_neg hid).symm⟩

theorem lookup_onEntry {f : JobMeta → JobMeta × Option Failure}
    (h : (onEntry s id f).2.jobs.lookup id' = some entry') :
    ∃ entry, s.jobs.lookup id' = some entry ∧
      entry' = if id' = id then (f entry).1 else entry := by
  unfold onEntry at h
  split at h
  case h_1 hnone =>
    refine ⟨entry', h, ?_⟩
    by_cases hid : id' = id
    · rw [← hid] at hnone
      rw [hnone] at h
      cases h
    · rw [if_neg hid]
  case h_2 entry hentry =>
    obtain ⟨old, hold, hnew⟩ := lookup_modify_some h
    refine ⟨old, hold, ?_⟩
    by_cases hid : id' = id
    · rw [← hid, hold] at hentry
      obtain rfl := Option.some.inj hentry
      rwa [if_pos hid] at hnew ⊢
    · rwa [if_neg hid] at hnew ⊢

theorem lookup_update_some {f : String → JobMeta → JobMeta}
    (h : (s.jobs.update f).lookup id' = some entry') :
    ∃ entry, s.jobs.lookup id' = some entry ∧ entry' = f id' entry := by
  rw [Table.lookup_update] at h
  obtain ⟨entry, hentry, rfl⟩ := Option.map_eq_some_iff.mp h
  exact ⟨entry, hentry, rfl⟩

theorem lookup_visit_some {f : String → JobMeta → JobMeta × Bool}
    (h : (s.jobs.visit f).1.lookup id' = some entry') :
    ∃ entry, s.jobs.lookup id' = some entry ∧ (entry' = (f id' entry).1 ∨ entry' = entry) := by
  obtain hsame | hnew := Table.lookup_visit (t := s.jobs) f id'
  · exact ⟨entry', hsame ▸ h, .inr rfl⟩
  · rw [hnew] at h
    obtain ⟨entry, hentry, rfl⟩ := Option.map_eq_some_iff.mp h
    exact ⟨entry, hentry, .inl rfl⟩

theorem lookup_removeJob (h : (removeJob s id).2.jobs.lookup id' = some entry) :
    s.jobs.lookup id' = some entry := by
  unfold removeJob at h
  split at h
  · exact lookup_erase_some h
  · exact h

theorem lookup_removeAgentJobs {agentId : String}
    (h : (removeAgentJobs s agentId).jobs.lookup id' = some entry) :
    s.jobs.lookup id' = some entry := by
  unfold removeAgentJobs at h
  dsimp only at h
  generalize ((s.jobs.entries.filter fun entry => entry.2.job.agentId == agentId).map (·.1)) = ids
    at h
  induction ids using List.reverseRecOn with
  | nil => exact h
  | append_singleton ids id ih =>
    rw [List.foldl_append] at h
    exact ih (lookup_erase_some (s := ⟨_, s.homeDir, s.maxTotalJobs⟩) h)

theorem addJob_cases (host : Host) (s : CronScheduler) (job : CronJob) (oneShot : Bool)
    (now₁ now₂ : Time) :
    (∃ failure, addJob host s job oneShot now₁ now₂ = (.error failure, s)) ∨
      ∃ next, job.WellFormed host s.homeDir ∧
        computeNextRunAfter host job.schedule now₂ = some next ∧
        addJob host s job oneShot now₁ now₂ =
          (.ok job.id, { s with
            jobs := s.jobs.insert job.id (.new { job with nextRun := some next }
              (oneShot || (job.schedule matches .at_ _))) }) := by
  unfold addJob
  split
  · exact .inl ⟨_, rfl⟩
  · dsimp only
    split
    · exact .inl ⟨_, rfl⟩
    · next hvalid =>
      split
      · exact .inl ⟨_, rfl⟩
      · next next hnext =>
        exact .inr ⟨next, job.wellFormed_of_validate host hvalid, hnext, rfl⟩

/-- **What an operation can do to an entry.** The entry it leaves is one that `add_job` has just
stored, or the old one rewritten, or one that a visit has not reached. -/
theorem apply_cases {op : Op} (h : (apply host s op).jobs.lookup id' = some entry') :
    (∃ job oneShot now₁ now₂ next, op = .addJob job oneShot now₁ now₂ ∧ id' = job.id ∧
        (addJob host s job oneShot now₁ now₂).1 = .ok job.id ∧ job.WellFormed host s.homeDir ∧
        computeNextRunAfter host job.schedule now₂ = some next ∧
        entry' = .new { job with nextRun := some next }
          (oneShot || (job.schedule matches .at_ _))) ∨
      ∃ entry, s.jobs.lookup id' = some entry ∧
        (entry' = op.rewrite host id' entry ∨ op.Visits ∧ entry' = entry) := by
  cases op with
  | addJob job oneShot now₁ now₂ =>
    obtain ⟨failure, heq⟩ | ⟨next, hwf, hnext, heq⟩ :=
      addJob_cases host s job oneShot now₁ now₂
    · rw [apply, heq] at h
      exact .inr ⟨entry', h, .inl rfl⟩
    · rw [apply, heq] at h
      by_cases hid : id' = job.id
      · rw [hid, AList.lookup_insert] at h
        exact .inl ⟨job, oneShot, now₁, now₂, next, rfl, hid, by rw [heq], hwf, hnext,
          (Option.some.inj h).symm⟩
      · rw [AList.lookup_insert_ne hid] at h
        exact .inr ⟨entry', h, .inl rfl⟩
  | removeJob id => exact .inr ⟨entry', lookup_removeJob h, .inl rfl⟩
  | setEnabled id enabled now =>
    obtain ⟨entry, hentry, heq⟩ := lookup_onEntry h
    exact .inr ⟨entry, hentry, .inl heq⟩
  | updateJob id updates now₁ now₂ =>
    obtain ⟨entry, hentry, heq⟩ := lookup_onEntry h
    exact .inr ⟨entry, hentry, .inl heq⟩
  | setDeliveryTargets id targets =>
    obtain ⟨entry, hentry, heq⟩ := lookup_onEntry h
    exact .inr ⟨entry, hentry, .inl heq⟩
  | dueJobs now =>
    obtain ⟨entry, hentry, heq | heq⟩ := lookup_visit_some h
    · exact .inr ⟨entry, hentry, .inl heq⟩
    · exact .inr ⟨entry, hentry, .inr ⟨trivial, heq⟩⟩
  | markDueNowByAgent agentId now =>
    obtain ⟨entry, hentry, heq⟩ := lookup_update_some h
    exact .inr ⟨entry, hentry, .inl heq⟩
  | recordSuccess id now =>
    obtain ⟨entry, hentry, heq⟩ := lookup_modify_some (lookup_dropOneShot h)
    exact .inr ⟨entry, hentry, .inl heq⟩
  | recordSkipped id =>
    obtain ⟨entry, hentry, heq⟩ := lookup_modify_some (lookup_dropOneShot h)
    exact .inr ⟨entry, hentry, .inl heq⟩
  | recordFailure id errorMsg now₁ now₂ =>
    obtain ⟨entry, hentry, heq⟩ := lookup_onEntry (lookup_dropOneShot h)
    exact .inr ⟨entry, hentry, .inl heq⟩
  | reassignAgentJobs oldAgentId newAgentId now =>
    obtain ⟨entry, hentry, heq | heq⟩ := lookup_visit_some h
    · exact .inr ⟨entry, hentry, .inl heq⟩
    · exact .inr ⟨entry, hentry, .inr ⟨trivial, heq⟩⟩
  | removeAgentJobs agentId => exact .inr ⟨entry', lookup_removeAgentJobs h, .inl rfl⟩

end Cases

end LibreFang.Cron
