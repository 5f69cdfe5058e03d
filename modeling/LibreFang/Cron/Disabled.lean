import LibreFang.Lib.Runs
import LibreFang.Cron.Scheduler

/-!
# Jobs a user has disabled

* `Watch`: the scheduler, and which jobs were last disabled by a user.
* `StaysDisabled`: none of them is enabled.
* `LateFailure`: a failure of a disabled job that reaches the limit of errors.
* **`staysDisabled_of_no_lateFailure`**: without late failures, disabled jobs stay disabled.
-/

namespace LibreFang.Cron

open Runs

/-- The scheduler, and the jobs whose last explicit change by a user was to disable them. -/
structure Watch where
  scheduler : CronScheduler
  off : String → Bool

variable (host : Host)

/-- The wishes after a user has enabled or disabled a stored job. -/
def Watch.mark (w : Watch) (id : String) (enabled : Bool) : String → Bool :=
  if (w.scheduler.jobs.lookup id).isSome then Function.update w.off id (!enabled) else w.off

/-- What an operation tells of the wishes of the user. A job stored anew is a new job. -/
def noteUser (w : Watch) : Op → String → Bool
  | .addJob job oneShot now₁ now₂ =>
    if (addJob host w.scheduler job oneShot now₁ now₂).1.isOk then
      Function.update w.off job.id false
    else w.off
  | .setEnabled id enabled _ => w.mark id enabled
  | .updateJob id updates _ _ => (updates.get "enabled").asBool.elim w.off (w.mark id)
  | _ => w.off

/-- One operation, watched. -/
def watch (w : Watch) (op : Op) : Watch := ⟨apply host w.scheduler op, noteUser host w op⟩

/-- No job that the user has disabled is enabled. -/
def StaysDisabled (w : Watch) : Prop :=
  ∀ id entry, w.off id = true → w.scheduler.jobs.lookup id = some entry → entry.job.enabled = false

/-- The error counter after one more failure. -/
def JobMeta.nextErrors (entry : JobMeta) : ℕ := (entry.consecutiveErrors + 1) % 2 ^ 32

/-- A failure is recorded for a recurring job that the user has disabled, and it is the one that
reaches the limit. -/
def LateFailure (w : Watch) (op : Op) : Prop :=
  ∃ id errorMsg now₁ now₂ entry, op = .recordFailure id errorMsg now₁ now₂ ∧ w.off id = true ∧
    w.scheduler.jobs.lookup id = some entry ∧ entry.oneShot = false ∧
    maxConsecutiveErrors ≤ entry.nextErrors

/-! ## What keeps an entry disabled -/

/-- The job is disabled, and not by the scheduler. -/
def JobMeta.Off (entry : JobMeta) : Prop := entry.job.enabled = false ∧ entry.autoDisabled = false

section Entries

variable {host} {entry : JobMeta}

theorem off_setEnabled (entry : JobMeta) (now : Time) :
    (entry.setEnabled host false now).1.Off := ⟨rfl, rfl⟩

/-- What a later part of an update leaves alone. -/
def KeepsOff (f : JobMeta → JobMeta × Option Failure) : Prop := ∀ entry, entry.Off → (f entry).1.Off

theorem off_andThen {r : JobMeta × Option Failure} {f : JobMeta → JobMeta × Option Failure}
    (h : r.1.Off) (hf : KeepsOff f) : (andThen r f).1.Off := by
  rcases r with ⟨entry, _ | failure⟩
  · exact hf entry h
  · exact h

theorem keepsOff_patchPart {α : Type} (updates : Value) (key : String)
    (fromValue : Value → Except String α) {set : JobMeta → α → JobMeta × Option Failure}
    (hset : ∀ part, KeepsOff fun entry => set entry part) :
    KeepsOff fun entry => entry.patchPart updates key fromValue (set entry) := by
  intro entry h
  unfold JobMeta.patchPart
  split
  · exact h
  · split
    · exact hset _ entry h
    · exact h

theorem keepsOff_patchSchedule (updates : Value) (now : Time) :
    KeepsOff fun entry => entry.patchSchedule host updates now := by
  refine keepsOff_patchPart updates "schedule" _ fun schedule entry h => ?_
  dsimp only
  split
  · exact h
  · exact h

theorem keepsOff_patchAction (updates : Value) :
    KeepsOff fun entry => entry.patchAction host updates :=
  keepsOff_patchPart updates "action" _ fun _ _ h => h

theorem keepsOff_patchDelivery (updates : Value) :
    KeepsOff fun entry => entry.patchDelivery host updates :=
  keepsOff_patchPart updates "delivery" _ fun _ _ h => h

theorem keepsOff_patchDeliveryTargets (updates : Value) :
    KeepsOff fun entry => entry.patchDeliveryTargets host updates :=
  keepsOff_patchPart updates "delivery_targets" _ fun _ _ h => h

theorem keepsOff_patchAgentId (updates : Value) :
    KeepsOff fun entry => entry.patchAgentId host updates := by
  intro entry h
  unfold JobMeta.patchAgentId
  split
  · split
    · exact h
    · exact h
  · exact h

theorem patchName_off (entry : JobMeta) (updates : Value) (h : entry.Off) :
    (entry.patchName updates).1.Off := by
  unfold JobMeta.patchName
  split
  · exact h
  · exact h

theorem patchName_succeeds (entry : JobMeta) (updates : Value) :
    (entry.patchName updates).2 = none := by
  unfold JobMeta.patchName
  split
  · rfl
  · rfl

theorem off_patch {updates : Value} (now₁ now₂ : Time)
    (h : (updates.get "enabled").asBool = some false ∨
      (updates.get "enabled").asBool = none ∧ entry.Off) :
    (entry.patch host updates now₁ now₂).1.Off := by
  have henabled : (andThen (entry.patchName updates)
      fun entry => entry.patchEnabled host updates now₁).1.Off := by
    have hnamed := patchName_succeeds entry updates
    have hkept := patchName_off entry updates
    rcases hr : entry.patchName updates with ⟨named, failure⟩
    rw [hr] at hnamed hkept
    obtain rfl := hnamed
    unfold andThen JobMeta.patchEnabled
    obtain hfalse | ⟨hnone, hoff⟩ := h
    · rw [hfalse]
      exact off_setEnabled named now₁
    · rw [hnone]
      exact hkept hoff
  have hidentity : (entry.patchIdentity host updates now₁).1.Off :=
    off_andThen henabled (keepsOff_patchAgentId updates)
  unfold JobMeta.patch
  refine off_andThen ?_ (keepsOff_patchDeliveryTargets updates)
  refine off_andThen ?_ (keepsOff_patchDelivery updates)
  refine off_andThen ?_ (keepsOff_patchAction updates)
  exact off_andThen hidentity (keepsOff_patchSchedule updates now₂)

theorem off_preAdvance (h : entry.Off) (now : Time) : (entry.preAdvance host now).1.Off := by
  unfold JobMeta.preAdvance
  split
  · split
    · exact h
    · exact h
  · exact h

theorem off_reassign (h : entry.Off) (oldAgentId newAgentId : String) (now : Time) :
    (entry.reassign host oldAgentId newAgentId now).1.Off := by
  unfold JobMeta.reassign
  split
  · dsimp only
    rw [if_neg]
    · exact h
    · rintro ⟨-, hauto⟩
      rw [h.2] at hauto
      cases hauto
  · exact h

theorem off_recordFailure (h : entry.Off) (errorMsg : String) (now₁ now₂ : Time)
    (hbelow : entry.oneShot = true ∨ entry.nextErrors < maxConsecutiveErrors) :
    (entry.recordFailure host errorMsg now₁ now₂).1.Off := by
  unfold JobMeta.recordFailure
  dsimp only
  by_cases hshot : entry.oneShot = true
  · rw [if_pos hshot]
    exact h
  · rw [if_neg hshot, if_neg]
    · split
      · exact h
      · exact h
    · exact Nat.not_le_of_lt (hbelow.resolve_left hshot)

end Entries

/-! ## Runs -/

/-- Every job the user has disabled is off. -/
def OffJobs (w : Watch) : Prop :=
  ∀ id entry, w.off id = true → w.scheduler.jobs.lookup id = some entry → entry.Off

section Step

variable {host} {w : Watch}

theorem mark_self {id : String} {entry : JobMeta} (h : w.scheduler.jobs.lookup id = some entry)
    (enabled : Bool) : w.mark id enabled id = !enabled := by
  unfold Watch.mark
  rw [h, Option.isSome_some, if_pos rfl, Function.update_self]

theorem mark_ne {id id' : String} (h : id' ≠ id) (enabled : Bool) :
    w.mark id enabled id' = w.off id' := by
  unfold Watch.mark
  split
  · exact Function.update_of_ne h _ _
  · rfl

theorem noteUser_addJob {job : CronJob} {oneShot : Bool} {now₁ now₂ : Time} {id : String}
    (h : noteUser host w (.addJob job oneShot now₁ now₂) id = true) : w.off id = true := by
  unfold noteUser at h
  dsimp only at h
  split at h
  · by_cases hid : id = job.id
    · rw [hid, Function.update_self] at h
      cases h
    · rwa [Function.update_of_ne hid] at h
  · exact h

theorem off_rewrite {op : Op} {id : String} {entry : JobMeta}
    (hlookup : w.scheduler.jobs.lookup id = some entry) (hoff : noteUser host w op id = true)
    (hold : w.off id = true → entry.Off) (hlate : ¬ LateFailure w op) :
    (op.rewrite host id entry).Off := by
  cases op with
  | addJob job oneShot now₁ now₂ => exact hold (noteUser_addJob hoff)
  | removeJob id' => exact hold hoff
  | setEnabled id' enabled now =>
    unfold Op.rewrite
    dsimp only
    have hoff : w.mark id' enabled id = true := hoff
    by_cases hid : id = id'
    · subst hid
      rw [mark_self hlookup] at hoff
      cases enabled with
      | false =>
        rw [if_pos rfl]
        exact off_setEnabled entry now
      | true => cases hoff
    · rw [mark_ne hid] at hoff
      rw [if_neg hid]
      exact hold hoff
  | updateJob id' updates now₁ now₂ =>
    unfold Op.rewrite
    dsimp only
    have hoff : (updates.get "enabled").asBool.elim w.off (w.mark id') id = true := hoff
    by_cases hid : id = id'
    · subst hid
      rw [if_pos rfl]
      cases henabled : (updates.get "enabled").asBool with
      | none =>
        rw [henabled] at hoff
        exact off_patch now₁ now₂ (.inr ⟨henabled, hold hoff⟩)
      | some enabled =>
        rw [henabled, Option.elim_some, mark_self hlookup] at hoff
        cases enabled with
        | false => exact off_patch now₁ now₂ (.inl henabled)
        | true => cases hoff
    · rw [if_neg hid]
      cases henabled : (updates.get "enabled").asBool with
      | none =>
        rw [henabled] at hoff
        exact hold hoff
      | some enabled =>
        rw [henabled, Option.elim_some, mark_ne hid] at hoff
        exact hold hoff
  | setDeliveryTargets id' targets =>
    unfold Op.rewrite
    dsimp only
    split
    · exact hold hoff
    · exact hold hoff
  | dueJobs now => exact off_preAdvance (hold hoff) now
  | markDueNowByAgent agentId now =>
    unfold Op.rewrite
    dsimp only
    split
    · exact hold hoff
    · exact hold hoff
  | recordSuccess id' now =>
    unfold Op.rewrite
    dsimp only
    split
    · exact hold hoff
    · exact hold hoff
  | recordSkipped id' =>
    unfold Op.rewrite
    dsimp only
    split
    · exact hold hoff
    · exact hold hoff
  | recordFailure id' errorMsg now₁ now₂ =>
    unfold Op.rewrite
    dsimp only
    by_cases hid : id = id'
    · subst hid
      rw [if_pos rfl]
      refine off_recordFailure (hold hoff) errorMsg now₁ now₂ ?_
      by_contra hreached
      rw [not_or, Bool.not_eq_true, Nat.not_lt] at hreached
      exact hlate ⟨id, errorMsg, now₁, now₂, entry, rfl, hoff, hlookup, hreached⟩
    · rw [if_neg hid]
      exact hold hoff
  | reassignAgentJobs oldAgentId newAgentId now => exact off_reassign (hold hoff) _ _ _
  | removeAgentJobs agentId => exact hold hoff

/-- **One step**: without a late failure, the jobs the user has disabled are off afterwards. -/
theorem offJobs_watch {op : Op} (h : OffJobs w) (hlate : ¬ LateFailure w op) :
    OffJobs (watch host w op) := by
  intro id entry' hoff hlookup'
  obtain ⟨job, oneShot, now₁, now₂, next, rfl, rfl, hok, -⟩ | ⟨entry, hlookup, hentry⟩ :=
    apply_cases hlookup'
  -- a job stored anew is not one that the user has disabled
  · have hnew : noteUser host w (.addJob job oneShot now₁ now₂) job.id = false := by
      unfold noteUser
      dsimp only
      rw [hok, Except.isOk, Except.toBool, if_pos rfl, Function.update_self]
    exact absurd (hnew.symm.trans hoff) Bool.false_ne_true
  · obtain rfl | ⟨hvisits, rfl⟩ := hentry
    · exact off_rewrite hlookup hoff (fun hw => h id entry hw hlookup) hlate
    -- a visit that stops early does not change what the user wants
    · have hsame : noteUser host w op = w.off := by
        cases op <;> first | rfl | cases hvisits
      exact h id _ (hsame ▸ hoff) hlookup

end Step

/-- **Disabled jobs stay disabled.** From any stored jobs, in a run without late failures, no job
that the user has disabled is enabled before the user enables it again. -/
theorem staysDisabled_of_no_lateFailure (s : CronScheduler) (ops : List Op)
    (h : Along (watch host) (fun w op => ¬ LateFailure w op) ⟨s, fun _ => false⟩ ops) :
    ∀ before rest, ops = before ++ rest →
      StaysDisabled (after (watch host) ⟨s, fun _ => false⟩ before) := by
  rintro before rest rfl
  have hinv : OffJobs (after (watch host) ⟨s, fun _ => false⟩ before) := by
    refine invariant (P := fun w op => ¬ LateFailure w op) (fun w op => offJobs_watch) ?_
      ((along_append _).mp h).1
    intro id entry hoff
    cases hoff
  exact fun id entry hoff hlookup => (hinv id entry hoff hlookup).1

/-- A job is disabled while it runs, the run fails, and the job goes to a new agent. -/
def disabledWhileRunning : List Op :=
  [.addJob sampleJob false 0 0, .setEnabled "j" false 0, .recordFailure "j" "timeout" 0 0,
    .reassignAgentJobs "a" "b" fun _ => 0]

theorem staysDisabled_disabledWhileRunning :
    StaysDisabled
      (after (watch sampleHost) ⟨.new "/home" 10, fun _ => false⟩ disabledWhileRunning) := by
  refine staysDisabled_of_no_lateFailure sampleHost (.new "/home" 10) _ ?_ _ []
    (List.append_nil _).symm
  refine ⟨?_, ?_, ?_, ?_, trivial⟩
  · rintro ⟨id, errorMsg, now₁, now₂, entry, hop, -⟩
    cases hop
  · rintro ⟨id, errorMsg, now₁, now₂, entry, hop, -⟩
    cases hop
  · rintro ⟨id, errorMsg, now₁, now₂, entry, hop, -, hlookup, -, hreached⟩
    cases hop
    obtain rfl := Option.some.inj hlookup
    exact absurd hreached (by decide)
  · rintro ⟨id, errorMsg, now₁, now₂, entry, hop, -⟩
    cases hop

/-- The same after four failures before it: the fifth one is taken for the scheduler's decision. -/
def fifthFailure : List Op :=
  .addJob sampleJob false 0 0 :: List.replicate 4 (.recordFailure "j" "timeout" 0 0) ++
    [.setEnabled "j" false 0, .recordFailure "j" "timeout" 0 0,
      .reassignAgentJobs "a" "b" fun _ => 0]

theorem fifthFailure_enabled_again :
    ¬ StaysDisabled
      (after (watch sampleHost) ⟨.new "/home" 10, fun _ => false⟩ fifthFailure) := by
  intro h
  exact absurd (h "j" _ rfl rfl) (by decide)

end LibreFang.Cron
