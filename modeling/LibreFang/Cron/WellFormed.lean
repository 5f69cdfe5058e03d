import LibreFang.Lib.Runs
import LibreFang.Cron.Scheduler

/-!
# Stored jobs stay well formed

`add_job` is the only operation that validates what it stores.

* `StoredWellFormed`: every stored job passes the checks of its fields.
* `NoRefire`: no enabled job is due again; it holds after every completed tick.
* **`patch_wellFormed_iff`**: an update keeps a job well formed exactly when it is valid.
* **`sound_iff_checked`**: a run keeps all of this exactly along `Checked` operations.
-/

namespace LibreFang.Cron

open Runs

variable (host : Host)

/-- Every stored job passes the checks of its fields. -/
def StoredWellFormed (s : CronScheduler) : Prop :=
  s.jobs.Forall fun _ entry => entry.job.WellFormed host s.homeDir

/-- No enabled job is due. -/
def NoRefire (s : CronScheduler) (now : Time) : Prop :=
  s.jobs.Forall fun _ entry =>
    entry.job.enabled = true → ∀ next, entry.job.nextRun = some next → now < next

/-- The scheduler, and the time of the tick that has just completed, if one has. -/
structure Ticking where
  scheduler : CronScheduler
  ticked : Option Time

/-- One operation; a tick that completes is noted. -/
def tick (w : Ticking) (op : Op) : Ticking where
  scheduler := apply host w.scheduler op
  ticked :=
    match op with
    | .dueJobs now => if (dueJobs host w.scheduler now).1.isOk then some now else none
    | _ => none

/-- Stored jobs are well formed, and right after a tick none is due. -/
def Sound (w : Ticking) : Prop :=
  StoredWellFormed host w.scheduler ∧ ∀ now, w.ticked = some now → NoRefire w.scheduler now

/-- The times a cron expression yields from a base are not before it. -/
def NextIsLater : Prop :=
  ∀ expr tz base next, host.cronNext expr tz base = some next → base ≤ next

/-! ## The condition -/

/-- An update brings a part that can be read. -/
def Brings {α : Type} (updates : Value) (key : String) (fromValue : Value → Except String α)
    (part : α) : Prop :=
  (updates.get key).isNull = false ∧ fromValue (updates.get key) = .ok part

section Patch

variable (entry : JobMeta) (updates : Value) (now₁ now₂ : Time)

/-- An update up to and with the schedule. -/
def JobMeta.patchToSchedule : JobMeta × Option Failure :=
  andThen (entry.patchIdentity host updates now₁) fun entry => entry.patchSchedule host updates now₂

/-- An update up to and with the action. -/
def JobMeta.patchToAction : JobMeta × Option Failure :=
  andThen (entry.patchToSchedule host updates now₁ now₂) fun entry => entry.patchAction host updates

/-- An update up to and with the delivery. -/
def JobMeta.patchToDelivery : JobMeta × Option Failure :=
  andThen (entry.patchToAction host updates now₁ now₂) fun entry => entry.patchDelivery host updates

theorem patch_eq : entry.patch host updates now₁ now₂ =
    andThen (entry.patchToDelivery host updates now₁ now₂)
      fun entry => entry.patchDeliveryTargets host updates := rfl

/-- What an update assigns before it fails, if it does, passes the checks. -/
structure JobMeta.PatchValid (homeDir : String) : Prop where
  name : ∀ name, (updates.get "name").asStr = some name → validateName host name = .ok ()
  schedule : (entry.patchIdentity host updates now₁).2 = none →
    ∀ schedule, Brings updates "schedule" host.scheduleFromValue schedule →
      (computeNextRunAfter host schedule now₂).isSome → schedule.WellFormed
  action : (entry.patchToSchedule host updates now₁ now₂).2 = none →
    ∀ action, Brings updates "action" host.actionFromValue action →
      validateAction host action (some homeDir) = .ok ()
  delivery : (entry.patchToAction host updates now₁ now₂).2 = none →
    ∀ delivery, Brings updates "delivery" host.deliveryFromValue delivery →
      validateDelivery delivery = .ok ()
  deliveryTargets : (entry.patchToDelivery host updates now₁ now₂).2 = none →
    ∀ targets, Brings updates "delivery_targets" host.targetsFromValue targets →
      validateDeliveryTargets 0 targets = .ok ()

end Patch

/-- What the operation assigns to a stored job passes the checks. -/
def Checked (s : CronScheduler) : Op → Prop
  | .updateJob id updates now₁ now₂ => ∀ entry, s.jobs.lookup id = some entry →
      entry.PatchValid host updates now₁ now₂ s.homeDir
  | .setDeliveryTargets id targets => (s.jobs.lookup id).isSome →
      validateDeliveryTargets 0 targets = .ok ()
  | _ => True

/-! ## Updates -/

section Fields

variable {host} {r : JobMeta × Option Failure} {f : JobMeta → JobMeta × Option Failure}

/-- A part of an update that leaves a field alone. -/
def Keeps {β : Type} (field : CronJob → β) (f : JobMeta → JobMeta × Option Failure) : Prop :=
  ∀ entry, field (f entry).1.job = field entry.job

variable {β : Type}

theorem Keeps.andThen {field : CronJob → β} (hf : Keeps field f)
    (r : JobMeta × Option Failure) : field (andThen r f).1.job = field r.1.job := by
  rcases r with ⟨entry, _ | failure⟩
  · exact hf entry
  · rfl

theorem keeps_patchPart {α β : Type} {field : CronJob → β} (updates : Value) (key : String)
    (fromValue : Value → Except String α) {set : JobMeta → α → JobMeta × Option Failure}
    (hset : ∀ part, Keeps field fun entry => set entry part) :
    Keeps field fun entry => entry.patchPart updates key fromValue (set entry) := by
  intro entry
  unfold JobMeta.patchPart
  split
  · rfl
  · split
    · exact hset _ entry
    · rfl

theorem patchPart_ok_iff {α : Type} (field : CronJob → α) (ok assigned : α → Prop)
    {updates : Value} {key : String} {fromValue : Value → Except String α}
    {set : JobMeta → α → JobMeta × Option Failure} (hold : ok (field r.1.job))
    (hset : ∀ entry part, assigned part → field (set entry part).1.job = part)
    (hkeep : ∀ entry part, ¬ assigned part → field (set entry part).1.job = field entry.job) :
    ok (field (andThen r fun entry => entry.patchPart updates key fromValue (set entry)).1.job) ↔
      (r.2 = none → ∀ part, Brings updates key fromValue part → assigned part → ok part) := by
  rcases r with ⟨entry, _ | failure⟩
  · unfold andThen JobMeta.patchPart Brings
    cases hnull : (updates.get key).isNull with
    | true => simpa using hold
    | false =>
      cases hread : fromValue (updates.get key) with
      | error e => simpa using hold
      | ok part =>
        by_cases hassigned : assigned part
        · simp [hset entry part hassigned, hassigned]
        · simpa [hkeep entry part hassigned, hassigned] using hold
  · unfold andThen
    simpa using hold

theorem patchPart_ok_iff_of_set {α : Type} (field : CronJob → α) (ok : α → Prop)
    {updates : Value} {key : String} {fromValue : Value → Except String α}
    {set : JobMeta → α → JobMeta × Option Failure} (hold : ok (field r.1.job))
    (hset : ∀ entry part, field (set entry part).1.job = part) :
    ok (field (andThen r fun entry => entry.patchPart updates key fromValue (set entry)).1.job) ↔
      (r.2 = none → ∀ part, Brings updates key fromValue part → ok part) := by
  rw [patchPart_ok_iff field ok (fun _ => True) hold (fun entry part _ => hset entry part)
    fun _ _ hnot => absurd trivial hnot]
  simp only [true_imp_iff]

theorem keeps_patchEnabled (host : Host) (field : CronJob → β) (updates : Value) (now : Time)
    (hfield : ∀ (job : CronJob) (enabled : Bool) (next : Option Time),
      field { job with enabled := enabled, nextRun := next } = field job) :
    Keeps field fun entry => entry.patchEnabled host updates now := by
  intro entry
  unfold JobMeta.patchEnabled JobMeta.setEnabled
  split
  · next enabled _ =>
    cases enabled with
    | false => exact hfield entry.job false entry.job.nextRun
    | true =>
      dsimp only
      rw [if_pos rfl]
      split
      · next next _ => exact hfield entry.job true (some next)
      · exact hfield entry.job true entry.job.nextRun
  · rfl

theorem keeps_patchAgentId (host : Host) (field : CronJob → β) (updates : Value)
    (hfield : ∀ (job : CronJob) (agentId : String),
      field { job with agentId := agentId } = field job) :
    Keeps field fun entry => entry.patchAgentId host updates := by
  intro entry
  unfold JobMeta.patchAgentId
  split
  · split
    · exact hfield entry.job _
    · rfl
  · rfl

theorem keeps_patchSchedule (host : Host) (field : CronJob → β) (updates : Value) (now : Time)
    (hfield : ∀ (job : CronJob) (next : Option Time) (schedule : CronSchedule),
      field { job with nextRun := next, schedule := schedule } = field job) :
    Keeps field fun entry => entry.patchSchedule host updates now := by
  refine keeps_patchPart updates "schedule" _ fun schedule entry => ?_
  dsimp only
  split
  · exact hfield entry.job _ schedule
  · rfl

theorem keeps_patchAction (host : Host) (field : CronJob → β) (updates : Value)
    (hfield : ∀ (job : CronJob) (action : CronAction),
      field { job with action := action } = field job) :
    Keeps field fun entry => entry.patchAction host updates :=
  keeps_patchPart updates "action" _ fun action entry => hfield entry.job action

theorem keeps_patchDelivery (host : Host) (field : CronJob → β) (updates : Value)
    (hfield : ∀ (job : CronJob) (delivery : CronDelivery),
      field { job with delivery := delivery } = field job) :
    Keeps field fun entry => entry.patchDelivery host updates :=
  keeps_patchPart updates "delivery" _ fun delivery entry => hfield entry.job delivery

theorem keeps_patchDeliveryTargets (host : Host) (field : CronJob → β) (updates : Value)
    (hfield : ∀ (job : CronJob) (targets : List CronDeliveryTarget),
      field { job with deliveryTargets := targets } = field job) :
    Keeps field fun entry => entry.patchDeliveryTargets host updates :=
  keeps_patchPart updates "delivery_targets" _ fun targets entry => hfield entry.job targets

theorem keeps_patchName (field : CronJob → β) (updates : Value)
    (hfield : ∀ (job : CronJob) (name : String), field { job with name := name } = field job) :
    Keeps field fun entry => entry.patchName updates := by
  intro entry
  unfold JobMeta.patchName
  split
  · exact hfield entry.job _
  · rfl

variable (host) (entry : JobMeta) (updates : Value) (now₁ now₂ : Time)

theorem name_patchIdentity : (entry.patchIdentity host updates now₁).1.job.name =
    ((updates.get "name").asStr).getD entry.job.name := by
  unfold JobMeta.patchIdentity
  dsimp only
  rw [(keeps_patchAgentId host CronJob.name updates fun _ _ => rfl).andThen,
    (keeps_patchEnabled host CronJob.name updates now₁ fun _ _ _ => rfl).andThen]
  unfold JobMeta.patchName
  cases (updates.get "name").asStr with
  | none => rfl
  | some name => rfl

theorem keeps_patchIdentity (field : CronJob → β)
    (hname : ∀ (job : CronJob) (name : String), field { job with name := name } = field job)
    (henabled : ∀ (job : CronJob) (enabled : Bool) (next : Option Time),
      field { job with enabled := enabled, nextRun := next } = field job)
    (hagent : ∀ (job : CronJob) (agentId : String),
      field { job with agentId := agentId } = field job) :
    field (entry.patchIdentity host updates now₁).1.job = field entry.job := by
  unfold JobMeta.patchIdentity
  dsimp only
  rw [(keeps_patchAgentId host field updates hagent).andThen,
    (keeps_patchEnabled host field updates now₁ henabled).andThen]
  exact keeps_patchName field updates hname entry

theorem name_patch : (entry.patch host updates now₁ now₂).1.job.name =
    ((updates.get "name").asStr).getD entry.job.name := by
  rw [patch_eq, (keeps_patchDeliveryTargets host CronJob.name updates fun _ _ => rfl).andThen,
    JobMeta.patchToDelivery,
    (keeps_patchDelivery host CronJob.name updates fun _ _ => rfl).andThen, JobMeta.patchToAction,
    (keeps_patchAction host CronJob.name updates fun _ _ => rfl).andThen, JobMeta.patchToSchedule,
    (keeps_patchSchedule host CronJob.name updates now₂ fun _ _ _ => rfl).andThen,
    name_patchIdentity]

theorem schedule_patch : (entry.patch host updates now₁ now₂).1.job.schedule =
    (entry.patchToSchedule host updates now₁ now₂).1.job.schedule := by
  rw [patch_eq, (keeps_patchDeliveryTargets host CronJob.schedule updates fun _ _ => rfl).andThen,
    JobMeta.patchToDelivery,
    (keeps_patchDelivery host CronJob.schedule updates fun _ _ => rfl).andThen,
    JobMeta.patchToAction,
    (keeps_patchAction host CronJob.schedule updates fun _ _ => rfl).andThen]

theorem action_patch : (entry.patch host updates now₁ now₂).1.job.action =
    (entry.patchToAction host updates now₁ now₂).1.job.action := by
  rw [patch_eq, (keeps_patchDeliveryTargets host CronJob.action updates fun _ _ => rfl).andThen,
    JobMeta.patchToDelivery,
    (keeps_patchDelivery host CronJob.action updates fun _ _ => rfl).andThen]

theorem delivery_patch : (entry.patch host updates now₁ now₂).1.job.delivery =
    (entry.patchToDelivery host updates now₁ now₂).1.job.delivery := by
  rw [patch_eq, (keeps_patchDeliveryTargets host CronJob.delivery updates fun _ _ => rfl).andThen]

theorem action_patchToSchedule : (entry.patchToSchedule host updates now₁ now₂).1.job.action =
    entry.job.action := by
  rw [JobMeta.patchToSchedule,
    (keeps_patchSchedule host CronJob.action updates now₂ fun _ _ _ => rfl).andThen]
  exact keeps_patchIdentity host entry updates now₁ CronJob.action (fun _ _ => rfl)
    (fun _ _ _ => rfl) fun _ _ => rfl

theorem delivery_patchToAction : (entry.patchToAction host updates now₁ now₂).1.job.delivery =
    entry.job.delivery := by
  rw [JobMeta.patchToAction,
    (keeps_patchAction host CronJob.delivery updates fun _ _ => rfl).andThen,
    JobMeta.patchToSchedule,
    (keeps_patchSchedule host CronJob.delivery updates now₂ fun _ _ _ => rfl).andThen]
  exact keeps_patchIdentity host entry updates now₁ CronJob.delivery (fun _ _ => rfl)
    (fun _ _ _ => rfl) fun _ _ => rfl

theorem deliveryTargets_patchToDelivery :
    (entry.patchToDelivery host updates now₁ now₂).1.job.deliveryTargets =
      entry.job.deliveryTargets := by
  rw [JobMeta.patchToDelivery,
    (keeps_patchDelivery host CronJob.deliveryTargets updates fun _ _ => rfl).andThen,
    JobMeta.patchToAction,
    (keeps_patchAction host CronJob.deliveryTargets updates fun _ _ => rfl).andThen,
    JobMeta.patchToSchedule,
    (keeps_patchSchedule host CronJob.deliveryTargets updates now₂ fun _ _ _ => rfl).andThen]
  exact keeps_patchIdentity host entry updates now₁ CronJob.deliveryTargets (fun _ _ => rfl)
    (fun _ _ _ => rfl) fun _ _ => rfl

end Fields

section Update

variable {host} {entry : JobMeta} {updates : Value} {now₁ now₂ : Time} {homeDir : String}

theorem schedule_ok_iff (ok : CronSchedule → Prop) (h : ok entry.job.schedule) :
    ok (entry.patch host updates now₁ now₂).1.job.schedule ↔
      ((entry.patchIdentity host updates now₁).2 = none →
        ∀ schedule, Brings updates "schedule" host.scheduleFromValue schedule →
          (computeNextRunAfter host schedule now₂).isSome → ok schedule) := by
  rw [schedule_patch]
  refine patchPart_ok_iff CronJob.schedule ok
    (fun schedule => (computeNextRunAfter host schedule now₂).isSome) ?_ ?_ ?_
  · rwa [keeps_patchIdentity host entry updates now₁ CronJob.schedule (fun _ _ => rfl)
      (fun _ _ _ => rfl) fun _ _ => rfl]
  · intro entry schedule hassigned
    obtain ⟨next, hnext⟩ := Option.isSome_iff_exists.mp hassigned
    dsimp only
    rw [hnext]
  · intro entry schedule hassigned
    dsimp only
    rw [Option.not_isSome_iff_eq_none.mp hassigned]

theorem action_ok_iff (h : validateAction host entry.job.action (some homeDir) = .ok ()) :
    validateAction host (entry.patchToAction host updates now₁ now₂).1.job.action (some homeDir) =
        .ok () ↔
      ((entry.patchToSchedule host updates now₁ now₂).2 = none →
        ∀ action, Brings updates "action" host.actionFromValue action →
          validateAction host action (some homeDir) = .ok ()) :=
  patchPart_ok_iff_of_set CronJob.action
    (fun action => validateAction host action (some homeDir) = .ok ())
    (by rwa [action_patchToSchedule]) fun _ _ => rfl

theorem delivery_ok_iff (h : validateDelivery entry.job.delivery = .ok ()) :
    validateDelivery (entry.patchToDelivery host updates now₁ now₂).1.job.delivery = .ok () ↔
      ((entry.patchToAction host updates now₁ now₂).2 = none →
        ∀ delivery, Brings updates "delivery" host.deliveryFromValue delivery →
          validateDelivery delivery = .ok ()) :=
  patchPart_ok_iff_of_set CronJob.delivery (fun delivery => validateDelivery delivery = .ok ())
    (by rwa [delivery_patchToAction]) fun _ _ => rfl

theorem deliveryTargets_ok_iff
    (h : validateDeliveryTargets 0 entry.job.deliveryTargets = .ok ()) :
    validateDeliveryTargets 0 (entry.patch host updates now₁ now₂).1.job.deliveryTargets = .ok () ↔
      ((entry.patchToDelivery host updates now₁ now₂).2 = none →
        ∀ targets, Brings updates "delivery_targets" host.targetsFromValue targets →
          validateDeliveryTargets 0 targets = .ok ()) := by
  rw [patch_eq]
  exact patchPart_ok_iff_of_set CronJob.deliveryTargets
    (fun targets => validateDeliveryTargets 0 targets = .ok ())
    (by rwa [deliveryTargets_patchToDelivery]) fun _ _ => rfl

theorem name_ok_iff (h : validateName host entry.job.name = .ok ()) :
    validateName host (entry.patch host updates now₁ now₂).1.job.name = .ok () ↔
      ∀ name, (updates.get "name").asStr = some name → validateName host name = .ok () := by
  rw [name_patch]
  cases (updates.get "name").asStr with
  | none => simpa using h
  | some name => simp

/-- **An update keeps a job well formed exactly when what it assigns passes the checks.** -/
theorem patch_wellFormed_iff (h : entry.job.WellFormed host homeDir) :
    (entry.patch host updates now₁ now₂).1.job.WellFormed host homeDir ↔
      entry.PatchValid host updates now₁ now₂ homeDir := by
  obtain ⟨hname, hschedule, haction, hdelivery, htargets⟩ := (CronJob.wellFormed_iff host).mp h
  rw [CronJob.wellFormed_iff, name_ok_iff hname, schedule_ok_iff _ hschedule, action_patch,
    action_ok_iff haction, delivery_patch, delivery_ok_iff hdelivery,
    deliveryTargets_ok_iff htargets]
  constructor
  · rintro ⟨hn, hs, ha, hd, ht⟩
    exact ⟨hn, hs, ha, hd, ht⟩
  · rintro ⟨hn, hs, ha, hd, ht⟩
    exact ⟨hn, hs, ha, hd, ht⟩

end Update

/-! ## The next run of a well-formed job -/

section NextRun

variable {host} {after next : Time}

theorem lt_of_addSeconds {secs : ℤ} (hpos : 0 < secs) (h : addSeconds after secs = some next) :
    after < next := by
  unfold addSeconds at h
  split at h
  · obtain rfl := Option.some.inj h
    exact Int.lt_add_of_pos_right after (Int.mul_pos hpos (by decide))
  · cases h

theorem asI64_of_le {n : ℕ} (h : n ≤ maxEverySecs) : asI64 n = n := by
  unfold asI64 maxEverySecs at *
  rw [Int.bmod_eq_of_le (by omega) (by omega)]

/-- **A well-formed schedule fires strictly later.** -/
theorem lt_computeNextRunAfter (hhost : NextIsLater host) {schedule : CronSchedule}
    (hwf : schedule.WellFormed) (h : computeNextRunAfter host schedule after = some next) :
    after < next := by
  cases schedule with
  | at_ time =>
    unfold computeNextRunAfter at h
    dsimp only at h
    split at h
    · next hlater =>
      obtain rfl := Option.some.inj h
      exact hlater
    · exact lt_of_addSeconds (by decide) h
  | every everySecs =>
    obtain ⟨hmin, hmax⟩ := CronSchedule.wellFormed_every.mp hwf
    unfold computeNextRunAfter at h
    refine lt_of_addSeconds ?_ h
    rw [asI64_of_le hmax]
    unfold minEverySecs at hmin
    omega
  | cron expr tz =>
    unfold computeNextRunAfter at h
    dsimp only at h
    cases hbase : addSeconds after 1 with
    | none =>
      rw [hbase] at h
      cases h
    | some base =>
      rw [hbase] at h
      dsimp only at h
      have hlater : after < base := lt_of_addSeconds (by decide) hbase
      split at h
      · cases hcron : host.cronNext (sevenField expr) (effectiveTz host tz) base with
        | none =>
          rw [hcron] at h
          exact lt_of_addSeconds (by decide) h
        | some next' =>
          rw [hcron] at h
          obtain rfl := Option.some.inj h
          exact Int.lt_of_lt_of_le hlater (hhost _ _ _ _ hcron)
      · exact lt_of_addSeconds (by decide) h

theorem preAdvance_not_due (hhost : NextIsLater host) {entry : JobMeta} {now : Time}
    (hwf : entry.job.schedule.WellFormed) (hgoes : (entry.preAdvance host now).2 = false)
    (henabled : (entry.preAdvance host now).1.job.enabled = true)
    (hnext : (entry.preAdvance host now).1.job.nextRun = some next) : now < next := by
  unfold JobMeta.preAdvance at hgoes henabled hnext
  by_cases hdue : entry.isDue now = true
  · simp only [hdue, if_true] at hgoes henabled hnext
    cases hcompute : computeNextRunAfter host entry.job.schedule now with
    | none =>
      rw [hcompute] at hgoes
      cases hgoes
    | some next' =>
      rw [hcompute] at hnext
      obtain rfl := Option.some.inj hnext
      exact lt_computeNextRunAfter hhost hwf hcompute
  · simp only [hdue, Bool.false_eq_true, if_false] at henabled hnext
    by_contra hle
    refine hdue ?_
    unfold JobMeta.isDue
    rw [henabled, hnext]
    simpa using Int.not_lt.mp hle

end NextRun

/-! ## Runs -/

section Runs

variable {host} {s : CronScheduler} {w : Ticking} {op : Op}

@[simp] theorem homeDir_onEntry (s : CronScheduler) (id : String)
    (f : JobMeta → JobMeta × Option Failure) : (onEntry s id f).2.homeDir = s.homeDir := by
  unfold onEntry
  split
  · rfl
  · rfl

@[simp] theorem homeDir_dropOneShot (s : CronScheduler) (id : String) :
    (dropOneShot s id).homeDir = s.homeDir := by
  unfold dropOneShot
  split
  · split
    · rfl
    · rfl
  · rfl

@[simp] theorem homeDir_apply (s : CronScheduler) (op : Op) :
    (apply host s op).homeDir = s.homeDir := by
  cases op with
  | addJob job oneShot now₁ now₂ =>
    obtain ⟨failure, heq⟩ | ⟨next, -, -, heq⟩ := addJob_cases host s job oneShot now₁ now₂
    · rw [apply, heq]
    · rw [apply, heq]
  | removeJob id =>
    simp only [apply, removeJob]
    split
    · rfl
    · rfl
  | setEnabled id enabled now => exact homeDir_onEntry s id _
  | updateJob id updates now₁ now₂ => exact homeDir_onEntry s id _
  | setDeliveryTargets id targets => exact homeDir_onEntry s id _
  | dueJobs now => rfl
  | markDueNowByAgent agentId now => rfl
  | recordSuccess id now => exact homeDir_dropOneShot _ id
  | recordSkipped id => exact homeDir_dropOneShot _ id
  | recordFailure id errorMsg now₁ now₂ =>
    exact (homeDir_dropOneShot _ id).trans (homeDir_onEntry s id _)
  | reassignAgentJobs oldAgentId newAgentId now => rfl
  | removeAgentJobs agentId => rfl

/-- What the checks look at. -/
def CronJob.SameChecked (job job' : CronJob) : Prop :=
  job'.name = job.name ∧ job'.schedule = job.schedule ∧ job'.action = job.action ∧
    job'.delivery = job.delivery ∧ job'.deliveryTargets = job.deliveryTargets

theorem CronJob.SameChecked.wellFormed {job job' : CronJob} {homeDir : String}
    (h : job.SameChecked job') (hwf : job.WellFormed host homeDir) :
    job'.WellFormed host homeDir := by
  obtain ⟨hname, hschedule, haction, hdelivery, htargets⟩ := h
  rw [CronJob.wellFormed_iff] at hwf ⊢
  rwa [hname, hschedule, haction, hdelivery, htargets]

theorem CronJob.SameChecked.refl (job : CronJob) : job.SameChecked job := ⟨rfl, rfl, rfl, rfl, rfl⟩

theorem rewrite_sameChecked {id : String} {entry : JobMeta}
    (hupdate : ∀ id' updates now₁ now₂, op ≠ .updateJob id' updates now₁ now₂)
    (htargets : ∀ id' targets, op ≠ .setDeliveryTargets id' targets) :
    entry.job.SameChecked (op.rewrite host id entry).job := by
  cases op with
  | addJob job oneShot now₁ now₂ => exact .refl _
  | removeJob id' => exact .refl _
  | setEnabled id' enabled now =>
    unfold Op.rewrite JobMeta.setEnabled
    dsimp only
    split
    · split
      · split <;> exact .refl entry.job
      · exact .refl entry.job
    · exact .refl _
  | updateJob id' updates now₁ now₂ => exact absurd rfl (hupdate id' updates now₁ now₂)
  | setDeliveryTargets id' targets => exact absurd rfl (htargets id' targets)
  | dueJobs now =>
    unfold Op.rewrite JobMeta.preAdvance
    dsimp only
    split
    · split <;> exact .refl entry.job
    · exact .refl _
  | markDueNowByAgent agentId now =>
    unfold Op.rewrite
    dsimp only
    split <;> exact .refl entry.job
  | recordSuccess id' now =>
    unfold Op.rewrite
    dsimp only
    split <;> exact .refl entry.job
  | recordSkipped id' =>
    unfold Op.rewrite
    dsimp only
    split <;> exact .refl entry.job
  | recordFailure id' errorMsg now₁ now₂ =>
    unfold Op.rewrite JobMeta.recordFailure
    dsimp only
    split
    · split
      · exact .refl entry.job
      · split
        · exact .refl entry.job
        · split <;> exact .refl entry.job
    · exact .refl _
  | reassignAgentJobs oldAgentId newAgentId now =>
    unfold Op.rewrite JobMeta.reassign
    dsimp only
    split
    · split
      · split <;> exact .refl entry.job
      · exact .refl entry.job
    · exact .refl _
  | removeAgentJobs agentId => exact .refl _

/-- **What is stored stays well formed under checked operations.** -/
theorem storedWellFormed_apply (h : StoredWellFormed host s) (hop : Checked host s op) :
    StoredWellFormed host (apply host s op) := by
  intro id entry' hlookup'
  rw [homeDir_apply]
  obtain ⟨job, oneShot, now₁, now₂, next, -, -, -, hwf, -, rfl⟩ | ⟨entry, hlookup, hentry⟩ :=
    apply_cases hlookup'
  · exact (show job.SameChecked _ from .refl job).wellFormed hwf
  have hold : entry.job.WellFormed host s.homeDir := h id entry hlookup
  obtain rfl | ⟨-, rfl⟩ := hentry
  · by_cases hupdate : ∃ id' updates now₁ now₂, op = .updateJob id' updates now₁ now₂
    · obtain ⟨id', updates, now₁, now₂, rfl⟩ := hupdate
      unfold Op.rewrite
      dsimp only
      split
      · next hid =>
        subst hid
        exact (patch_wellFormed_iff hold).mpr (hop entry hlookup)
      · exact hold
    by_cases htargets : ∃ id' targets, op = .setDeliveryTargets id' targets
    · obtain ⟨id', targets, rfl⟩ := htargets
      unfold Op.rewrite
      dsimp only
      split
      · next hid =>
        subst hid
        rw [CronJob.wellFormed_iff] at hold ⊢
        exact ⟨hold.1, hold.2.1, hold.2.2.1, hold.2.2.2.1, hop (by rw [hlookup]; rfl)⟩
      · exact hold
    · refine (rewrite_sameChecked ?_ ?_).wellFormed hold
      · rintro id' updates now₁ now₂ rfl
        exact hupdate ⟨id', updates, now₁, now₂, rfl⟩
      · rintro id' targets rfl
        exact htargets ⟨id', targets, rfl⟩
  · exact hold

theorem noRefire_dueJobs (hhost : NextIsLater host) (h : StoredWellFormed host s) {now : Time}
    (hok : (dueJobs host s now).1.isOk) : NoRefire (dueJobs host s now).2 now := by
  have hgoes : (s.jobs.visit fun _ entry => entry.preAdvance host now).2 = false := by
    by_contra hstopped
    rw [Bool.not_eq_false] at hstopped
    unfold dueJobs at hok
    dsimp only at hok
    rw [if_pos hstopped] at hok
    cases hok
  intro id entry' hlookup' henabled next hnext
  have hall : (dueJobs host s now).2.jobs.lookup id =
      (s.jobs.lookup id).map fun entry => (entry.preAdvance host now).1 :=
    Table.lookup_visit_of_not_stopped hgoes id
  rw [hall] at hlookup'
  obtain ⟨entry, hlookup, rfl⟩ := Option.map_eq_some_iff.mp hlookup'
  have hwf : entry.job.WellFormed host s.homeDir := h id entry hlookup
  exact preAdvance_not_due hhost ((CronJob.wellFormed_iff host).mp hwf).2.1
    (Table.not_stopped_of_lookup hgoes hlookup) henabled hnext

theorem sound_tick (hhost : NextIsLater host) (h : Sound host w) (hop : Checked host w.scheduler op) :
    Sound host (tick host w op) := by
  refine ⟨storedWellFormed_apply h.1 hop, fun now hnow => ?_⟩
  cases op with
  | dueJobs now' =>
    unfold tick at hnow
    dsimp only at hnow
    split at hnow
    · next hok =>
      obtain rfl := Option.some.inj hnow
      exact noRefire_dueJobs hhost h.1 hok
    · cases hnow
  | _ => cases hnow

theorem checked_of_sound (h : Sound host w) (hafter : Sound host (tick host w op)) :
    Checked host w.scheduler op := by
  have hlater (id : String) (entry' : JobMeta)
      (hlookup : (apply host w.scheduler op).jobs.lookup id = some entry') :
      entry'.job.WellFormed host w.scheduler.homeDir := by
    have := hafter.1 id entry' hlookup
    rwa [show (tick host w op).scheduler.homeDir = _ from homeDir_apply w.scheduler op] at this
  cases op with
  | updateJob id updates now₁ now₂ =>
    intro entry hlookup
    refine (patch_wellFormed_iff (h.1 id entry hlookup)).mp (hlater id _ ?_)
    unfold apply updateJob onEntry
    dsimp only
    rw [hlookup]
    exact (Table.lookup_modify_self id _).trans (congrArg (Option.map _) hlookup)
  | setDeliveryTargets id targets =>
    intro hstored
    obtain ⟨entry, hlookup⟩ := Option.isSome_iff_exists.mp hstored
    have hwf := hlater id { entry with job := { entry.job with deliveryTargets := targets } } (by
      unfold apply setDeliveryTargets onEntry
      dsimp only
      rw [hlookup]
      exact (Table.lookup_modify_self id _).trans (congrArg (Option.map _) hlookup))
    exact ((CronJob.wellFormed_iff host).mp hwf).2.2.2.2
  | _ => trivial

end Runs

/-- **Runs.** From an empty scheduler, every stored job stays well formed and none is due right
after a tick exactly when every operation assigns only what passes the checks. -/
theorem sound_iff_checked (hhost : NextIsLater host) (homeDir : String) (maxTotalJobs : ℕ)
    (ops : List Op) :
    (∀ before rest, ops = before ++ rest →
      Sound host (after (tick host) ⟨.new homeDir maxTotalJobs, none⟩ before)) ↔
      Along (tick host) (fun w op => Checked host w.scheduler op)
        ⟨.new homeDir maxTotalJobs, none⟩ ops := by
  refine along_iff_of_strengthening (I := Sound host) (fun _ h => h)
    (fun _ _ h hafter => checked_of_sound h hafter) (fun _ _ h hop => sound_tick hhost h hop) ?_
  refine ⟨?_, fun now hnow => ?_⟩
  · intro id entry hlookup
    cases hlookup
  · cases hnow

/-- Surroundings in which the interval of a job can be given as `"every_secs": 0`. -/
def everySecsHost : Host :=
  { sampleHost with
    scheduleFromValue := fun value =>
      match value.get "every_secs" with
      | .number "0" => .ok (.every 0)
      | .number "120" => .ok (.every 120)
      | _ => .error "missing field" }

/-- A new interval for the sample job, in the words of the API. -/
def changeInterval (everySecs : String) : List Op :=
  [.addJob sampleJob false 0 0,
    .updateJob "j" (.object [("schedule", .object [("kind", .string "every"),
      ("every_secs", .number everySecs)])]) 0 0,
    .dueJobs (3600 * second)]

theorem sound_changeInterval : (∀ before rest, changeInterval "120" = before ++ rest →
      Sound everySecsHost (after (tick everySecsHost) ⟨.new "/home" 10, none⟩ before)) ↔
      Along (tick everySecsHost) (fun w op => Checked everySecsHost w.scheduler op)
        ⟨.new "/home" 10, none⟩ (changeInterval "120") :=
  sound_iff_checked everySecsHost (by rintro _ _ _ _ ⟨⟩) "/home" 10 _

/-- An interval of no seconds is stored, and the job is due again right after the tick. -/
theorem zeroInterval_refires :
    ¬ Sound everySecsHost
      (after (tick everySecsHost) ⟨.new "/home" 10, none⟩ (changeInterval "0")) := by
  rintro ⟨-, hquiet⟩
  exact absurd (hquiet (3600 * second) rfl "j" _ rfl rfl _ rfl) (by decide)

end LibreFang.Cron
