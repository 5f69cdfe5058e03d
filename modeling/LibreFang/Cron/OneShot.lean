import LibreFang.Cron.WellFormed

/-!
# One-shot jobs

A job with an `At` schedule is meant to run once.

* `JobMeta.catchUp`, `loadJobs`: the operations of the scheduler that start a daemon.
* `Trail`: what has become of a job since it was added; `Service`: the scheduler, its file and the
  trails; `Call`, `serve`: any operation.
* **`runOnce_of_undisturbed`**: in a run of undisturbed calls, `RunOnce` holds in every state.
-/

namespace LibreFang.Cron

open Runs

variable (host : Host)

/-! ## Starting the daemon -/

/-- `Duration::num_seconds` of the time from one instant to another. -/
def secondsBetween (start stop : Time) : ℤ := (stop - start).tdiv second

/-- The interval `CronScheduler::warn_missed_fires` divides by; `none` when the clock panics. -/
def missedInterval (schedule : CronSchedule) (nextRun now : Time) : Option ℤ :=
  match schedule with
  | .every everySecs => some (asI64 everySecs)
  | .at_ _ => some (secondsBetween nextRun now)
  | .cron .. =>
    (computeNextRunAfter host schedule nextRun).map fun next => max (secondsBetween nextRun next) 1

/-- The entry after `CronScheduler::warn_missed_fires` has passed it, and whether it panicked: a time
out of range, or a division by an interval of no seconds. -/
def JobMeta.catchUp (entry : JobMeta) (now : Time) : JobMeta × Bool :=
  match entry.job.enabled, entry.job.nextRun with
  | true, some nextRun =>
    match addSeconds now (-60) with
    | none => (entry, true)
    | some grace =>
      if nextRun < grace then
        match missedInterval host entry.job.schedule nextRun now with
        | none | some 0 => (entry, true)
        | some _ => ({ entry with job := { entry.job with nextRun := some now } }, false)
      else (entry, false)
  | _, _ => (entry, false)

/-- `CronScheduler::warn_missed_fires`. -/
def warnMissedFires (s : CronScheduler) (now : Time) : CronScheduler :=
  { s with jobs := (s.jobs.visit fun _ entry => entry.catchUp host now).1 }

/-- The file that `CronScheduler::persist` writes. -/
def persisted (s : CronScheduler) : List JobMeta := s.jobs.entries.map (·.2)

/-- `CronScheduler::load`. -/
def loadJobs (s : CronScheduler) (file : List JobMeta) : CronScheduler :=
  { s with jobs := file.foldl (fun jobs entry => jobs.insert entry.job.id entry) s.jobs }

/-! ## What becomes of a job -/

/-- The job is to run at a given time. -/
def CronSchedule.isAt : CronSchedule → Bool
  | .at_ _ => true
  | _ => false

/-- What has become of a job since it was added. -/
structure Trail where
  /-- The ticks that returned it as an `At` job, since it was last enabled or updated. -/
  returned : List Time
  /-- `mark_due_now_by_agent` has brought it forward. -/
  marked : Bool
  /-- A tick has returned it as an `At` job, and the outcome is not yet recorded. -/
  running : Bool
  /-- That outcome has been recorded. -/
  settled : Bool
  /-- One of this has happened since the file was written. -/
  unsaved : Bool
  deriving DecidableEq, Repr

/-- A job of which nothing is known. -/
def Trail.fresh : Trail := ⟨[], false, false, false, false⟩

/-- The outcome of a job is recorded. -/
def Trail.settle (t : Trail) : Trail :=
  if t.running then { t with running := false, settled := true, unsaved := true } else t

/-- The trail of a job after an operation. -/
def Trail.note (s : CronScheduler) (op : Op) (id : String) (t : Trail) : Trail :=
  match op with
  | .addJob job oneShot now₁ now₂ =>
    if id = job.id ∧ (addJob host s job oneShot now₁ now₂).1.isOk then
      { Trail.fresh with unsaved := true }
    else t
  | .setEnabled id' enabled _ => if id = id' ∧ enabled then { t with returned := [] } else t
  | .updateJob id' _ _ _ => if id = id' then { t with returned := [] } else t
  | .dueJobs now =>
    if (dueJobs host s now).1.isOk ∧
        (s.jobs.lookup id).any fun entry => entry.isDue now && entry.job.schedule.isAt then
      { t with returned := now :: t.returned, running := true, unsaved := true }
    else t
  | .markDueNowByAgent agentId _ =>
    if (s.jobs.lookup id).any fun entry => entry.job.agentId == agentId && entry.job.enabled then
      { t with marked := true }
    else t
  | .recordSuccess id' _ | .recordSkipped id' | .recordFailure id' _ _ _ =>
    if id = id' then t.settle else t
  | .removeJob _ | .setDeliveryTargets .. | .reassignAgentJobs .. | .removeAgentJobs _ => t

/-- The scheduler, the jobs in its file, and what has become of each job. -/
structure Service where
  scheduler : CronScheduler
  file : List JobMeta
  trail : String → Trail

/-- A service that has just been set up. -/
def Service.new (homeDir : String) (maxTotalJobs : ℕ) : Service :=
  ⟨.new homeDir maxTotalJobs, [], fun _ => .fresh⟩

/-- An operation of the scheduler; `restart` builds a new one for the same file. -/
inductive Call
  | op (op : Op)
  | setMaxTotalJobs (newMax : ℕ)
  | warnMissedFires (now : Time)
  | persist
  | restart (maxTotalJobs : ℕ)
  | load

/-- The service after a call. -/
def serve (w : Service) : Call → Service
  | .op op => ⟨apply host w.scheduler op, w.file, fun id => (w.trail id).note host w.scheduler op id⟩
  | .setMaxTotalJobs newMax => { w with scheduler := { w.scheduler with maxTotalJobs := newMax } }
  | .warnMissedFires now => { w with scheduler := warnMissedFires host w.scheduler now }
  | .persist =>
    { w with file := persisted w.scheduler, trail := fun id => { w.trail id with unsaved := false } }
  | .restart maxTotalJobs => { w with scheduler := .new w.scheduler.homeDir maxTotalJobs }
  | .load => { w with scheduler := loadJobs w.scheduler w.file }

/-- **One-shot jobs run once.** -/
def RunOnce (w : Service) : Prop :=
  (w.scheduler.jobs.Forall fun _ entry => entry.job.schedule.isAt = true → entry.oneShot = true) ∧
    (∀ id, (w.trail id).marked = false → (w.trail id).returned.length ≤ 1) ∧
    ∀ id, (w.trail id).settled = true → w.scheduler.jobs.lookup id = none

/-- How far `compute_next_run_after` puts off an `At` job whose time has come. -/
def century : Time := 36500 * 86400 * second

/-- The tick comes before the time to which the enabled `At` jobs that were returned are put off. -/
def Service.WithinCentury (w : Service) (now : Time) : Prop :=
  ∀ id entry, w.scheduler.jobs.lookup id = some entry → entry.job.enabled = true →
    (w.trail id).marked = false → ∀ time ∈ (w.trail id).returned, now < time + century

/-- No update stores an `At` schedule in a job that is not one-shot, no tick comes a century after
the one that returned a job that is still stored, and a file that is loaded has been written since
the `At` jobs in it were added, returned and reported. -/
def Undisturbed (w : Service) : Call → Prop
  | .op (.updateJob id updates now₁ now₂) =>
    ∀ entry, w.scheduler.jobs.lookup id = some entry → entry.oneShot = false →
      (entry.patchIdentity host updates now₁).2 = none →
      ∀ schedule, Brings updates "schedule" host.scheduleFromValue schedule →
        (computeNextRunAfter host schedule now₂).isSome → schedule.isAt = false
  | .op (.dueJobs now) | .warnMissedFires now => w.WithinCentury now
  | .load => ∀ entry ∈ w.file, (w.trail entry.job.id).unsaved = false
  | _ => True

/-! ## What fits an entry -/

/-- The next run of an `At` job is not before its time. -/
def JobMeta.OnTime (entry : JobMeta) : Prop :=
  ∀ time next, entry.job.schedule = .at_ time → entry.job.nextRun = some next → time ≤ next

/-- An `At` job is one-shot, and the scheduler has disabled no one-shot job. -/
structure JobMeta.Single (entry : JobMeta) : Prop where
  oneShot : entry.job.schedule.isAt = true → entry.oneShot = true
  notAuto : entry.oneShot = true → entry.autoDisabled = false

/-- A stored entry fits the trail of its job. -/
structure Fits (t : Trail) (entry : JobMeta) : Prop extends entry.Single where
  running : t.running = true → entry.oneShot = true
  settled : t.settled = false
  onTime : t.marked = false → entry.OnTime
  returned : t.marked = false → ∀ time ∈ t.returned,
    entry.oneShot = true ∧ entry.job.nextRun = some (time + century)

section Entries

variable {host} {t : Trail} {entry entry' : JobMeta}

theorem century_pos : 0 < century := by decide

theorem lt_of_addSeconds_neg {now grace : ℤ} (h : addSeconds now (-60) = some grace) :
    grace < now := by
  have hgrace : grace = now + -60 * second := addSeconds_eq h
  have hsecond : (0 : ℤ) < second := by decide
  omega

theorem onTime_of_computeNextRunAfter {schedule : CronSchedule} {now next : Time}
    (h : computeNextRunAfter host schedule now = some next) (time : Time)
    (hat : schedule = .at_ time) : time ≤ next := by
  subst hat
  unfold computeNextRunAfter at h
  dsimp only at h
  split at h
  · exact Int.le_of_eq (Option.some.inj h)
  · next hpast =>
    have hnext : next = now + century := addSeconds_eq h
    rw [hnext]
    exact Int.le_trans (Int.not_lt.mp hpast) (Int.le_add_of_nonneg_right (Int.le_of_lt century_pos))

theorem computeNextRunAfter_of_past {time now next : Time} (hpast : time ≤ now)
    (h : computeNextRunAfter host (.at_ time) now = some next) : next = now + century := by
  unfold computeNextRunAfter at h
  dsimp only at h
  rw [if_neg (Int.not_lt.mpr hpast)] at h
  exact addSeconds_eq h

theorem fits_fresh (h : entry.Single) (htime : entry.OnTime) :
    Fits { Trail.fresh with unsaved := true } entry where
  toSingle := h
  running := nofun
  settled := rfl
  onTime _ := htime
  returned _ _ := nofun

theorem Fits.single (h : Fits t entry) : entry.Single := h.toSingle

theorem Fits.restart (h : Fits t entry) : Fits { t with returned := [] } entry :=
  { h with returned := fun _ => nofun }

theorem Fits.mark (h : Fits t entry) : Fits { t with marked := true } entry :=
  { h with onTime := nofun, returned := nofun }

theorem Fits.congr (h : Fits t entry) (hschedule : entry'.job.schedule = entry.job.schedule)
    (hnext : entry'.job.nextRun = entry.job.nextRun) (hshot : entry'.oneShot = entry.oneShot)
    (hauto : entry.autoDisabled = false → entry'.autoDisabled = false) : Fits t entry' where
  oneShot := by rw [hschedule, hshot]; exact h.oneShot
  notAuto := by rw [hshot]; exact fun hone => hauto (h.notAuto hone)
  running := by rw [hshot]; exact h.running
  settled := h.settled
  onTime hmarked := by
    unfold JobMeta.OnTime
    rw [hschedule, hnext]
    exact h.onTime hmarked
  returned := by rw [hshot, hnext]; exact h.returned

/-! ## What each operation does to an entry -/

theorem isAt_iff {schedule : CronSchedule} :
    schedule.isAt = true ↔ ∃ time, schedule = .at_ time := by
  cases schedule with
  | at_ time => exact ⟨fun _ => ⟨time, rfl⟩, fun _ => rfl⟩
  | every everySecs => exact ⟨nofun, nofun⟩
  | cron expr tz => exact ⟨nofun, nofun⟩

/-- What a rewritten entry must keep to fit a trail that has just been started anew. -/
structure Reset (entry entry' : JobMeta) : Prop where
  id : entry'.job.id = entry.job.id
  oneShot : entry'.oneShot = entry.oneShot
  notAuto : entry.autoDisabled = false → entry'.autoDisabled = false
  onTime : entry.OnTime → entry'.OnTime

theorem Reset.refl (entry : JobMeta) : Reset entry entry := ⟨rfl, rfl, fun h => h, fun h => h⟩

theorem Reset.trans {entry'' : JobMeta} (h : Reset entry entry') (h' : Reset entry' entry'') :
    Reset entry entry'' where
  id := h'.id.trans h.id
  oneShot := h'.oneShot.trans h.oneShot
  notAuto := h'.notAuto ∘ h.notAuto
  onTime := h'.onTime ∘ h.onTime

theorem Reset.of_same (hid : entry'.job.id = entry.job.id) (hshot : entry'.oneShot = entry.oneShot)
    (hauto : entry'.autoDisabled = entry.autoDisabled)
    (hschedule : entry'.job.schedule = entry.job.schedule)
    (hnext : entry'.job.nextRun = entry.job.nextRun) : Reset entry entry' where
  id := hid
  oneShot := hshot
  notAuto := by rw [hauto]; exact fun h => h
  onTime := by unfold JobMeta.OnTime; rw [hschedule, hnext]; exact fun h => h

theorem reset_setEnabled (entry : JobMeta) (enabled : Bool) (now : Time) :
    Reset entry (entry.setEnabled host enabled now).1 := by
  unfold JobMeta.setEnabled
  dsimp only
  cases enabled with
  | false => exact ⟨rfl, rfl, fun _ => rfl, fun h => h⟩
  | true =>
    rw [if_pos rfl]
    cases hnext : computeNextRunAfter host entry.job.schedule now with
    | none => exact ⟨rfl, rfl, fun _ => rfl, fun h => h⟩
    | some next =>
      refine ⟨rfl, rfl, fun _ => rfl, fun _ time next' hat hnext' => ?_⟩
      obtain rfl := Option.some.inj hnext'
      exact onTime_of_computeNextRunAfter hnext time hat

/-- A part of an update that keeps what a restarted trail speaks of. -/
def Resets (f : JobMeta → JobMeta × Option Failure) : Prop := ∀ entry, Reset entry (f entry).1

theorem Resets.andThen {f : JobMeta → JobMeta × Option Failure} (hf : Resets f)
    {r : JobMeta × Option Failure} (h : Reset entry r.1) : Reset entry (andThen r f).1 := by
  rcases r with ⟨entry', _ | failure⟩
  · exact h.trans (hf entry')
  · exact h

theorem resets_patchPart {α : Type} (updates : Value) (key : String)
    (fromValue : Value → Except String α) {set : JobMeta → α → JobMeta × Option Failure}
    (hset : ∀ part, Resets fun entry => set entry part) :
    Resets fun entry => entry.patchPart updates key fromValue (set entry) := by
  intro entry
  unfold JobMeta.patchPart
  split
  · exact .refl entry
  · split
    · exact hset _ entry
    · exact .refl entry

theorem reset_patchName (entry : JobMeta) (updates : Value) :
    Reset entry (entry.patchName updates).1 := by
  unfold JobMeta.patchName
  split
  · exact .of_same rfl rfl rfl rfl rfl
  · exact .refl entry

theorem resets_patchEnabled (updates : Value) (now : Time) :
    Resets fun entry => entry.patchEnabled host updates now := by
  intro entry
  unfold JobMeta.patchEnabled
  split
  · exact reset_setEnabled entry _ now
  · exact .refl entry

theorem resets_patchAgentId (updates : Value) :
    Resets fun entry => entry.patchAgentId host updates := by
  intro entry
  unfold JobMeta.patchAgentId
  split
  · split
    · exact .of_same rfl rfl rfl rfl rfl
    · exact .refl entry
  · exact .refl entry

theorem resets_patchSchedule (updates : Value) (now : Time) :
    Resets fun entry => entry.patchSchedule host updates now := by
  refine resets_patchPart updates "schedule" _ fun schedule entry => ?_
  dsimp only
  cases hnext : computeNextRunAfter host schedule now with
  | none => exact .refl entry
  | some next =>
    refine ⟨rfl, rfl, fun h => h, fun _ time next' hat hnext' => ?_⟩
    obtain rfl := Option.some.inj hnext'
    exact onTime_of_computeNextRunAfter hnext time hat

theorem reset_patch (entry : JobMeta) (updates : Value) (now₁ now₂ : Time) :
    Reset entry (entry.patch host updates now₁ now₂).1 := by
  unfold JobMeta.patch JobMeta.patchIdentity
  dsimp only
  refine (resets_patchPart updates "delivery_targets" _ fun _ _ => ?_).andThen ?_
  · exact .of_same rfl rfl rfl rfl rfl
  refine (resets_patchPart updates "delivery" _ fun _ _ => ?_).andThen ?_
  · exact .of_same rfl rfl rfl rfl rfl
  refine (resets_patchPart updates "action" _ fun _ _ => ?_).andThen ?_
  · exact .of_same rfl rfl rfl rfl rfl
  refine (resets_patchSchedule updates now₂).andThen ?_
  refine (resets_patchAgentId updates).andThen ?_
  exact (resets_patchEnabled updates now₁).andThen (reset_patchName entry updates)

theorem Fits.reset (h : Fits t entry) (hreset : Reset entry entry')
    (hshot : entry'.job.schedule.isAt = true → entry.oneShot = true) :
    Fits { t with returned := [] } entry' where
  oneShot hat := hreset.oneShot.trans (hshot hat)
  notAuto hone := hreset.notAuto (h.notAuto (hreset.oneShot.symm.trans hone))
  running hrunning := hreset.oneShot.trans (h.running hrunning)
  settled := h.settled
  onTime hmarked := hreset.onTime (h.onTime hmarked)
  returned _ := nofun

/-- The tick is not late for a returned job. -/
def Trail.NotLate (t : Trail) (entry : JobMeta) (now : Time) : Prop :=
  entry.job.enabled = true → t.marked = false → ∀ time ∈ t.returned, now < time + century

variable {now : Time}

theorem Fits.not_due (h : Fits t entry) (hlate : t.NotLate entry now)
    (hdue : entry.isDue now = true) (hmarked : t.marked = false) : t.returned = [] := by
  obtain ⟨henabled, next, hnext, hle⟩ := isDue_iff.mp hdue
  by_contra hne
  obtain ⟨time, htime⟩ := List.exists_mem_of_ne_nil _ hne
  have hlt := hlate henabled hmarked time htime
  obtain rfl := Option.some.inj (((h.returned hmarked time htime).2.symm).trans hnext)
  exact absurd hle (Int.not_le.mpr hlt)

theorem Fits.reschedule (h : Fits t entry) (hschedule : entry'.job.schedule = entry.job.schedule)
    (hshot : entry'.oneShot = entry.oneShot)
    (hauto : entry.autoDisabled = false → entry'.autoDisabled = false)
    (htime : entry.OnTime → entry'.OnTime) (hnone : t.marked = false → t.returned = []) :
    Fits t entry' where
  oneShot := by rw [hschedule, hshot]; exact h.oneShot
  notAuto := by rw [hshot]; exact fun hone => hauto (h.notAuto hone)
  running := by rw [hshot]; exact h.running
  settled := h.settled
  onTime hmarked := htime (h.onTime hmarked)
  returned hmarked := by rw [hnone hmarked]; exact nofun

theorem onTime_computed {next now : Time}
    (hnext : computeNextRunAfter host entry.job.schedule now = some next)
    (hschedule : entry'.job.schedule = entry.job.schedule)
    (hrun : entry'.job.nextRun = some next) : entry'.OnTime := by
  intro time next' hat hnext'
  obtain rfl := Option.some.inj (hrun.symm.trans hnext')
  exact onTime_of_computeNextRunAfter hnext time (hschedule.symm.trans hat)

theorem fits_preAdvance (h : Fits t entry) (hlate : t.NotLate entry now) :
    Fits t (entry.preAdvance host now).1 := by
  unfold JobMeta.preAdvance
  cases hdue : entry.isDue now with
  | false => exact h
  | true =>
    rw [if_pos rfl]
    cases hnext : computeNextRunAfter host entry.job.schedule now with
    | none => exact h
    | some next =>
      exact h.reschedule rfl rfl (fun hauto => hauto) (fun _ => onTime_computed hnext rfl rfl)
        (h.not_due hlate hdue)

theorem nextRun_preAdvance (h : entry.OnTime) (hdue : entry.isDue now = true)
    (hat : entry.job.schedule.isAt = true) (hgoes : (entry.preAdvance host now).2 = false) :
    (entry.preAdvance host now).1.job.nextRun = some (now + century) := by
  obtain ⟨time, hschedule⟩ := isAt_iff.mp hat
  obtain ⟨-, due, hdueTime, hle⟩ := isDue_iff.mp hdue
  have hpast : time ≤ now := Int.le_trans (h time due hschedule hdueTime) hle
  unfold JobMeta.preAdvance at hgoes ⊢
  rw [if_pos hdue, hschedule] at hgoes ⊢
  cases hnext : computeNextRunAfter host (.at_ time) now with
  | none =>
    rw [hnext] at hgoes
    cases hgoes
  | some next =>
    dsimp only
    rw [computeNextRunAfter_of_past hpast hnext]

theorem oneShot_preAdvance (entry : JobMeta) (now : Time) :
    (entry.preAdvance host now).1.oneShot = entry.oneShot := by
  unfold JobMeta.preAdvance
  split
  · split <;> rfl
  · rfl

theorem fits_returned (h : Fits t entry) (hlate : t.NotLate entry now)
    (hdue : entry.isDue now = true) (hat : entry.job.schedule.isAt = true)
    (hgoes : (entry.preAdvance host now).2 = false) :
    Fits { t with returned := now :: t.returned, running := true, unsaved := true }
      (entry.preAdvance host now).1 := by
  have hadvanced : Fits t (entry.preAdvance host now).1 := fits_preAdvance h hlate
  have hshot : (entry.preAdvance host now).1.oneShot = true := by
    rw [oneShot_preAdvance]
    exact h.oneShot hat
  refine ⟨hadvanced.single, fun _ => hshot, h.settled, hadvanced.onTime,
    fun hmarked time htime => ⟨hshot, ?_⟩⟩
  rw [h.not_due hlate hdue hmarked, List.mem_singleton] at htime
  rw [htime]
  exact nextRun_preAdvance (h.onTime hmarked) hdue hat hgoes

theorem fits_catchUp (h : Fits t entry) (hlate : t.NotLate entry now) :
    Fits t (entry.catchUp host now).1 := by
  unfold JobMeta.catchUp
  cases henabled : entry.job.enabled with
  | false => exact h
  | true =>
    cases hnext : entry.job.nextRun with
    | none => exact h
    | some next =>
      dsimp only
      cases hgrace : addSeconds now (-60) with
      | none => exact h
      | some grace =>
        dsimp only
        split
        · next hmissed =>
          have hle : next ≤ now :=
            Int.le_of_lt (Int.lt_trans hmissed (lt_of_addSeconds_neg hgrace))
          have hdue : entry.isDue now = true := isDue_iff.mpr ⟨henabled, next, hnext, hle⟩
          split
          · exact h
          · exact h
          · refine h.reschedule rfl rfl (fun hauto => hauto) (fun htime time next' hat hnext' => ?_)
              (h.not_due hlate hdue)
            obtain rfl := Option.some.inj hnext'
            exact Int.le_trans (htime time next hat hnext) hle
        · exact h

theorem fits_reassign (h : Fits t entry) (oldAgentId newAgentId : String) (now : Time) :
    Fits t (entry.reassign host oldAgentId newAgentId now).1 := by
  unfold JobMeta.reassign
  split
  · dsimp only
    split
    · next hauto =>
      have hrecurring (hone : entry.oneShot = true) : False :=
        Bool.false_ne_true ((h.notAuto hone).symm.trans hauto.2)
      have hnone : t.marked = false → t.returned = [] := by
        intro hmarked
        by_contra hne
        obtain ⟨time, htime⟩ := List.exists_mem_of_ne_nil _ hne
        exact hrecurring (h.returned hmarked time htime).1
      cases hnext : computeNextRunAfter host entry.job.schedule now with
      | none => exact h.reschedule rfl rfl (fun _ => rfl) (fun htime => htime) hnone
      | some next =>
        exact h.reschedule rfl rfl (fun _ => rfl) (fun _ => onTime_computed hnext rfl rfl) hnone
    · exact h.congr rfl rfl rfl fun hauto => hauto
  · exact h

theorem fits_recorded (h : Fits t entry) (hschedule : entry'.job.schedule = entry.job.schedule)
    (hshot : entry'.oneShot = entry.oneShot) (hrecurring : entry'.oneShot = false) :
    Fits t.settle entry' := by
  have hold : entry.oneShot ≠ true := by
    rw [← hshot, hrecurring]
    exact Bool.false_ne_true
  have hnotAt : entry'.job.schedule.isAt ≠ true := by
    rw [hschedule]
    exact fun hat => hold (h.oneShot hat)
  have hsettle : t.settle = t := by
    unfold Trail.settle
    rw [if_neg]
    exact fun hrunning => hold (h.running hrunning)
  rw [hsettle]
  exact
    { oneShot := fun hat => absurd hat hnotAt
      notAuto := fun hone => absurd (hrecurring.symm.trans hone) Bool.false_ne_true
      running := fun hrunning => absurd (h.running hrunning) hold
      settled := h.settled
      onTime := fun _ time _ hat => absurd (isAt_iff.mpr ⟨time, hat⟩) hnotAt
      returned := fun hmarked time htime => absurd (h.returned hmarked time htime).1 hold }

end Entries

/-! ## Steps -/

/-- What holds of the service in every state. -/
structure Kept (w : Service) : Prop where
  stored : w.scheduler.jobs.Forall fun id entry => entry.job.id = id ∧ Fits (w.trail id) entry
  file : ∀ entry ∈ w.file, entry.Single ∧
    ((w.trail entry.job.id).unsaved = false → Fits (w.trail entry.job.id) entry)
  returned : ∀ id, (w.trail id).marked = false → (w.trail id).returned.length ≤ 1

section Steps

variable {host} {w : Service} {s : CronScheduler} {op : Op} {id : String} {t : Trail}
  {entry : JobMeta}

theorem recurring_of_lookup_dropOneShot
    (h : (dropOneShot s id).jobs.lookup id = some entry) : entry.oneShot = false := by
  unfold dropOneShot at h
  split at h
  case h_1 old hold =>
    split at h
    · rw [AList.lookup_erase] at h
      cases h
    · next hrecurring =>
      obtain rfl := Option.some.inj (hold.symm.trans h)
      exact Bool.not_eq_true _ ▸ hrecurring
  case h_2 hnone =>
    rw [hnone] at h
    cases h

theorem note_cases (host : Host) (s : CronScheduler) (op : Op) (id : String) (t : Trail) :
    t.note host s op id = t ∨ t.note host s op id = { t with returned := [] } ∨
      t.note host s op id = { t with marked := true } ∨ (t.note host s op id).unsaved = true := by
  have hsettle : t.settle = t ∨ t.settle.unsaved = true := by
    unfold Trail.settle
    split
    · exact .inr rfl
    · exact .inl rfl
  unfold Trail.note
  split
  case h_1 | h_4 =>
    split
    · exact .inr (.inr (.inr rfl))
    · exact .inl rfl
  case h_2 | h_3 =>
    split
    · exact .inr (.inl rfl)
    · exact .inl rfl
  case h_5 =>
    split
    · exact .inr (.inr (.inl rfl))
    · exact .inl rfl
  case h_6 | h_7 | h_8 =>
    split
    · exact hsettle.imp_right fun h => .inr (.inr h)
    · exact .inl rfl
  all_goals exact .inl rfl

theorem Fits.note (h : t.unsaved = false → Fits t entry)
    (hsaved : (t.note host s op id).unsaved = false) : Fits (t.note host s op id) entry := by
  obtain heq | heq | heq | hunsaved := note_cases host s op id t
  · rw [heq] at hsaved ⊢
    exact h hsaved
  · rw [heq] at hsaved ⊢
    exact (h hsaved).restart
  · rw [heq] at hsaved ⊢
    exact (h hsaved).mark
  · rw [hsaved] at hunsaved
    cases hunsaved

theorem fits_addJob {job : CronJob} {oneShot : Bool} {now₁ now₂ : Time}
    (h : s.jobs.Forall fun id entry => entry.job.id = id ∧ Fits (w.trail id) entry)
    (hlookup : (addJob host s job oneShot now₁ now₂).2.jobs.lookup id = some entry) :
    entry.job.id = id ∧
      Fits ((w.trail id).note host s (.addJob job oneShot now₁ now₂) id) entry := by
  obtain ⟨failure, heq⟩ | ⟨next, -, hnext, heq⟩ := addJob_cases host s job oneShot now₁ now₂
  · unfold Trail.note
    dsimp only
    rw [heq] at hlookup ⊢
    rw [if_neg fun hok => Bool.false_ne_true hok.2]
    exact h id entry hlookup
  · unfold Trail.note
    dsimp only
    rw [heq] at hlookup ⊢
    by_cases hid : id = job.id
    · rw [hid, AList.lookup_insert] at hlookup
      obtain rfl := Option.some.inj hlookup
      rw [if_pos ⟨hid, rfl⟩]
      refine ⟨hid.symm, fits_fresh ⟨fun hat => ?_, fun _ => rfl⟩ (onTime_computed hnext rfl rfl)⟩
      obtain ⟨time, hschedule⟩ := isAt_iff.mp hat
      have hschedule : job.schedule = .at_ time := hschedule
      unfold JobMeta.new
      dsimp only
      rw [hschedule, Bool.or_true]
    · rw [AList.lookup_insert_ne hid] at hlookup
      rw [if_neg fun hok => hid hok.1]
      exact h id entry hlookup

theorem fits_dueJobs (h : w.scheduler.jobs.Forall fun id entry =>
      entry.job.id = id ∧ Fits (w.trail id) entry) (hcentury : w.WithinCentury now)
    (hlookup : (dueJobs host w.scheduler now).2.jobs.lookup id = some entry) :
    entry.job.id = id ∧ Fits ((w.trail id).note host w.scheduler (.dueJobs now) id) entry := by
  have hid (old : JobMeta) : (old.preAdvance host now).1.job.id = old.job.id := by
    unfold JobMeta.preAdvance
    split
    · split <;> rfl
    · rfl
  unfold Trail.note
  dsimp only
  cases hgoes : (w.scheduler.jobs.visit fun _ entry => entry.preAdvance host now).2 with
  | true =>
    -- a tick that panics returns no job
    have hfailed : (dueJobs host w.scheduler now).1.isOk ≠ true := by
      unfold dueJobs
      dsimp only
      rw [if_pos hgoes]
      exact Bool.false_ne_true
    rw [if_neg fun hok => hfailed hok.1]
    obtain ⟨old, hold, rfl | rfl⟩ := lookup_visit_some hlookup
    · obtain ⟨holdId, hfits⟩ := h id old hold
      exact ⟨(hid old).trans holdId, fits_preAdvance hfits (hcentury id old hold)⟩
    · exact h id _ hold
  | false =>
    have hok : (dueJobs host w.scheduler now).1.isOk = true := by
      unfold dueJobs
      dsimp only
      rw [if_neg (hgoes ▸ Bool.false_ne_true)]
      rfl
    have hall : (dueJobs host w.scheduler now).2.jobs.lookup id =
        (w.scheduler.jobs.lookup id).map fun entry => (entry.preAdvance host now).1 :=
      Table.lookup_visit_of_not_stopped hgoes id
    rw [hall] at hlookup
    obtain ⟨old, hold, rfl⟩ := Option.map_eq_some_iff.mp hlookup
    obtain ⟨holdId, hfits⟩ := h id old hold
    refine ⟨(hid old).trans holdId, ?_⟩
    rw [hold, Option.any_some]
    split
    · next hreturned =>
      obtain ⟨hdue, hat⟩ := Bool.and_eq_true _ _ ▸ hreturned.2
      exact fits_returned hfits (hcentury id old hold) hdue hat
        (Table.not_stopped_of_lookup hgoes hold)
    · exact fits_preAdvance hfits (hcentury id old hold)

theorem isAt_patch {updates : Value} {now₁ now₂ : Time} (h : entry.Single)
    (hop : entry.oneShot = false → (entry.patchIdentity host updates now₁).2 = none →
      ∀ schedule, Brings updates "schedule" host.scheduleFromValue schedule →
        (computeNextRunAfter host schedule now₂).isSome → schedule.isAt = false)
    (hat : (entry.patch host updates now₁ now₂).1.job.schedule.isAt = true) :
    entry.oneShot = true := by
  by_contra hrecurring
  rw [Bool.not_eq_true] at hrecurring
  have hold : entry.job.schedule.isAt = false := by
    rw [Bool.eq_false_iff]
    exact fun hold => Bool.false_ne_true (hrecurring.symm.trans (h.oneShot hold))
  have hnot : (entry.patch host updates now₁ now₂).1.job.schedule.isAt = false :=
    (schedule_ok_iff (fun schedule => schedule.isAt = false) hold).mpr (hop hrecurring)
  exact Bool.false_ne_true (hnot.symm.trans hat)

theorem fits_onEntry {f : JobMeta → JobMeta × Option Failure} {id' : String} {t' : Trail}
    (h : w.scheduler.jobs.Forall fun id entry => entry.job.id = id ∧ Fits (w.trail id) entry)
    (hlookup : (onEntry w.scheduler id' f).2.jobs.lookup id = some entry)
    (hother : id ≠ id' → t' = w.trail id)
    (hf : id = id' → ∀ old, w.scheduler.jobs.lookup id = some old → Fits (w.trail id) old →
      (f old).1.job.id = old.job.id ∧ Fits t' (f old).1) :
    entry.job.id = id ∧ Fits t' entry := by
  obtain ⟨old, hold, rfl⟩ := lookup_onEntry hlookup
  obtain ⟨holdId, hfits⟩ := h id old hold
  by_cases hid : id = id'
  · obtain ⟨hkept, hnew⟩ := hf hid old hold hfits
    rw [if_pos hid]
    exact ⟨hkept.trans holdId, hnew⟩
  · rw [if_neg hid, hother hid]
    exact ⟨holdId, hfits⟩

theorem same_recordFailure (entry : JobMeta) (errorMsg : String) (now₁ now₂ : Time) :
    (entry.recordFailure host errorMsg now₁ now₂).1.job.id = entry.job.id ∧
      (entry.recordFailure host errorMsg now₁ now₂).1.job.schedule = entry.job.schedule ∧
      (entry.recordFailure host errorMsg now₁ now₂).1.oneShot = entry.oneShot := by
  unfold JobMeta.recordFailure
  dsimp only
  split
  · exact ⟨rfl, rfl, rfl⟩
  · split
    · exact ⟨rfl, rfl, rfl⟩
    · split <;> exact ⟨rfl, rfl, rfl⟩

theorem fits_record {s' : CronScheduler} {id' : String} {f : JobMeta → JobMeta}
    (h : w.scheduler.jobs.Forall fun id entry => entry.job.id = id ∧ Fits (w.trail id) entry)
    (hs' : ∀ entry, s'.jobs.lookup id = some entry → ∃ old,
      w.scheduler.jobs.lookup id = some old ∧ entry = if id = id' then f old else old)
    (hf : ∀ old, (f old).job.id = old.job.id ∧ (f old).job.schedule = old.job.schedule ∧
      (f old).oneShot = old.oneShot)
    (hlookup : (dropOneShot s' id').jobs.lookup id = some entry) :
    entry.job.id = id ∧ Fits (if id = id' then (w.trail id).settle else w.trail id) entry := by
  obtain ⟨old, hold, rfl⟩ := hs' entry (lookup_dropOneShot hlookup)
  obtain ⟨holdId, hfits⟩ := h id old hold
  by_cases hid : id = id'
  · subst hid
    have hrecurring := recurring_of_lookup_dropOneShot hlookup
    rw [if_pos rfl] at hrecurring ⊢
    rw [if_pos rfl]
    obtain ⟨hsame, hschedule, hshot⟩ := hf old
    exact ⟨hsame.trans holdId, fits_recorded hfits hschedule hshot hrecurring⟩
  · rw [if_neg hid, if_neg hid]
    exact ⟨holdId, hfits⟩

/-- **What an operation leaves fits the trails after it.** -/
theorem fits_apply (h : w.scheduler.jobs.Forall fun id entry =>
      entry.job.id = id ∧ Fits (w.trail id) entry)
    (hop : Undisturbed host w (.op op))
    (hlookup : (apply host w.scheduler op).jobs.lookup id = some entry) :
    entry.job.id = id ∧ Fits ((w.trail id).note host w.scheduler op id) entry := by
  cases op with
  | addJob job oneShot now₁ now₂ => exact fits_addJob h hlookup
  | removeJob id' => exact h id entry (lookup_removeJob hlookup)
  | setEnabled id' enabled now =>
    refine fits_onEntry h hlookup (fun hid => if_neg fun hboth => hid hboth.1) fun hid old _ hfits => ?_
    have hreset : Reset old (old.setEnabled host enabled now).1 := reset_setEnabled old enabled now
    refine ⟨hreset.id, ?_⟩
    unfold Trail.note
    dsimp only
    cases enabled with
    | false =>
      rw [if_neg fun hboth => Bool.false_ne_true hboth.2]
      exact hfits.congr rfl rfl rfl fun _ => rfl
    | true =>
      rw [if_pos ⟨hid, rfl⟩]
      refine hfits.reset hreset ?_
      unfold JobMeta.setEnabled
      dsimp only
      rw [if_pos rfl]
      split <;> exact hfits.oneShot
  | updateJob id' updates now₁ now₂ =>
    refine fits_onEntry h hlookup (fun hid => if_neg hid) fun hid old hold hfits => ?_
    have hreset : Reset old (old.patch host updates now₁ now₂).1 := reset_patch old updates now₁ now₂
    refine ⟨hreset.id, ?_⟩
    unfold Trail.note
    dsimp only
    rw [if_pos hid]
    exact hfits.reset hreset (isAt_patch hfits.single (hop old (hid ▸ hold)))
  | setDeliveryTargets id' targets =>
    exact fits_onEntry h hlookup (fun _ => rfl) fun _ _ _ hfits =>
      ⟨rfl, hfits.congr rfl rfl rfl fun hauto => hauto⟩
  | dueJobs now => exact fits_dueJobs h hop hlookup
  | markDueNowByAgent agentId now =>
    obtain ⟨old, hold, rfl⟩ := lookup_update_some hlookup
    obtain ⟨holdId, hfits⟩ := h id old hold
    unfold Trail.note
    dsimp only
    rw [hold, Option.any_some]
    by_cases hmarked : old.job.agentId = agentId ∧ old.job.enabled = true
    · rw [if_pos hmarked, if_pos (by simpa using hmarked)]
      exact ⟨holdId, { hfits.mark with onTime := nofun, returned := nofun }⟩
    · rw [if_neg hmarked, if_neg (by simpa using hmarked)]
      exact ⟨holdId, hfits⟩
  | recordSuccess id' now =>
    refine fits_record h (fun _ hmodified => lookup_modify_some hmodified) ?_ hlookup
    exact fun _ => ⟨rfl, rfl, rfl⟩
  | recordSkipped id' =>
    refine fits_record h (fun _ hmodified => lookup_modify_some hmodified) ?_ hlookup
    exact fun _ => ⟨rfl, rfl, rfl⟩
  | recordFailure id' errorMsg now₁ now₂ =>
    exact fits_record h (fun _ => lookup_onEntry)
      (fun old => same_recordFailure old errorMsg now₁ now₂) hlookup
  | reassignAgentJobs oldAgentId newAgentId now =>
    obtain ⟨old, hold, rfl | rfl⟩ := lookup_visit_some hlookup
    · obtain ⟨holdId, hfits⟩ := h id old hold
      refine ⟨Eq.trans ?_ holdId, fits_reassign hfits oldAgentId newAgentId (now id)⟩
      unfold JobMeta.reassign
      split
      · dsimp only
        split
        · split <;> rfl
        · rfl
      · rfl
    · exact h id _ hold
  | removeAgentJobs agentId => exact h id entry (lookup_removeAgentJobs hlookup)

theorem returned_note_of_not_tick (hop : ∀ now, op ≠ .dueJobs now)
    (hmarked : (t.note host s op id).marked = false) :
    (t.note host s op id).returned = [] ∨
      t.marked = false ∧ (t.note host s op id).returned = t.returned := by
  have hsettle : t.settle.marked = t.marked ∧ t.settle.returned = t.returned := by
    unfold Trail.settle
    split <;> exact ⟨rfl, rfl⟩
  revert hmarked
  unfold Trail.note
  split
  case h_4 now => exact absurd rfl (hop now)
  case h_1 | h_2 | h_3 =>
    split
    · exact fun _ => .inl rfl
    · exact fun hmarked => .inr ⟨hmarked, rfl⟩
  case h_5 =>
    split
    · exact nofun
    · exact fun hmarked => .inr ⟨hmarked, rfl⟩
  case h_6 | h_7 | h_8 =>
    split
    · exact fun hmarked => .inr ⟨hsettle.1.symm.trans hmarked, hsettle.2⟩
    · exact fun hmarked => .inr ⟨hmarked, rfl⟩
  all_goals exact fun hmarked => .inr ⟨hmarked, rfl⟩

theorem length_returned_note (h : Kept w) (hop : Undisturbed host w (.op op))
    (hmarked : ((w.trail id).note host w.scheduler op id).marked = false) :
    ((w.trail id).note host w.scheduler op id).returned.length ≤ 1 := by
  by_cases htick : ∃ now, op = .dueJobs now
  · obtain ⟨now, rfl⟩ := htick
    revert hmarked
    unfold Trail.note
    dsimp only
    split
    · next hreturned =>
      intro hmarked
      obtain ⟨entry, hlookup, hboth⟩ := (Option.any_eq_true ..).mp hreturned.2
      have hdue : entry.isDue now = true := ((Bool.and_eq_true ..).mp hboth).1
      have hnone : (w.trail id).returned = [] :=
        (h.stored id entry hlookup).2.not_due (hop id entry hlookup) hdue hmarked
      rw [hnone]
      exact Nat.le_refl 1
    · exact h.returned id
  · obtain hnone | ⟨hold, hsame⟩ :=
      returned_note_of_not_tick (fun now heq => htick ⟨now, heq⟩) hmarked
    · rw [hnone]
      exact Nat.zero_le 1
    · rw [hsame]
      exact h.returned id hold

theorem lookup_foldl_insert {file : List JobMeta} {jobs : Table String JobMeta}
    (h : (file.foldl (fun jobs entry => jobs.insert entry.job.id entry) jobs).lookup id =
      some entry) : (entry ∈ file ∧ entry.job.id = id) ∨ jobs.lookup id = some entry := by
  induction file generalizing jobs with
  | nil => exact .inr h
  | cons first file ih =>
    obtain ⟨hmem, hid⟩ | hold := ih h
    · exact .inl ⟨List.mem_cons_of_mem _ hmem, hid⟩
    · by_cases hfirst : id = first.job.id
      · rw [hfirst, AList.lookup_insert] at hold
        obtain rfl := Option.some.inj hold
        exact .inl ⟨List.mem_cons_self, hfirst.symm⟩
      · rw [AList.lookup_insert_ne hfirst] at hold
        exact .inr hold

theorem mem_persisted (h : entry ∈ persisted s) : ∃ id, s.jobs.lookup id = some entry := by
  obtain ⟨⟨id, entry'⟩, hmem, rfl⟩ := List.mem_map.mp h
  exact ⟨id, AList.mem_lookup_iff.mpr hmem⟩

/-- **One step**: an undisturbed call keeps every trail fitting. -/
theorem kept_serve {call : Call} (h : Kept w) (hcall : Undisturbed host w call) :
    Kept (serve host w call) := by
  cases call with
  | op op =>
    refine ⟨fun id entry hlookup => fits_apply h.stored hcall hlookup, fun entry hentry => ?_,
      fun id hmarked => length_returned_note h hcall hmarked⟩
    exact ⟨(h.file entry hentry).1, fun hsaved => .note (h.file entry hentry).2 hsaved⟩
  | setMaxTotalJobs newMax => exact ⟨h.stored, h.file, h.returned⟩
  | warnMissedFires now =>
    refine ⟨fun id entry' hlookup => ?_, h.file, h.returned⟩
    obtain ⟨entry, hentry, rfl | rfl⟩ := lookup_visit_some hlookup
    · obtain ⟨hid, hfits⟩ := h.stored id entry hentry
      refine ⟨Eq.trans ?_ hid, fits_catchUp hfits (hcall id entry hentry)⟩
      unfold JobMeta.catchUp
      split
      · split
        · rfl
        · split
          · split <;> rfl
          · rfl
      · rfl
    · exact h.stored id _ hentry
  | persist =>
    have hsaved (t : Trail) (entry : JobMeta) (hfits : Fits t entry) :
        Fits { t with unsaved := false } entry := { hfits with }
    refine ⟨fun id entry hlookup => ?_, fun entry hentry => ?_, h.returned⟩
    · obtain ⟨hid, hfits⟩ := h.stored id entry hlookup
      exact ⟨hid, hsaved _ _ hfits⟩
    · obtain ⟨id, hlookup⟩ := mem_persisted hentry
      obtain ⟨rfl, hfits⟩ := h.stored id entry hlookup
      exact ⟨hfits.single, fun _ => hsaved _ _ hfits⟩
  | restart maxTotalJobs =>
    refine ⟨fun id entry hlookup => ?_, h.file, h.returned⟩
    cases hlookup
  | load =>
    refine ⟨fun id entry hlookup => ?_, h.file, h.returned⟩
    obtain ⟨hmem, rfl⟩ | hold := lookup_foldl_insert hlookup
    · exact ⟨rfl, (h.file entry hmem).2 (hcall entry hmem)⟩
    · exact h.stored id entry hold

end Steps

/-! ## Runs -/

theorem Kept.runOnce {w : Service} (h : Kept w) : RunOnce w := by
  refine ⟨fun id entry hlookup => (h.stored id entry hlookup).2.oneShot, h.returned,
    fun id hsettled => ?_⟩
  cases hlookup : w.scheduler.jobs.lookup id with
  | none => rfl
  | some entry =>
    have hopen : (w.trail id).settled = false := (h.stored id entry hlookup).2.settled
    rw [hsettled] at hopen
    cases hopen

/-- **One-shot jobs run once.** In a run of undisturbed calls on a new scheduler, every stored `At`
job is one-shot, is returned by at most one tick unless it is enabled, updated or marked as due,
and is no longer stored once the outcome has been recorded. -/
theorem runOnce_of_undisturbed (homeDir : String) (maxTotalJobs : ℕ) (calls : List Call)
    (h : Along (serve host) (Undisturbed host) (.new homeDir maxTotalJobs) calls) :
    ∀ before rest, calls = before ++ rest →
      RunOnce (after (serve host) (.new homeDir maxTotalJobs) before) := by
  rintro before rest rfl
  have hnew : Kept (.new homeDir maxTotalJobs) := by
    refine ⟨fun id entry hlookup => ?_, fun entry hentry => ?_, fun _ _ => Nat.zero_le _⟩
    · cases hlookup
    · cases hentry
  exact (invariant (fun _ _ => kept_serve) hnew ((along_append _).mp h).1).runOnce

/-- A job that runs at one o'clock. -/
def oneOClock : CronJob := { sampleJob with schedule := .at_ (3600 * second) }

/-- The job is added, saved, run, and reported. -/
def runAtOne : List Call :=
  [.op (.addJob oneOClock false 0 0), .persist, .op (.dueJobs (3600 * second)),
    .op (.recordSuccess "j" (3601 * second))]

theorem runOnce_runAtOne : RunOnce (after (serve sampleHost) (.new "/home" 10) runAtOne) := by
  refine runOnce_of_undisturbed sampleHost "/home" 10 _ ?_ _ [] (List.append_nil _).symm
  refine ⟨trivial, trivial, fun id entry _ _ _ time htime => ?_, trivial, trivial⟩
  have hnone : ((serve sampleHost (serve sampleHost (.new "/home" 10)
      (.op (.addJob oneOClock false 0 0))) .persist).trail id).returned = [] := by
    by_cases hid : id = "j"
    · subst hid
      rfl
    · exact congrArg Trail.returned (if_neg fun h => hid h.1)
  rw [hnone] at htime
  cases htime

/-- Surroundings that can read one o'clock. -/
def oneOClockHost : Host :=
  { sampleHost with
    scheduleFromValue := fun value =>
      match value.get "at" with
      | .string "1970-01-01T01:00:00Z" => .ok (.at_ (3600 * second))
      | _ => .error "missing field" }

/-- An hourly job is changed to run at one o'clock; it runs then and is reported. -/
def changeToOne : List Call :=
  [.op (.addJob sampleJob false 0 0),
    .op (.updateJob "j" (.object [("schedule", .object [("kind", .string "at"),
      ("at", .string "1970-01-01T01:00:00Z")])]) 0 0),
    .op (.dueJobs (3600 * second)), .op (.recordSuccess "j" (3601 * second))]

/-- Its outcome has been recorded, and it is still stored. -/
theorem changeToOne_lingers :
    ¬ RunOnce (after (serve oneOClockHost) (.new "/home" 10) changeToOne) := by
  rintro ⟨-, -, hgone⟩
  exact Option.some_ne_none _ (hgone "j" rfl)

end LibreFang.Cron
