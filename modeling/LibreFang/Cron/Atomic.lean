import LibreFang.Cron.Scheduler

/-!
# An update that fails

`update_job` writes one part of the job after the other, and stops at the first that is invalid.

* `Said`: what an update says of a part; `Part`, `FirstInvalid`: the part at which it stops.
* `written`: what has been written until then; **`patch_of_firstInvalid`**, **`patch_cases`**.
* `Unwritten`: all that has been written is what was there.
* **`atomic_iff`**: an update that fails changes nothing exactly if all it has written was there.
-/

namespace LibreFang.Cron

/-! ## The parts of an update -/

/-- What an update says of a part of the job. -/
inductive Said (α : Type)
  | nothing
  | value (a : α)
  | invalid (e : String)

/-- The part as the update leaves it. -/
def Said.getD {α : Type} (a : α) : Said α → α
  | .value b => b
  | _ => a

/-- What it says of the part is not valid. -/
def Said.Invalid {α : Type} (s : Said α) : Prop := ∃ e, s = .invalid e

/-- A part that an update gives is the one that is there. -/
def Said.Repeats {α : Type} (s : Said α) (a : α) : Prop := ∀ b, s = .value b → b = a

/-- What an update says of a part that it replaces as a whole. -/
def said {α : Type} (updates : Value) (key : String) (fromValue : Value → Except String α) :
    Said α :=
  if (updates.get key).isNull then .nothing
  else
    match fromValue (updates.get key) with
    | .ok a => .value a
    | .error e => .invalid e

/-- The parts that can be invalid. -/
inductive Part
  | agentId
  | schedule
  | action
  | delivery
  | deliveryTargets

/-- The order in which they are written. -/
def Part.rank : Part → ℕ
  | .agentId => 0
  | .schedule => 1
  | .action => 2
  | .delivery => 3
  | .deliveryTargets => 4

variable (host : Host) (updates : Value) (now₁ now₂ : Time)

/-- What the update says of the name. -/
def givenName : Option String := (updates.get "name").asStr

/-- What it says of the enabled flag. -/
def givenEnabled : Option Bool := (updates.get "enabled").asBool

/-- What it says of the agent. -/
def saidAgentId : Said String :=
  match (updates.get "agent_id").asStr with
  | some text =>
    match host.parseAgentId text with
    | .ok agentId => .value agentId
    | .error e => .invalid e
  | none => .nothing

/-- What it says of the schedule. -/
def saidSchedule : Said CronSchedule := said updates "schedule" host.scheduleFromValue

/-- What it says of the action. -/
def saidAction : Said CronAction := said updates "action" host.actionFromValue

/-- What it says of the delivery. -/
def saidDelivery : Said CronDelivery := said updates "delivery" host.deliveryFromValue

/-- What it says of the delivery targets. -/
def saidTargets : Said (List CronDeliveryTarget) :=
  said updates "delivery_targets" host.targetsFromValue

/-- The clock is in range when the job is enabled. -/
def JobMeta.Enables (entry : JobMeta) : Prop :=
  givenEnabled updates = some true → computeNextRunAfter host entry.job.schedule now₁ ≠ none

/-- The schedule is not invalid, and the clock is in range for it. -/
def Schedules : Prop :=
  ¬ (saidSchedule host updates).Invalid ∧
    ∀ schedule, saidSchedule host updates = .value schedule →
      computeNextRunAfter host schedule now₂ ≠ none

/-- The update gets as far as this part, which is invalid. -/
def JobMeta.FirstInvalid (entry : JobMeta) (p : Part) : Prop :=
  entry.Enables host updates now₁ ∧
  match p with
  | .agentId => (saidAgentId host updates).Invalid
  | .schedule => ¬ (saidAgentId host updates).Invalid ∧ (saidSchedule host updates).Invalid
  | .action =>
    ¬ (saidAgentId host updates).Invalid ∧ Schedules host updates now₂ ∧
      (saidAction host updates).Invalid
  | .delivery =>
    ¬ (saidAgentId host updates).Invalid ∧ Schedules host updates now₂ ∧
      ¬ (saidAction host updates).Invalid ∧ (saidDelivery host updates).Invalid
  | .deliveryTargets =>
    ¬ (saidAgentId host updates).Invalid ∧ Schedules host updates now₂ ∧
      ¬ (saidAction host updates).Invalid ∧ ¬ (saidDelivery host updates).Invalid ∧
        (saidTargets host updates).Invalid

/-- The next run that the update leaves until it comes to this part. -/
def JobMeta.nextRunBefore (entry : JobMeta) (p : Part) : Option Time :=
  let enabled :=
    if givenEnabled updates = some true then computeNextRunAfter host entry.job.schedule now₁
    else entry.job.nextRun
  if p.rank ≤ 1 then enabled
  else
    match saidSchedule host updates with
    | .value schedule => computeNextRunAfter host schedule now₂
    | _ => enabled

/-- All that the update gives before this part is what is there. -/
structure JobMeta.Unwritten (entry : JobMeta) (p : Part) : Prop where
  name : ∀ name, givenName updates = some name → name = entry.job.name
  enabled : ∀ enabled, givenEnabled updates = some enabled →
    enabled = entry.job.enabled ∧ entry.autoDisabled = false ∧
      (enabled = true → entry.consecutiveErrors = 0)
  nextRun : entry.nextRunBefore host updates now₁ now₂ p = entry.job.nextRun
  agentId : 0 < p.rank → (saidAgentId host updates).Repeats entry.job.agentId
  schedule : 1 < p.rank → (saidSchedule host updates).Repeats entry.job.schedule
  action : 2 < p.rank → (saidAction host updates).Repeats entry.job.action
  delivery : 3 < p.rank → (saidDelivery host updates).Repeats entry.job.delivery

/-- An update that returns an error changes nothing of what is stored. -/
def Atomic (s : CronScheduler) (id : String) : Prop :=
  ∀ message, (updateJob host s id updates now₁ now₂).1 = .error (.internal message) →
    ∀ id', (updateJob host s id updates now₁ now₂).2.jobs.lookup id' = s.jobs.lookup id'

/-! ## What is written -/

/-- The name and the enabled flag are written. -/
def JobMeta.writeIdentity (entry : JobMeta) : JobMeta :=
  { entry with
    job := { entry.job with
      name := (givenName updates).getD entry.job.name
      enabled := (givenEnabled updates).getD entry.job.enabled
      nextRun :=
        if givenEnabled updates = some true then computeNextRunAfter host entry.job.schedule now₁
        else entry.job.nextRun }
    autoDisabled := if (givenEnabled updates).isSome then false else entry.autoDisabled
    consecutiveErrors := if givenEnabled updates = some true then 0 else entry.consecutiveErrors }

/-- The agent is written. -/
def JobMeta.writeAgentId (entry : JobMeta) : JobMeta :=
  { entry with
    job := { entry.job with agentId := (saidAgentId host updates).getD entry.job.agentId } }

/-- The schedule is written, with its next run. -/
def JobMeta.writeSchedule (entry : JobMeta) : JobMeta :=
  { entry with
    job := { entry.job with
      schedule := (saidSchedule host updates).getD entry.job.schedule
      nextRun :=
        match saidSchedule host updates with
        | .value schedule => computeNextRunAfter host schedule now₂
        | _ => entry.job.nextRun } }

/-- The action is written. -/
def JobMeta.writeAction (entry : JobMeta) : JobMeta :=
  { entry with job := { entry.job with action := (saidAction host updates).getD entry.job.action } }

/-- The delivery is written. -/
def JobMeta.writeDelivery (entry : JobMeta) : JobMeta :=
  { entry with
    job := { entry.job with delivery := (saidDelivery host updates).getD entry.job.delivery } }

/-- What has been written when the update comes to a part. -/
def JobMeta.written (entry : JobMeta) : Part → JobMeta
  | .agentId => entry.writeIdentity host updates now₁
  | .schedule => (entry.writeIdentity host updates now₁).writeAgentId host updates
  | .action =>
    ((entry.writeIdentity host updates now₁).writeAgentId host updates).writeSchedule host updates
      now₂
  | .delivery =>
    (((entry.writeIdentity host updates now₁).writeAgentId host updates).writeSchedule host updates
      now₂).writeAction host updates
  | .deliveryTargets =>
    ((((entry.writeIdentity host updates now₁).writeAgentId host updates).writeSchedule host updates
      now₂).writeAction host updates).writeDelivery host updates

/-! ## One part after the other -/

section Stages

variable {host updates now₁ now₂} {entry : JobMeta}

@[simp] theorem andThen_none (f : JobMeta → JobMeta × Option Failure) :
    andThen (entry, none) f = f entry := rfl

theorem Said.getD_eq_self_iff {α : Type} {s : Said α} {a : α} : s.getD a = a ↔ s.Repeats a := by
  cases s with
  | nothing => exact iff_of_true rfl fun _ h => nomatch h
  | value b =>
    constructor
    · intro hb c h
      cases h
      exact hb
    · intro h
      exact h b rfl
  | invalid e => exact iff_of_true rfl fun _ h => nomatch h

section Parts

variable {α : Type} {key : String} {fromValue : Value → Except String α}
  (set : α → JobMeta × Option Failure)

theorem patchPart_eq : entry.patchPart updates key fromValue set =
      match said updates key fromValue with
      | .nothing => (entry, none)
      | .value a => set a
      | .invalid e => (entry, some (.internal s!"Invalid {key}: {e}")) := by
  unfold JobMeta.patchPart said
  by_cases hnull : (updates.get key).isNull
  · rw [if_pos hnull, if_pos hnull]
  · rw [if_neg hnull, if_neg hnull]
    cases fromValue (updates.get key) with
    | ok a => rfl
    | error e => rfl

theorem patchPart_of_nothing (h : said updates key fromValue = .nothing) :
    entry.patchPart updates key fromValue set = (entry, none) := by
  rw [patchPart_eq, h]

theorem patchPart_of_value {a : α} (h : said updates key fromValue = .value a) :
    entry.patchPart updates key fromValue set = set a := by
  rw [patchPart_eq, h]

theorem patchPart_of_invalid (entry : JobMeta) (h : (said updates key fromValue).Invalid) :
    ∃ message, entry.patchPart updates key fromValue set = (entry, some (.internal message)) := by
  obtain ⟨e, he⟩ := h
  rw [patchPart_eq, he]
  exact ⟨_, rfl⟩

end Parts

theorem patchIdentity_eq : entry.patchIdentity host updates now₁ =
    andThen (andThen (entry.patchName updates) fun entry => entry.patchEnabled host updates now₁)
      fun entry => entry.patchAgentId host updates := rfl

theorem patchName_eq : entry.patchName updates =
    ({ entry with job := { entry.job with
        name := (givenName updates).getD entry.job.name } }, none) := by
  unfold JobMeta.patchName givenName
  cases (updates.get "name").asStr with
  | none => rfl
  | some name => rfl

theorem patchEnabled_of_enables (h : entry.Enables host updates now₁) :
    andThen (entry.patchName updates) (fun entry => entry.patchEnabled host updates now₁) =
      (entry.writeIdentity host updates now₁, none) := by
  rw [patchName_eq, andThen_none]
  unfold JobMeta.Enables givenEnabled at h
  unfold JobMeta.patchEnabled JobMeta.writeIdentity givenEnabled
  dsimp only
  cases henabled : (updates.get "enabled").asBool with
  | none => rfl
  | some enabled =>
    cases enabled with
    | false => rfl
    | true =>
      obtain ⟨next, hnext⟩ := Option.ne_none_iff_exists'.mp (h henabled)
      unfold JobMeta.setEnabled
      dsimp only
      rw [if_pos rfl, hnext]
      rfl

theorem patchEnabled_of_not_enables (h : ¬ entry.Enables host updates now₁) :
    ∃ entry', andThen (entry.patchName updates)
      (fun entry => entry.patchEnabled host updates now₁) = (entry', some .panicked) := by
  unfold JobMeta.Enables at h
  push Not at h
  obtain ⟨henabled, hnext⟩ := h
  rw [patchName_eq, andThen_none]
  unfold givenEnabled at henabled
  unfold JobMeta.patchEnabled
  dsimp only
  rw [henabled]
  unfold JobMeta.setEnabled
  dsimp only
  rw [if_pos rfl, hnext]
  exact ⟨_, rfl⟩

theorem patchAgentId_eq (entry : JobMeta) : entry.patchAgentId host updates =
    match saidAgentId host updates with
    | .nothing => (entry, none)
    | .value agentId => ({ entry with job := { entry.job with agentId := agentId } }, none)
    | .invalid e => (entry, some (.internal s!"Invalid agent_id: {e}")) := by
  unfold JobMeta.patchAgentId saidAgentId
  cases (updates.get "agent_id").asStr with
  | none => rfl
  | some text =>
    dsimp only
    cases host.parseAgentId text with
    | ok agentId => rfl
    | error e => rfl

theorem patchAgentId_of_invalid (entry : JobMeta) (h : (saidAgentId host updates).Invalid) :
    ∃ message, entry.patchAgentId host updates = (entry, some (.internal message)) := by
  obtain ⟨e, he⟩ := h
  rw [patchAgentId_eq, he]
  exact ⟨_, rfl⟩

theorem patchAgentId_of_valid (h : ¬ (saidAgentId host updates).Invalid) :
    entry.patchAgentId host updates = (entry.writeAgentId host updates, none) := by
  unfold JobMeta.writeAgentId
  rw [patchAgentId_eq]
  cases hsaid : saidAgentId host updates with
  | nothing => rfl
  | value agentId => rfl
  | invalid e => exact absurd ⟨e, hsaid⟩ h

theorem patchSchedule_of_invalid (entry : JobMeta) (h : (saidSchedule host updates).Invalid) :
    ∃ message, entry.patchSchedule host updates now₂ = (entry, some (.internal message)) :=
  patchPart_of_invalid _ entry h

theorem patchSchedule_of_schedules (h : Schedules host updates now₂) :
    entry.patchSchedule host updates now₂ = (entry.writeSchedule host updates now₂, none) := by
  obtain ⟨hvalid, hnext⟩ := h
  unfold JobMeta.patchSchedule JobMeta.writeSchedule
  cases hsaid : saidSchedule host updates with
  | nothing =>
    rw [patchPart_of_nothing _ hsaid]
    rfl
  | value schedule =>
    obtain ⟨next, hnext⟩ := Option.ne_none_iff_exists'.mp (hnext schedule hsaid)
    rw [patchPart_of_value _ hsaid]
    dsimp only
    rw [hnext]
    rfl
  | invalid e => exact absurd ⟨e, hsaid⟩ hvalid

theorem patchSchedule_of_not_schedules (entry : JobMeta)
    (hvalid : ¬ (saidSchedule host updates).Invalid) (h : ¬ Schedules host updates now₂) :
    ∃ entry', entry.patchSchedule host updates now₂ = (entry', some .panicked) := by
  unfold Schedules at h
  push Not at h
  obtain ⟨schedule, hsaid, hnext⟩ := h hvalid
  unfold JobMeta.patchSchedule
  rw [patchPart_of_value _ hsaid, hnext]
  exact ⟨_, rfl⟩

theorem patchAction_of_invalid (entry : JobMeta) (h : (saidAction host updates).Invalid) :
    ∃ message, entry.patchAction host updates = (entry, some (.internal message)) :=
  patchPart_of_invalid _ entry h

theorem patchAction_of_valid (h : ¬ (saidAction host updates).Invalid) :
    entry.patchAction host updates = (entry.writeAction host updates, none) := by
  unfold JobMeta.patchAction JobMeta.writeAction
  cases hsaid : saidAction host updates with
  | nothing =>
    rw [patchPart_of_nothing _ hsaid]
    rfl
  | value action =>
    rw [patchPart_of_value _ hsaid]
    rfl
  | invalid e => exact absurd ⟨e, hsaid⟩ h

theorem patchDelivery_of_invalid (entry : JobMeta) (h : (saidDelivery host updates).Invalid) :
    ∃ message, entry.patchDelivery host updates = (entry, some (.internal message)) :=
  patchPart_of_invalid _ entry h

theorem patchDelivery_of_valid (h : ¬ (saidDelivery host updates).Invalid) :
    entry.patchDelivery host updates = (entry.writeDelivery host updates, none) := by
  unfold JobMeta.patchDelivery JobMeta.writeDelivery
  cases hsaid : saidDelivery host updates with
  | nothing =>
    rw [patchPart_of_nothing _ hsaid]
    rfl
  | value delivery =>
    rw [patchPart_of_value _ hsaid]
    rfl
  | invalid e => exact absurd ⟨e, hsaid⟩ h

theorem patchDeliveryTargets_of_invalid (entry : JobMeta) (h : (saidTargets host updates).Invalid) :
    ∃ message, entry.patchDeliveryTargets host updates = (entry, some (.internal message)) :=
  patchPart_of_invalid _ entry h

theorem patchDeliveryTargets_of_valid (h : ¬ (saidTargets host updates).Invalid) :
    (entry.patchDeliveryTargets host updates).2 = none := by
  unfold JobMeta.patchDeliveryTargets
  cases hsaid : saidTargets host updates with
  | nothing => rw [patchPart_of_nothing _ hsaid]
  | value targets => rw [patchPart_of_value _ hsaid]
  | invalid e => exact absurd ⟨e, hsaid⟩ h

/-! ## The whole update -/

theorem patchIdentity_of_valid (henables : entry.Enables host updates now₁)
    (hagent : ¬ (saidAgentId host updates).Invalid) : entry.patchIdentity host updates now₁ =
      ((entry.writeIdentity host updates now₁).writeAgentId host updates, none) := by
  rw [patchIdentity_eq, patchEnabled_of_enables henables, andThen_none,
    patchAgentId_of_valid hagent]

/-- **An update stops at the first part that is invalid**, with what has been written until then. -/
theorem patch_of_firstInvalid {p : Part} (h : entry.FirstInvalid host updates now₁ now₂ p) :
    ∃ message, entry.patch host updates now₁ now₂ =
      (entry.written host updates now₁ now₂ p, some (.internal message)) := by
  unfold JobMeta.patch
  dsimp only
  obtain ⟨henables, h⟩ := h
  cases p with
  | agentId =>
    obtain ⟨message, hstop⟩ :=
      patchAgentId_of_invalid (entry.writeIdentity host updates now₁) h
    rw [patchIdentity_eq, patchEnabled_of_enables henables, andThen_none, hstop]
    exact ⟨message, rfl⟩
  | schedule =>
    obtain ⟨hagent, h⟩ := h
    rw [patchIdentity_of_valid henables hagent, andThen_none]
    obtain ⟨message, hstop⟩ :=
      patchSchedule_of_invalid (entry.written host updates now₁ now₂ .schedule) h
    unfold JobMeta.written at hstop ⊢
    rw [hstop]
    exact ⟨message, rfl⟩
  | action =>
    obtain ⟨hagent, hschedule, h⟩ := h
    rw [patchIdentity_of_valid henables hagent, andThen_none,
      patchSchedule_of_schedules hschedule, andThen_none]
    obtain ⟨message, hstop⟩ :=
      patchAction_of_invalid (entry.written host updates now₁ now₂ .action) h
    unfold JobMeta.written at hstop ⊢
    rw [hstop]
    exact ⟨message, rfl⟩
  | delivery =>
    obtain ⟨hagent, hschedule, haction, h⟩ := h
    rw [patchIdentity_of_valid henables hagent, andThen_none,
      patchSchedule_of_schedules hschedule, andThen_none, patchAction_of_valid haction,
      andThen_none]
    obtain ⟨message, hstop⟩ :=
      patchDelivery_of_invalid (entry.written host updates now₁ now₂ .delivery) h
    unfold JobMeta.written at hstop ⊢
    rw [hstop]
    exact ⟨message, rfl⟩
  | deliveryTargets =>
    obtain ⟨hagent, hschedule, haction, hdelivery, h⟩ := h
    rw [patchIdentity_of_valid henables hagent, andThen_none,
      patchSchedule_of_schedules hschedule, andThen_none, patchAction_of_valid haction,
      andThen_none, patchDelivery_of_valid hdelivery, andThen_none]
    exact patchDeliveryTargets_of_invalid (entry.written host updates now₁ now₂ .deliveryTargets) h

/-- **What an update can do.** The clock is out of range, it succeeds, or a part is invalid. -/
theorem patch_cases :
    (∃ entry', entry.patch host updates now₁ now₂ = (entry', some .panicked)) ∨
      (entry.patch host updates now₁ now₂).2 = none ∨
        ∃ p, entry.FirstInvalid host updates now₁ now₂ p := by
  by_cases henables : entry.Enables host updates now₁
  · by_cases hagent : (saidAgentId host updates).Invalid
    · exact .inr (.inr ⟨.agentId, henables, hagent⟩)
    by_cases hschedule : (saidSchedule host updates).Invalid
    · exact .inr (.inr ⟨.schedule, henables, hagent, hschedule⟩)
    unfold JobMeta.patch
    dsimp only
    rw [patchIdentity_of_valid henables hagent, andThen_none]
    by_cases hclock : Schedules host updates now₂
    · by_cases haction : (saidAction host updates).Invalid
      · exact .inr (.inr ⟨.action, henables, hagent, hclock, haction⟩)
      by_cases hdelivery : (saidDelivery host updates).Invalid
      · exact .inr (.inr ⟨.delivery, henables, hagent, hclock, haction, hdelivery⟩)
      by_cases htargets : (saidTargets host updates).Invalid
      · exact .inr (.inr
          ⟨.deliveryTargets, henables, hagent, hclock, haction, hdelivery, htargets⟩)
      rw [patchSchedule_of_schedules hclock, andThen_none, patchAction_of_valid haction,
        andThen_none, patchDelivery_of_valid hdelivery, andThen_none]
      exact .inr (.inl (patchDeliveryTargets_of_valid htargets))
    · obtain ⟨entry', hstop⟩ := patchSchedule_of_not_schedules
        ((entry.writeIdentity host updates now₁).writeAgentId host updates) hschedule hclock
      rw [hstop]
      exact .inl ⟨entry', rfl⟩
  · obtain ⟨entry', hstop⟩ := patchEnabled_of_not_enables henables
    unfold JobMeta.patch
    dsimp only
    rw [patchIdentity_eq, hstop]
    exact .inl ⟨entry', rfl⟩

/-! ## What has been written is what was there -/

theorem name_written (p : Part) : (entry.written host updates now₁ now₂ p).job.name =
    (givenName updates).getD entry.job.name := by
  cases p <;> rfl

theorem enabled_written (p : Part) : (entry.written host updates now₁ now₂ p).job.enabled =
    (givenEnabled updates).getD entry.job.enabled := by
  cases p <;> rfl

theorem autoDisabled_written (p : Part) : (entry.written host updates now₁ now₂ p).autoDisabled =
    if (givenEnabled updates).isSome then false else entry.autoDisabled := by
  cases p <;> rfl

theorem consecutiveErrors_written (p : Part) :
    (entry.written host updates now₁ now₂ p).consecutiveErrors =
      if givenEnabled updates = some true then 0 else entry.consecutiveErrors := by
  cases p <;> rfl

theorem nextRun_written (p : Part) : (entry.written host updates now₁ now₂ p).job.nextRun =
    entry.nextRunBefore host updates now₁ now₂ p := by
  cases p <;> rfl

theorem agentId_written (p : Part) : (entry.written host updates now₁ now₂ p).job.agentId =
    if 0 < p.rank then (saidAgentId host updates).getD entry.job.agentId
    else entry.job.agentId := by
  cases p <;> rfl

theorem schedule_written (p : Part) : (entry.written host updates now₁ now₂ p).job.schedule =
    if 1 < p.rank then (saidSchedule host updates).getD entry.job.schedule
    else entry.job.schedule := by
  cases p <;> rfl

theorem action_written (p : Part) : (entry.written host updates now₁ now₂ p).job.action =
    if 2 < p.rank then (saidAction host updates).getD entry.job.action
    else entry.job.action := by
  cases p <;> rfl

theorem delivery_written (p : Part) : (entry.written host updates now₁ now₂ p).job.delivery =
    if 3 < p.rank then (saidDelivery host updates).getD entry.job.delivery
    else entry.job.delivery := by
  cases p <;> rfl

attribute [ext] CronJob JobMeta

theorem enabled_unwritten_iff :
    ((givenEnabled updates).getD entry.job.enabled = entry.job.enabled ∧
      (if (givenEnabled updates).isSome then false else entry.autoDisabled) = entry.autoDisabled ∧
      (if givenEnabled updates = some true then 0 else entry.consecutiveErrors) =
        entry.consecutiveErrors) ↔
    ∀ enabled, givenEnabled updates = some enabled →
      enabled = entry.job.enabled ∧ entry.autoDisabled = false ∧
        (enabled = true → entry.consecutiveErrors = 0) := by
  cases givenEnabled updates with
  | none => simp
  | some enabled =>
    constructor
    · rintro ⟨hsame, hauto, herrors⟩ enabled' heq
      obtain rfl := Option.some.inj heq
      refine ⟨hsame, hauto.symm, fun htrue => ?_⟩
      rw [if_pos (congrArg some htrue)] at herrors
      exact herrors.symm
    · intro h
      obtain ⟨hsame, hauto, herrors⟩ := h enabled rfl
      refine ⟨hsame, hauto.symm, ?_⟩
      by_cases htrue : enabled = true
      · rw [if_pos (congrArg some htrue), herrors htrue]
      · rw [if_neg fun heq => htrue (Option.some.inj heq)]

theorem name_unwritten_iff : (givenName updates).getD entry.job.name = entry.job.name ↔
    ∀ name, givenName updates = some name → name = entry.job.name := by
  cases givenName updates with
  | none => simp
  | some name => simp

theorem written_part_iff {α : Type} {n rank : ℕ} {s : Said α} {a : α} :
    (if n < rank then s.getD a else a) = a ↔ (n < rank → s.Repeats a) := by
  by_cases h : n < rank
  · rw [if_pos h, Said.getD_eq_self_iff]
    exact ⟨fun hs _ => hs, fun hs => hs h⟩
  · rw [if_neg h]
    exact iff_of_true rfl fun hn => absurd hn h

/-- **What has been written is what was there** if that holds of every part before. -/
theorem written_eq_self_iff (p : Part) : entry.written host updates now₁ now₂ p = entry ↔
    entry.Unwritten host updates now₁ now₂ p := by
  constructor
  · intro h
    exact {
      name := name_unwritten_iff.mp ((name_written p).symm.trans (by rw [h]))
      enabled := enabled_unwritten_iff.mp ⟨(enabled_written p).symm.trans (by rw [h]),
        (autoDisabled_written p).symm.trans (by rw [h]),
        (consecutiveErrors_written p).symm.trans (by rw [h])⟩
      nextRun := (nextRun_written p).symm.trans (by rw [h])
      agentId := written_part_iff.mp ((agentId_written p).symm.trans (by rw [h]))
      schedule := written_part_iff.mp ((schedule_written p).symm.trans (by rw [h]))
      action := written_part_iff.mp ((action_written p).symm.trans (by rw [h]))
      delivery := written_part_iff.mp ((delivery_written p).symm.trans (by rw [h])) }
  · intro h
    obtain ⟨henabled, hauto, herrors⟩ := enabled_unwritten_iff.mpr h.enabled
    refine JobMeta.ext (CronJob.ext ?_ ?_ ?_ ?_ ?_ ?_ ?_ ?_ ?_ ?_) ?_ ?_ ?_ ?_
    · cases p <;> rfl
    · exact (agentId_written p).trans (written_part_iff.mpr h.agentId)
    · exact (name_written p).trans (name_unwritten_iff.mpr h.name)
    · exact (enabled_written p).trans henabled
    · exact (schedule_written p).trans (written_part_iff.mpr h.schedule)
    · exact (action_written p).trans (written_part_iff.mpr h.action)
    · exact (delivery_written p).trans (written_part_iff.mpr h.delivery)
    · cases p <;> rfl
    · cases p <;> rfl
    · exact (nextRun_written p).trans h.nextRun
    · cases p <;> rfl
    · cases p <;> rfl
    · exact (consecutiveErrors_written p).trans herrors
    · exact (autoDisabled_written p).trans hauto

end Stages

/-! ## An update that fails -/

/-- **An update that fails changes nothing** exactly if all that it has written when it comes to
the part that is invalid was there before. -/
theorem atomic_iff (s : CronScheduler) (id : String) :
    Atomic host updates now₁ now₂ s id ↔ ∀ entry, s.jobs.lookup id = some entry →
      ∀ p, entry.FirstInvalid host updates now₁ now₂ p →
        entry.Unwritten host updates now₁ now₂ p := by
  unfold Atomic updateJob onEntry
  cases hentry : s.jobs.lookup id with
  | none => exact iff_of_true (fun _ _ _ => rfl) fun _ h => nomatch h
  | some entry =>
    dsimp only
    constructor
    · rintro h entry' hentry' p hp
      obtain rfl := Option.some.inj hentry'
      obtain ⟨message, hpatch⟩ := patch_of_firstInvalid hp
      rw [hpatch] at h
      have hsame := h message rfl id
      rw [Table.lookup_modify_self, hentry] at hsame
      exact (written_eq_self_iff p).mp (Option.some.inj hsame)
    · rintro h message hfails id'
      by_cases hid : id' = id
      · obtain ⟨entry', hstop⟩ | hdone | ⟨p, hp⟩ :=
          @patch_cases host updates now₁ now₂ entry
        · rw [hstop] at hfails
          cases hfails
        · rw [hdone] at hfails
          cases hfails
        · obtain ⟨message', hpatch⟩ := patch_of_firstInvalid hp
          rw [hid, Table.lookup_modify_self, hentry, hpatch]
          exact congrArg some ((written_eq_self_iff p).mpr (h entry rfl p hp))
      · rw [Table.lookup_modify_ne _ hid]

/-- A new name, and an action of no known kind. -/
def renamingUpdates : Value :=
  .object [("name", .string "renamed"), ("action", .object [("kind", .string "bogus")])]

/-- The job is renamed although the update fails. -/
theorem renamingUpdates_not_atomic : ¬ Atomic sampleHost renamingUpdates 0 0
    { jobs := AList.insert "j" (.new sampleJob false) ∅, homeDir := "/home", maxTotalJobs := 10 }
    "j" := by
  intro h
  have hsame := h _ rfl "j"
  revert hsame
  decide

end LibreFang.Cron
