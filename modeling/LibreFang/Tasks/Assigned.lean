import LibreFang.Tasks.Single

/-!
# Whom a task is for

One column holds the assignee of a post and, later, the agent that has claimed the task.

* `assignee`: whom a run leaves a task to, from what its calls return; `Opens`: the operations that
  leave it to everyone.
* **`taskClaim_respects_assignee`**: a claim returns a task only to its assignee, unless a reset has
  left it to everyone; a retry does not.
-/

namespace LibreFang.Tasks

open Runs

/-- Whom an operation leaves the task to, which was left to `a` before it. -/
def nextAssignee (q : Queue) (id : TaskId) (a : String) : Event → String
  | .claim agentId agentName now =>
    if q.handsOut id (.claim agentId agentName now) then agentId else a
  | .resetStuck ttlSecs maxRetries now =>
    if id ∈ (q.taskResetStuck ttlSecs maxRetries now).1 then "" else a
  | .updateStatus id' newStatus now =>
    if id' = id ∧ newStatus = "pending" ∧
        (q.taskUpdateStatus id' newStatus now).1.toOption = some true then ""
    else a
  | _ => a

/-- Whom a run leaves the task to. -/
def assignee (id : TaskId) : Queue → List Event → String → String
  | _, [], a => a
  | q, e :: es, a => assignee id (step q e) es (nextAssignee q id a e)

/-- The operation leaves the task to everyone: a reset, or a claim by an agent without an id. -/
def Opens (q : Queue) (id : TaskId) : Event → Prop
  | .claim agentId _ _ => agentId = ""
  | .resetStuck ttlSecs maxRetries now => id ∈ (q.taskResetStuck ttlSecs maxRetries now).1
  | .updateStatus id' newStatus now =>
    id' = id ∧ newStatus = "pending" ∧
      (q.taskUpdateStatus id' newStatus now).1.toOption = some true
  | _ => False

section Assignee

variable {q : Queue} {id : TaskId} {t t' : Task} {a : String} {e : Event} {es : List Event}

theorem nextAssignee_ne (h : ¬ Opens q id e) (ha : a ≠ "") : nextAssignee q id a e ≠ "" := by
  cases e with
  | claim agentId agentName now =>
    unfold nextAssignee
    dsimp only
    split
    · exact h
    · exact ha
  | resetStuck ttlSecs maxRetries now => exact (if_neg h).trans_ne ha
  | updateStatus id' newStatus now => exact (if_neg h).trans_ne ha
  | _ => exact ha

theorem assignee_ne (h : Along step (fun q e => ¬ Opens q id e) q es) (ha : a ≠ "") :
    assignee id q es a ≠ "" := by
  induction es generalizing q a with
  | nil => exact ha
  | cons e es ih => exact ih h.2 (nextAssignee_ne h.1 ha)

/-! ## The column -/

theorem mem_taskResetStuck {ttlSecs maxRetries : ℕ} {now : Time} (h : q.Sound)
    (ht : q.task id = some t) :
    id ∈ (q.taskResetStuck ttlSecs maxRetries now).1 ↔ t.Stuck ttlSecs now := by
  obtain ⟨htq, rfl⟩ := mem_of_task ht
  simp only [Queue.taskResetStuck, Queue.stuck, List.mem_map, List.mem_filter, decide_eq_true_eq]
  constructor
  · rintro ⟨s, ⟨hs, hstuck⟩, hid⟩
    have := (task_eq_some_iff h).mpr ⟨hs, hid⟩
    rw [ht] at this
    exact Option.some.inj this ▸ hstuck
  · exact fun hstuck => ⟨t, ⟨htq, hstuck⟩, rfl⟩

theorem taskUpdateStatus_pending {now : Time} (h : q.Sound) (ht : q.task id = some t) :
    (q.taskUpdateStatus id "pending" now).1.toOption = some true ↔ t.Reopenable := by
  obtain ⟨htq, rfl⟩ := mem_of_task ht
  simp only [Queue.taskUpdateStatus, if_true, Queue.update, Except.toOption, Option.some.injEq,
    decide_eq_true_eq, List.countP_pos_iff]
  constructor
  · rintro ⟨s, hs, hid, hreopen⟩
    have := (task_eq_some_iff h).mpr ⟨hs, hid⟩
    rw [ht] at this
    exact Option.some.inj this ▸ hreopen
  · exact fun hreopen => ⟨t, htq, rfl, hreopen⟩

/-- **What a step makes of the column.** -/
theorem assignedTo_step (h : q.Sound) (ht : q.task id = some t)
    (ht' : (step q e).task id = some t') : t'.assignedTo = nextAssignee q id t.assignedTo e := by
  rw [task_step h ht] at ht'
  have hid := (mem_of_task ht).2
  cases e with
  | post title description assignedTo createdBy now =>
    cases ht'
    rfl
  | claim agentId agentName now =>
    cases ht'
    unfold nextAssignee
    dsimp only
    split <;> rfl
  | complete id' result now =>
    cases ht'
    split <;> rfl
  | resetStuck ttlSecs maxRetries now =>
    cases ht'
    unfold nextAssignee
    simp only [mem_taskResetStuck h ht]
    split
    · exact t.assignedTo_resetStuck ..
    · rfl
  | updateStatus id' newStatus now =>
    cases ht'
    unfold nextAssignee
    dsimp only
    by_cases hpending : newStatus = "pending"
    · subst hpending
      by_cases hid' : id' = id
      · subst hid'
        rw [if_pos rfl]
        simp only [taskUpdateStatus_pending h ht, hid, true_and]
        split <;> rfl
      · rw [if_pos rfl, if_neg fun hs => hid' (hs.1.symm.trans hid), if_neg fun hs => hid' hs.1]
    · have hopens : ¬ (id' = id ∧ newStatus = "pending" ∧
          (q.taskUpdateStatus id' newStatus now).1.toOption = some true) := fun hs => hpending hs.2.1
      rw [if_neg hpending, if_neg hopens]
      split
      · split <;> rfl
      · rfl
  | retry id' =>
    cases ht'
    split <;> rfl
  | delete id' =>
    unfold evolve at ht'
    dsimp only at ht'
    split at ht' <;> cases ht'
    rfl
  | prune olderThanDays now =>
    unfold evolve at ht'
    dsimp only at ht'
    split at ht' <;> cases ht'
    rfl

/-- **What a run makes of the column.** -/
theorem assignedTo_after (h : q.Sound) (hid : id < q.posted)
    (ha : ∀ t, q.task id = some t → t.assignedTo = a)
    (ht : (after step q es).task id = some t) : t.assignedTo = assignee id q es a := by
  induction es generalizing q a with
  | nil => exact ha t ht
  | cons e es ih =>
    refine ih (sound_step h e) (hid.trans_le (posted_le_step q e)) (fun t' ht' => ?_) ht
    cases hu : q.task id with
    | none => exact absurd (task_step_new h hu ht').1 hid.ne
    | some u => rw [assignedTo_step h hu ht', ha u hu]

end Assignee

/-! ## Claims -/

theorem task_post {q : Queue} (h : q.Sound) (title description : String)
    (assignedTo createdBy : Option String) (now : Time) :
    (step q (.post title description assignedTo createdBy now)).task q.posted =
      some (.post q.posted title description assignedTo createdBy now) := by
  rw [task_eq_some_iff (h.post ..)]
  exact ⟨List.mem_append_right _ (List.mem_singleton_self _), rfl⟩

/-- **A claim returns a task only to its assignee**: the one of the post, then the agent that has
claimed it last; a task that no reset has left to everyone has one. -/
theorem taskClaim_respects_assignee (before between : List Event) (title description a : String)
    (ha : a ≠ "") (createdBy : Option String) (now : Time) (agentId : String)
    (agentName : Option String) (now' : Time) (c : ClaimedTask) :
    let q := after step .init before
    let posted := step q (.post title description (some a) createdBy now)
    let holder := assignee q.posted posted between a
    ((after step posted between).taskClaim agentId agentName now').1 = some c → c.id = q.posted →
      (agentId = holder ∨ agentName = some holder ∨ holder = "") ∧
        (Along step (fun q' e => ¬ Opens q' q.posted e) posted between → holder ≠ "") := by
  intro q posted holder hc hid
  refine ⟨?_, fun hopens => assignee_ne hopens ha⟩
  have hq : q.Sound := sound_after sound_init before
  have hposted : posted.Sound := sound_step hq _
  have hlast : (after step posted between).Sound := sound_after hposted between
  obtain ⟨t, ht, htid⟩ := handsOut_claim.mp (hid ▸ handsOut_of_taskClaim hc)
  obtain ⟨hmem, hclaimable⟩ := selected_spec ht
  have htask := (task_eq_some_iff hlast).mpr ⟨hmem, htid⟩
  have hcolumn : t.assignedTo = holder :=
    assignedTo_after hposted (Nat.lt_succ_self _) (fun u hu => by
      rw [task_post hq] at hu
      exact Option.some.inj hu ▸ rfl) htask
  rw [← hcolumn]
  rcases hclaimable.2 with hagent | hname | hempty
  · exact .inl hagent.symm
  · cases agentName with
    | none => exact .inr (.inr hname)
    | some name => exact .inr (.inl (congrArg some hname.symm))
  · exact .inr (.inr hempty)

theorem taskClaim_respects_worker :
    let posted := step .init (.post "Long task" "Takes forever" (some "worker") none 0)
    let holder := assignee 0 posted [] "worker"
    ("worker" = holder ∨ none = some holder ∨ holder = "") ∧
      (Along step (fun q' e => ¬ Opens q' 0 e) posted [] → holder ≠ "") :=
  taskClaim_respects_assignee [] [] "Long task" "Takes forever" "worker" (by decide) none 0 "worker"
    none 1 ⟨0, "Long task", "Takes forever", "worker", "", 0, 1⟩ (by decide) (by decide)

/-- After a reset any agent is handed the task: not only the one of the post. -/
theorem taskClaim_after_reset :
    ¬ ∀ (before between : List Event) (title description a : String)
        (createdBy : Option String) (now : Time) (agentId : String) (agentName : Option String)
        (now' : Time) (c : ClaimedTask), a ≠ "" →
      let q := after step .init before
      let posted := step q (.post title description (some a) createdBy now)
      ((after step posted between).taskClaim agentId agentName now').1 = some c →
        c.id = q.posted → agentId = a ∨ agentName = some a := by
  intro h
  have := h [] [.claim "worker" none 0, .resetStuck 60 0 1000] "Long task" "Takes forever" "worker"
    none 0 "other" none 1001 ⟨0, "Long task", "Takes forever", "other", "", 0, 1001⟩ (by decide)
    (by decide) (by decide)
  exact absurd this (by decide)

end LibreFang.Tasks
