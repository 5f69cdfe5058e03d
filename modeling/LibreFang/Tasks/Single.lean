import LibreFang.Tasks.Queue

/-!
# One task of the queue

What an operation makes of a task depends on the rest of the queue in one thing only: whether a
claim hands the task out.

* `Queue.task`: the task with an id; `Queue.Sound`: ids are unique, and those of posted tasks.
* **`task_step`**, **`task_step_new`**: the queue does to each task what `evolve` says, and only a
  post makes a new one; `Change`, **`change_of_step`**: the changes that there are.
-/

namespace LibreFang.Tasks

open Runs

namespace Queue

/-- The task with an id. -/
def task (q : Queue) (id : TaskId) : Option Task := q.rows.find? (·.id = id)

/-- Ids are unique, and those of posted tasks. -/
structure Sound (q : Queue) : Prop where
  nodup : (q.rows.map Task.id).Nodup
  posted : ∀ t ∈ q.rows, t.id < q.posted

/-- The operation is a claim that returns the task. -/
def handsOut (q : Queue) (id : TaskId) : Event → Bool
  | .claim agentId agentName now => (q.taskClaim agentId agentName now).1.any (·.id = id)
  | _ => false

end Queue

/-- What an operation makes of a task, which a claim may hand out. -/
def evolve (handedOut : Bool) (t : Task) : Event → Option Task
  | .post .. => some t
  | .claim agentId _ now => some (if handedOut then t.claim agentId now else t)
  | .complete id result now => some (if t.id = id then t.complete result now else t)
  | .resetStuck ttlSecs maxRetries now =>
    some (if t.Stuck ttlSecs now then t.resetStuck maxRetries t.retryCount now else t)
  | .updateStatus id newStatus now =>
    some
      (if newStatus = "pending" then if t.id = id ∧ t.Reopenable then t.reopen else t
      else if newStatus = "cancelled" then if t.id = id ∧ t.Cancellable then t.cancel now else t
      else t)
  | .retry id => some (if t.id = id ∧ t.Retryable then t.retry else t)
  | .delete id => if t.id = id then none else some t
  | .prune olderThanDays now =>
    if olderThanDays ≠ 0 ∧ t.Expired olderThanDays now then none else some t

section Lookup

variable {q : Queue} {id : TaskId} {t : Task}

theorem find_of_nodup {rows : List Task} (h : (rows.map Task.id).Nodup) (ht : t ∈ rows) :
    rows.find? (·.id = t.id) = some t := by
  induction rows with
  | nil => cases ht
  | cons u rows ih =>
    rw [List.map_cons, List.nodup_cons] at h
    rcases List.mem_cons.mp ht with rfl | ht
    · exact List.find?_cons_of_pos (decide_eq_true rfl)
    · have hne : u.id ≠ t.id := fun heq => h.1 (heq ▸ List.mem_map_of_mem ht)
      rw [List.find?_cons_of_neg (by simpa using hne)]
      exact ih h.2 ht

theorem mem_of_task (h : q.task id = some t) : t ∈ q.rows ∧ t.id = id :=
  ⟨List.mem_of_find?_eq_some h, by simpa using List.find?_some h⟩

theorem task_of_mem (h : q.Sound) (ht : t ∈ q.rows) : q.task t.id = some t :=
  find_of_nodup h.nodup ht

theorem task_eq_some_iff (h : q.Sound) : q.task id = some t ↔ t ∈ q.rows ∧ t.id = id :=
  ⟨mem_of_task, fun ⟨ht, hid⟩ => hid ▸ task_of_mem h ht⟩

theorem not_mem_of_task (h : q.task id = none) : ∀ t ∈ q.rows, t.id ≠ id := fun t ht hid =>
  List.find?_eq_none.mp h t ht (decide_eq_true hid)

end Lookup

/-! ## Updates and deletions -/

section Update

variable {q : Queue} {p : Task → Prop} [DecidablePred p] {f : Task → Task}

theorem Queue.Sound.update (h : q.Sound) (hf : ∀ t, (f t).id = t.id) : (q.update p f).2.Sound := by
  have hids : ∀ t, (if p t then f t else t).id = t.id := fun t => by split <;> simp [hf]
  constructor
  · have : (q.update p f).2.rows.map Task.id = q.rows.map Task.id := by
      simp only [Queue.update, List.map_map]
      exact List.map_congr_left fun t _ => hids t
    rw [this]
    exact h.nodup
  · intro t ht
    obtain ⟨u, hu, rfl⟩ := List.mem_map.mp ht
    rw [hids]
    exact h.posted u hu

theorem Queue.Sound.filter (h : q.Sound) : { q with rows := q.rows.filter (p ·) }.Sound :=
  ⟨h.nodup.sublist (List.filter_sublist.map _), fun t ht => h.posted t (List.mem_filter.mp ht).1⟩

theorem task_update (hf : ∀ t, (f t).id = t.id) (id : TaskId) :
    (q.update p f).2.task id = (q.task id).map fun t => if p t then f t else t := by
  have hids : ∀ t, (if p t then f t else t).id = t.id := fun t => by split <;> simp [hf]
  simp only [Queue.task, Queue.update, List.find?_map, Function.comp_def, hids]

theorem task_filter (h : q.Sound) (id : TaskId) :
    { q with rows := q.rows.filter (p ·) }.task id = (q.task id).filter (p ·) := by
  apply Option.ext
  intro t
  rw [task_eq_some_iff h.filter, Option.filter_eq_some_iff, task_eq_some_iff h, List.mem_filter]
  tauto

end Update

namespace Task

variable (t : Task)

@[simp] theorem id_claim (agentId : String) (now : Time) : (t.claim agentId now).id = t.id := rfl

@[simp] theorem id_complete (result : String) (now : Time) :
    (t.complete result now).id = t.id := rfl

@[simp] theorem id_retry : t.retry.id = t.id := rfl

@[simp] theorem id_reopen : t.reopen.id = t.id := rfl

@[simp] theorem id_cancel (now : Time) : (t.cancel now).id = t.id := rfl

@[simp] theorem id_resetStuck (maxRetries retries : ℕ) (now : Time) :
    (t.resetStuck maxRetries retries now).id = t.id := by
  unfold resetStuck
  split <;> rfl

theorem status_resetStuck (maxRetries retries : ℕ) (now : Time) :
    (t.resetStuck maxRetries retries now).status =
      if 0 < maxRetries ∧ maxRetries ≤ retries then .failed else .pending := by
  unfold resetStuck
  split <;> rfl

theorem retryCount_resetStuck (maxRetries retries : ℕ) (now : Time) :
    (t.resetStuck maxRetries retries now).retryCount = t.retryCount + 1 := by
  unfold resetStuck
  split <;> rfl

theorem assignedTo_resetStuck (maxRetries retries : ℕ) (now : Time) :
    (t.resetStuck maxRetries retries now).assignedTo = "" := by
  unfold resetStuck
  split <;> rfl

end Task

/-! ## Claims -/

section Claim

variable {q : Queue} {agentId : String} {agentName : Option String} {now : Time} {t : Task}

theorem mem_of_first {rows : List Task} (h : Queue.first rows = some t) : t ∈ rows := by
  induction rows generalizing t with
  | nil => cases h
  | cons u rows ih =>
    unfold Queue.first at h
    cases hrest : Queue.first rows with
    | none =>
      rw [hrest] at h
      cases h
      exact List.mem_cons_self
    | some v =>
      rw [hrest] at h
      dsimp only at h
      split at h
      · cases h
        exact List.mem_cons_of_mem _ (ih hrest)
      · cases h
        exact List.mem_cons_self

theorem selected_spec (h : q.selected agentId agentName = some t) :
    t ∈ q.rows ∧ t.Claimable agentId (agentName.getD "") := by
  obtain ⟨hmem, hclaimable⟩ := List.mem_filter.mp (mem_of_first h)
  exact ⟨hmem, of_decide_eq_true hclaimable⟩

theorem taskClaim_of_none (h : q.selected agentId agentName = none) :
    q.taskClaim agentId agentName now = (none, q) := by
  rw [Queue.taskClaim, h]

theorem taskClaim_of_some (h : q.selected agentId agentName = some t) :
    q.taskClaim agentId agentName now =
      (some ⟨t.id, t.title, t.description, agentId, t.createdBy, t.createdAt, now⟩,
        (q.update (·.id = t.id) (·.claim agentId now)).2) := by
  rw [Queue.taskClaim, h]

theorem handsOut_claim {id : TaskId} :
    q.handsOut id (.claim agentId agentName now) = true ↔
      ∃ t, q.selected agentId agentName = some t ∧ t.id = id := by
  unfold Queue.handsOut
  cases h : q.selected agentId agentName with
  | none => simp [taskClaim_of_none h]
  | some t => simp [taskClaim_of_some h]

theorem handsOut_of_taskClaim {c : ClaimedTask}
    (h : (q.taskClaim agentId agentName now).1 = some c) :
    q.handsOut c.id (.claim agentId agentName now) = true := by
  simp [Queue.handsOut, h]

/-- **A claim hands out a task only to an agent that may claim it.** -/
theorem claimable_of_handsOut (h : q.Sound) {id : TaskId} (ht : q.task id = some t)
    (hout : q.handsOut id (.claim agentId agentName now) = true) :
    t.Claimable agentId (agentName.getD "") := by
  obtain ⟨u, hu, rfl⟩ := handsOut_claim.mp hout
  obtain ⟨hmem, hclaimable⟩ := selected_spec hu
  rw [task_of_mem h hmem] at ht
  exact Option.some.inj ht ▸ hclaimable

theorem task_claim (id : TaskId) :
    (step q (.claim agentId agentName now)).task id = (q.task id).map fun t =>
      if q.handsOut id (.claim agentId agentName now) then t.claim agentId now else t := by
  unfold step Queue.handsOut
  cases h : q.selected agentId agentName with
  | none => simp [taskClaim_of_none h]
  | some u =>
    simp only [taskClaim_of_some h, Option.any_some]
    rw [task_update fun t => t.id_claim ..]
    cases ht : q.task id with
    | none => rfl
    | some t =>
      obtain ⟨-, rfl⟩ := mem_of_task ht
      simp [eq_comm]

theorem Queue.Sound.claim (h : q.Sound) : (step q (.claim agentId agentName now)).Sound := by
  change (q.taskClaim agentId agentName now).2.Sound
  cases hselected : q.selected agentId agentName with
  | none => rwa [taskClaim_of_none hselected]
  | some t =>
    rw [taskClaim_of_some hselected]
    exact h.update fun t => t.id_claim ..

end Claim

/-! ## Sweeps -/

section Sweep

variable {q : Queue} {maxRetries ttlSecs : ℕ} {now : Time} {t : Task} {id : TaskId}

theorem Queue.Sound.resetRows (h : q.Sound) (stuck : List Task) :
    (Queue.resetRows maxRetries now stuck q).Sound := by
  induction stuck generalizing q with
  | nil => exact h
  | cons s stuck ih => exact ih (h.update fun t => t.id_resetStuck ..)

theorem task_resetRows_of_not_mem {stuck : List Task} (hid : ∀ s ∈ stuck, s.id ≠ id) :
    (Queue.resetRows maxRetries now stuck q).task id = q.task id := by
  induction stuck generalizing q with
  | nil => rfl
  | cons s stuck ih =>
    rw [Queue.resetRows, ih fun u hu => hid u (List.mem_cons_of_mem _ hu),
      task_update fun t => t.id_resetStuck ..]
    cases ht : q.task id with
    | none => rfl
    | some t =>
      have hne : ¬ (t.id = s.id ∧ t.status = .inProgress) := fun hs =>
        hid s List.mem_cons_self (hs.1.symm.trans (mem_of_task ht).2)
      rw [Option.map_some, if_neg hne]

theorem task_resetRows_of_mem {stuck : List Task} (hnodup : (stuck.map Task.id).Nodup)
    (ht : t ∈ stuck) (hin : t.status = .inProgress) (hq : q.task t.id = some t) :
    (Queue.resetRows maxRetries now stuck q).task t.id =
      some (t.resetStuck maxRetries t.retryCount now) := by
  induction stuck generalizing q with
  | nil => cases ht
  | cons s stuck ih =>
    rw [List.map_cons, List.nodup_cons] at hnodup
    rw [Queue.resetRows]
    rcases List.mem_cons.mp ht with rfl | ht
    · -- the rest of the loop has other ids
      have hrest : ∀ u ∈ stuck, u.id ≠ t.id := fun u hu heq =>
        hnodup.1 (List.mem_map.mpr ⟨u, hu, heq⟩)
      rw [task_resetRows_of_not_mem hrest, task_update fun t => t.id_resetStuck .., hq, Option.map_some, if_pos ⟨rfl, hin⟩]
    · refine ih hnodup.2 ht ?_
      have hne : ¬ (t.id = s.id ∧ t.status = .inProgress) := fun hs =>
        hnodup.1 (hs.1 ▸ List.mem_map_of_mem ht)
      rw [task_update fun t => t.id_resetStuck .., hq, Option.map_some, if_neg hne]

theorem task_resetStuck (h : q.Sound) (id : TaskId) :
    (step q (.resetStuck ttlSecs maxRetries now)).task id = (q.task id).map fun t =>
      if t.Stuck ttlSecs now then t.resetStuck maxRetries t.retryCount now else t := by
  have hmem : ∀ s, s ∈ q.stuck ttlSecs now ↔ s ∈ q.rows ∧ s.Stuck ttlSecs now := fun s => by
    rw [Queue.stuck, List.mem_filter, decide_eq_true_eq]
  change (Queue.resetRows maxRetries now (q.stuck ttlSecs now) q).task id = _
  cases ht : q.task id with
  | none =>
    rw [task_resetRows_of_not_mem fun s hs => not_mem_of_task ht s ((hmem s).mp hs).1, ht]
    rfl
  | some t =>
    obtain ⟨htq, rfl⟩ := mem_of_task ht
    rw [Option.map_some]
    split
    · next hstuck =>
      exact task_resetRows_of_mem (h.nodup.sublist (List.filter_sublist.map _))
        ((hmem t).mpr ⟨htq, hstuck⟩) hstuck.1 ht
    · next hstuck =>
      rw [task_resetRows_of_not_mem, ht]
      intro s hs hid
      -- the row that the loop has read would be this one
      have hs' := task_of_mem h ((hmem s).mp hs).1
      rw [hid, ht] at hs'
      exact hstuck (Option.some.inj hs' ▸ ((hmem s).mp hs).2)

end Sweep

/-! ## Steps -/

section Step

variable {q : Queue} {t : Task} {id : TaskId}

theorem Queue.Sound.post (h : q.Sound) (title description : String)
    (assignedTo createdBy : Option String) (now : Time) :
    (step q (.post title description assignedTo createdBy now)).Sound := by
  constructor
  · simp only [step, Queue.taskPost, List.map_append, List.map_cons, List.map_nil]
    refine List.nodup_append.mpr ⟨h.nodup, List.nodup_singleton _, ?_⟩
    rintro _ ha _ hb rfl
    obtain ⟨t, ht, rfl⟩ := List.mem_map.mp ha
    exact (h.posted t ht).ne (List.mem_singleton.mp hb)
  · intro t ht
    rcases List.mem_append.mp ht with ht | ht
    · exact (h.posted t ht).trans (Nat.lt_succ_self _)
    · rw [List.mem_singleton.mp ht]
      exact Nat.lt_succ_self _

theorem sound_init : Queue.init.Sound := ⟨List.nodup_nil, fun _ ht => by cases ht⟩

/-- **Ids stay unique.** -/
theorem sound_step (h : q.Sound) (e : Event) : (step q e).Sound := by
  cases e with
  | post title description assignedTo createdBy now => exact h.post ..
  | claim agentId agentName now => exact h.claim
  | complete id result now => exact h.update fun t => t.id_complete ..
  | resetStuck ttlSecs maxRetries now => exact h.resetRows _
  | updateStatus id newStatus now =>
    dsimp only [step, Queue.taskUpdateStatus]
    split
    · exact h.update fun t => t.id_reopen
    · split
      · exact h.update fun t => t.id_cancel ..
      · exact h
  | retry id => exact h.update fun t => t.id_retry
  | delete id => exact h.filter
  | prune olderThanDays now =>
    dsimp only [step, Queue.taskPruneFinished]
    split
    · exact h
    · exact h.filter

theorem sound_after (h : q.Sound) (es : List Event) : (after step q es).Sound := by
  induction es generalizing q with
  | nil => exact h
  | cons e es ih => exact ih (sound_step h e)

theorem posted_resetRows (maxRetries : ℕ) (now : Time) (stuck : List Task) (q : Queue) :
    (Queue.resetRows maxRetries now stuck q).posted = q.posted := by
  induction stuck generalizing q with
  | nil => rfl
  | cons s stuck ih => exact ih _

theorem posted_le_step (q : Queue) (e : Event) : q.posted ≤ (step q e).posted := by
  cases e with
  | post title description assignedTo createdBy now => exact Nat.le_succ _
  | claim agentId agentName now =>
    change q.posted ≤ (q.taskClaim agentId agentName now).2.posted
    cases hselected : q.selected agentId agentName with
    | none => rw [taskClaim_of_none hselected]
    | some t => rw [taskClaim_of_some hselected]; exact le_rfl
  | resetStuck ttlSecs maxRetries now => exact (posted_resetRows ..).ge
  | updateStatus id newStatus now =>
    dsimp only [step, Queue.taskUpdateStatus]
    split
    · exact le_rfl
    · split <;> exact le_rfl
  | prune olderThanDays now =>
    dsimp only [step, Queue.taskPruneFinished]
    split <;> exact le_rfl
  | _ => exact le_rfl

/-- **The queue does to a task what `evolve` says.** -/
theorem task_step (h : q.Sound) (ht : q.task id = some t) (e : Event) :
    (step q e).task id = evolve (q.handsOut id e) t e := by
  obtain ⟨htq, rfl⟩ := mem_of_task ht
  cases e with
  | post title description assignedTo createdBy now =>
    simp only [step, Queue.taskPost, Queue.task, List.find?_append]
    rw [show q.rows.find? (·.id = t.id) = some t from ht]
    rfl
  | claim agentId agentName now => rw [task_claim, ht]; rfl
  | complete id result now =>
    exact (task_update (fun t => t.id_complete ..) _).trans (by rw [ht]; rfl)
  | resetStuck ttlSecs maxRetries now => rw [task_resetStuck h, ht]; rfl
  | updateStatus id newStatus now =>
    dsimp only [step, Queue.taskUpdateStatus, evolve]
    split
    · exact (task_update (fun t => t.id_reopen) _).trans (by rw [ht]; rfl)
    · split
      · exact (task_update (fun t => t.id_cancel ..) _).trans (by rw [ht]; rfl)
      · exact ht
  | retry id => exact (task_update (fun t => t.id_retry) _).trans (by rw [ht]; rfl)
  | delete id =>
    refine (task_filter h _).trans ?_
    rw [ht, Option.filter_some]
    simp [evolve]
  | prune olderThanDays now =>
    dsimp only [step, Queue.taskPruneFinished, evolve]
    split
    · next hzero => simpa [hzero] using ht
    · next hzero =>
      refine (task_filter h _).trans ?_
      rw [ht, Option.filter_some]
      simp [hzero]

/-- The changes that an operation makes to the task with an id. -/
inductive Change (q : Queue) (id : TaskId) (t : Task) : Event → Task → Prop
  | claim {agentId agentName now} (hout : q.handsOut id (.claim agentId agentName now) = true)
      (hclaimable : t.Claimable agentId (agentName.getD "")) :
      Change q id t (.claim agentId agentName now) (t.claim agentId now)
  | complete {result now} : Change q id t (.complete id result now) (t.complete result now)
  | resetStuck {ttlSecs maxRetries now} (hstuck : t.Stuck ttlSecs now) :
      Change q id t (.resetStuck ttlSecs maxRetries now) (t.resetStuck maxRetries t.retryCount now)
  | reopen {now} (hreopen : t.Reopenable) : Change q id t (.updateStatus id "pending" now) t.reopen
  | cancel {now} (hcancel : t.Cancellable) :
      Change q id t (.updateStatus id "cancelled" now) (t.cancel now)
  | retry (hretry : t.Retryable) : Change q id t (.retry id) t.retry

/-- **The changes of a task**, which stays as it is otherwise. -/
theorem change_of_step {t' : Task} (h : q.Sound) (ht : q.task id = some t) {e : Event}
    (ht' : (step q e).task id = some t') :
    t' = t ∧ q.handsOut id e = false ∨ Change q id t e t' := by
  rw [task_step h ht] at ht'
  obtain ⟨-, rfl⟩ := mem_of_task ht
  cases e with
  | post title description assignedTo createdBy now => exact .inl ⟨(Option.some.inj ht').symm, rfl⟩
  | claim agentId agentName now =>
    cases hout : q.handsOut t.id (.claim agentId agentName now) with
    | false =>
      rw [hout] at ht'
      exact .inl ⟨(Option.some.inj ht').symm, rfl⟩
    | true =>
      rw [hout] at ht'
      obtain rfl := Option.some.inj ht'
      exact .inr (.claim hout (claimable_of_handsOut h ht hout))
  | complete id' result now =>
    obtain rfl := Option.some.inj ht'
    split
    · next hid => exact .inr (hid ▸ .complete)
    · exact .inl ⟨rfl, rfl⟩
  | resetStuck ttlSecs maxRetries now =>
    obtain rfl := Option.some.inj ht'
    split
    · next hstuck => exact .inr (.resetStuck hstuck)
    · exact .inl ⟨rfl, rfl⟩
  | updateStatus id' newStatus now =>
    obtain rfl := Option.some.inj ht'
    split
    · next hpending =>
      subst hpending
      split
      · next hreopen => exact .inr (hreopen.1 ▸ .reopen hreopen.2)
      · exact .inl ⟨rfl, rfl⟩
    · split
      · next hcancelled =>
        subst hcancelled
        split
        · next hcancel => exact .inr (hcancel.1 ▸ .cancel hcancel.2)
        · exact .inl ⟨rfl, rfl⟩
      · exact .inl ⟨rfl, rfl⟩
  | retry id' =>
    obtain rfl := Option.some.inj ht'
    split
    · next hretry => exact .inr (hretry.1 ▸ .retry hretry.2)
    · exact .inl ⟨rfl, rfl⟩
  | delete id' =>
    unfold evolve at ht'
    dsimp only at ht'
    split at ht'
    · cases ht'
    · exact .inl ⟨(Option.some.inj ht').symm, rfl⟩
  | prune olderThanDays now =>
    unfold evolve at ht'
    dsimp only at ht'
    split at ht'
    · cases ht'
    · exact .inl ⟨(Option.some.inj ht').symm, rfl⟩

/-- **Only a post makes a new task.** -/
theorem task_step_new (h : q.Sound) (ht : q.task id = none) {e : Event}
    (ht' : (step q e).task id = some t) :
    id = q.posted ∧ ∃ title description assignedTo createdBy now,
      e = .post title description assignedTo createdBy now ∧
        t = .post id title description assignedTo createdBy now := by
  have hmap : ∀ f : Task → Task, (q.task id).map f ≠ some t := fun f => by rw [ht]; simp
  cases e with
  | post title description assignedTo createdBy now =>
    simp only [step, Queue.taskPost, Queue.task, List.find?_append] at ht'
    rw [show q.rows.find? (·.id = id) = none from ht, Option.none_or] at ht'
    obtain ⟨hmem, hid⟩ := And.intro (List.mem_of_find?_eq_some ht') (List.find?_some ht')
    rw [List.mem_singleton] at hmem
    subst hmem
    have hid : q.posted = id := of_decide_eq_true hid
    exact ⟨hid.symm, title, description, assignedTo, createdBy, now, rfl, by rw [hid]⟩
  | claim agentId agentName now => exact absurd ((task_claim id).symm.trans ht') (hmap _)
  | complete id' result now =>
    exact absurd ((task_update (fun t => t.id_complete ..) id).symm.trans ht') (hmap _)
  | resetStuck ttlSecs maxRetries now =>
    exact absurd ((task_resetStuck h id).symm.trans ht') (hmap _)
  | updateStatus id' newStatus now =>
    dsimp only [step, Queue.taskUpdateStatus] at ht'
    split at ht'
    · exact absurd ((task_update (fun t => t.id_reopen) id).symm.trans ht') (hmap _)
    · split at ht'
      · exact absurd ((task_update (fun t => t.id_cancel ..) id).symm.trans ht') (hmap _)
      · exact absurd (ht.symm.trans ht') nofun
  | retry id' => exact absurd ((task_update (fun t => t.id_retry) id).symm.trans ht') (hmap _)
  | delete id' =>
    have := (task_filter h id).symm.trans ht'
    simp [ht] at this
  | prune olderThanDays now =>
    dsimp only [step, Queue.taskPruneFinished] at ht'
    split at ht'
    · exact absurd (ht.symm.trans ht') nofun
    · have := (task_filter h id).symm.trans ht'
      simp [ht] at this

end Step

end LibreFang.Tasks
