import LibreFang.Tasks.Single

/-!
# The life of a task

`task_complete` has no guard on the status: a worker whose claim has been reset may still complete
the task, over what a later claimant or a cancellation has made of it.

* `Respects`: a finished task stays as it is until it is retried, and only a task in progress is
  completed; `respects_step`: so it is when each completion finds its task in progress.
* **`lifecycle`**: both, over every run whose completions find their tasks in progress.
-/

namespace LibreFang.Tasks

open Runs

/-- A step respects the life of a task. -/
structure Respects (e : Event) (t t' : Task) : Prop where
  final : t.status = .completed ∨ t.status = .cancelled →
    t'.status = t.status ∧ t'.result = t.result ∨ t.status = .completed ∧ e = .retry t.id
  inProgress : ∀ id result now, e = .complete id result now → t' ≠ t → t.status = .inProgress

/-- A completion finds its task in progress, or not at all. -/
def CompletesInProgress (q : Queue) : Event → Prop
  | .complete id _ _ => ∀ t ∈ q.rows, t.id = id → t.status = .inProgress
  | _ => True

instance (q : Queue) : DecidablePred (CompletesInProgress q)
  | .complete id _ _ => inferInstanceAs (Decidable (∀ t ∈ q.rows, t.id = id → t.status = .inProgress))
  | .post .. | .claim .. | .resetStuck .. | .updateStatus .. | .retry .. | .delete .. | .prune .. =>
    isTrue trivial

/-- The operation is an operator's reset of the task. -/
def OperatorReset (id : TaskId) : Event → Prop
  | .retry id' => id' = id
  | .updateStatus id' newStatus _ => id' = id ∧ newStatus = "pending"
  | _ => False

/-- A sweep allows so many retries. -/
def SweepsWith (m : ℕ) : Event → Prop
  | .resetStuck _ maxRetries _ => maxRetries = m
  | _ => True

/-- How often a run hands the task out. -/
def handouts (id : TaskId) : Queue → List Event → ℕ
  | _, [] => 0
  | q, e :: es => (if q.handsOut id e then 1 else 0) + handouts id (step q e) es

section Step

variable {q : Queue} {id : TaskId} {t t' : Task} {e : Event}

/-! ## Finished tasks -/

/-- **A step respects the life of each task** when a completion finds its task in progress. -/
theorem respects_step (h : q.Sound) (hcompletes : CompletesInProgress q e) (ht : q.task id = some t)
    (ht' : (step q e).task id = some t') : Respects e t t' := by
  rcases change_of_step h ht ht' with ⟨rfl, -⟩ | hchange
  · exact ⟨fun _ => .inl ⟨rfl, rfl⟩, fun _ _ _ _ hne => absurd rfl hne⟩
  · obtain ⟨hmem, hid⟩ := mem_of_task ht
    refine ⟨fun hfinal => ?_, fun id' result now he _ => ?_⟩
    · cases hchange with
      | claim hout hclaimable =>
        rw [hclaimable.1] at hfinal
        simp at hfinal
      | complete =>
        rw [hcompletes t hmem hid] at hfinal
        simp at hfinal
      | resetStuck hstuck =>
        rw [hstuck.1] at hfinal
        simp at hfinal
      | reopen hreopen => rcases hreopen with hs | hs <;> rw [hs] at hfinal <;> simp at hfinal
      | cancel hcancel => exact absurd hfinal hcancel
      | retry hretry =>
        refine .inr ⟨?_, by rw [hid]⟩
        rcases hretry with hs | hs
        · exact hs
        · rw [hs] at hfinal
          simp at hfinal
    · subst he
      cases hchange
      exact hcompletes t hmem hid

/-! ## Handouts -/

/-- How often the task may still be handed out when sweeps allow `m` retries. -/
def remaining (m : ℕ) (t : Task) : ℕ :=
  match t.status with
  | .pending => 1 + (m - t.retryCount)
  | .inProgress => m - t.retryCount
  | _ => 0

/-- The same for an id, which may not have been posted. -/
def allowance (m : ℕ) (q : Queue) (id : TaskId) : ℕ :=
  match q.task id with
  | some t => remaining m t
  | none => if id < q.posted then 0 else m + 1

theorem remaining_le (m : ℕ) (t : Task) : remaining m t ≤ m + 1 := by
  unfold remaining
  split <;> omega

theorem allowance_le (m : ℕ) (q : Queue) (id : TaskId) : allowance m q id ≤ m + 1 := by
  unfold allowance
  split
  · exact remaining_le ..
  · split <;> omega

theorem allowance_of_some {m : ℕ} (ht : q.task id = some t) : allowance m q id = remaining m t := by
  rw [allowance, ht]

theorem allowance_of_none {m : ℕ} (ht : q.task id = none) :
    allowance m q id = if id < q.posted then 0 else m + 1 := by
  rw [allowance, ht]

theorem handsOut_of_none (ht : q.task id = none) : q.handsOut id e = false := by
  by_contra hout
  rw [Bool.not_eq_false] at hout
  cases e with
  | claim agentId agentName now =>
    obtain ⟨t, hselected, hid⟩ := handsOut_claim.mp hout
    exact not_mem_of_task ht t (selected_spec hselected).1 hid
  | _ => cases hout

theorem remaining_change {m : ℕ} (hm : 0 < m) (hreset : ¬ OperatorReset id e) (hsweep : SweepsWith m e)
    (hchange : Change q id t e t') :
    (if q.handsOut id e then 1 else 0) + remaining m t' ≤ remaining m t := by
  cases hchange with
  | claim hout hclaimable =>
    rw [if_pos hout, remaining, remaining, hclaimable.1]
    rfl
  | complete => exact Nat.zero_le _
  | @resetStuck ttlSecs maxRetries now hstuck =>
    obtain rfl : maxRetries = m := hsweep
    have hstatus := t.status_resetStuck maxRetries t.retryCount now
    have hcount := t.retryCount_resetStuck maxRetries t.retryCount now
    by_cases hexhausted : maxRetries ≤ t.retryCount
    · rw [if_pos ⟨hm, hexhausted⟩] at hstatus
      rw [remaining, hstatus]
      exact Nat.zero_le _
    · rw [if_neg fun hs => hexhausted hs.2] at hstatus
      rw [remaining, remaining, hstatus, hcount, hstuck.1]
      simp only [Queue.handsOut, Bool.false_eq_true, if_false]
      omega
  | reopen => exact absurd ⟨rfl, rfl⟩ hreset
  | cancel => exact Nat.zero_le _
  | retry => exact absurd rfl hreset

theorem allowance_step {m : ℕ} (hm : 0 < m) (h : q.Sound) (hreset : ¬ OperatorReset id e)
    (hsweep : SweepsWith m e) :
    (if q.handsOut id e then 1 else 0) + allowance m (step q e) id ≤ allowance m q id := by
  cases ht : q.task id with
  | none =>
    have hle := posted_le_step q e
    rw [handsOut_of_none ht, allowance_of_none ht, if_neg Bool.false_ne_true, Nat.zero_add]
    cases ht' : (step q e).task id with
    | none =>
      rw [allowance_of_none ht']
      by_cases hid : id < q.posted
      · rw [if_pos hid, if_pos (hid.trans_le hle)]
      · rw [if_neg hid]
        split
        · exact Nat.zero_le _
        · exact le_rfl
    | some t' =>
      rw [if_neg (task_step_new h ht ht').1.not_lt]
      exact allowance_le ..
  | some t =>
    rw [allowance_of_some ht]
    cases ht' : (step q e).task id with
    | none =>
      have hposted : id < (step q e).posted := by
        obtain ⟨hmem, rfl⟩ := mem_of_task ht
        exact (h.posted t hmem).trans_le (posted_le_step q e)
      rw [allowance_of_none ht', if_pos hposted]
      cases hout : q.handsOut id e with
      | false => exact Nat.zero_le _
      | true =>
        rw [task_step h ht] at ht'
        cases e <;> simp [Queue.handsOut] at hout
        cases ht'
    | some t' =>
      rw [allowance_of_some ht']
      rcases change_of_step h ht ht' with ⟨rfl, hout⟩ | hchange
      · rw [hout]
        simp
      · exact remaining_change hm hreset hsweep hchange

/-- **A task is handed out at most as often as it may.** -/
theorem handouts_le {m : ℕ} (hm : 0 < m) (h : q.Sound) {es : List Event}
    (hes : ∀ e ∈ es, ¬ OperatorReset id e ∧ SweepsWith m e) :
    handouts id q es ≤ allowance m q id := by
  induction es generalizing q with
  | nil => exact Nat.zero_le _
  | cons e es ih =>
    obtain ⟨hreset, hsweep⟩ := hes e List.mem_cons_self
    calc handouts id q (e :: es)
        = (if q.handsOut id e then 1 else 0) + handouts id (step q e) es := rfl
      _ ≤ (if q.handsOut id e then 1 else 0) + allowance m (step q e) id :=
          Nat.add_le_add_left (ih (sound_step h e) fun e' he' => hes e' (List.mem_cons_of_mem _ he')) _
      _ ≤ allowance m q id := allowance_step hm h hreset hsweep

end Step

/-! ## Runs -/

/-- **The life of a task** over every run whose completions find their tasks in progress: finished
tasks stay as they are until they are retried, only tasks in progress are completed, and a task is
handed out at most `m + 1` times between two resets by operators. -/
theorem lifecycle (es : List Event) (h : Along step CompletesInProgress .init es) :
    (∀ bs e cs, es = bs ++ e :: cs → ∀ id t t', (after step .init bs).task id = some t →
      (step (after step .init bs) e).task id = some t' → Respects e t t') ∧
    (∀ bs cs ds id m, es = bs ++ cs ++ ds → 0 < m →
      (∀ e ∈ cs, ¬ OperatorReset id e ∧ SweepsWith m e) →
      handouts id (after step .init bs) cs ≤ m + 1) := by
  constructor
  · intro bs e cs hes id t t' ht ht'
    rw [hes, along_append] at h
    exact respects_step (sound_after sound_init bs) h.2.1 ht ht'
  · intro bs cs ds id m hes hm hcs
    exact (handouts_le hm (sound_after sound_init bs) hcs).trans (allowance_le ..)

/-- A worker claims a task, stalls and is swept; the next one completes it. -/
theorem lifecycle_of_two_workers :
    (∀ bs e cs, [.post "t" "" none none 0, .claim "a" none 0, .resetStuck 60 3 100,
        .claim "b" none 100, .complete 0 "done" 110] = bs ++ e :: cs →
      ∀ id t t', (after step .init bs).task id = some t →
        (step (after step .init bs) e).task id = some t' → Respects e t t') ∧
    (∀ bs cs ds id m, [.post "t" "" none none 0, .claim "a" none 0, .resetStuck 60 3 100,
        .claim "b" none 100, .complete 0 "done" 110] = bs ++ cs ++ ds → 0 < m →
      (∀ e ∈ cs, ¬ OperatorReset id e ∧ SweepsWith m e) →
      handouts id (after step .init bs) cs ≤ m + 1) :=
  lifecycle _ (by decide)

/-- A late completion overwrites the result of a later claimant. -/
theorem late_completion_overwrites :
    ¬ ∀ bs e id t t', (after step .init bs).task id = some t →
      (step (after step .init bs) e).task id = some t' → Respects e t t' := by
  intro h
  have := h [.post "t" "" none none 0, .claim "a" none 0, .resetStuck 60 3 100,
    .claim "b" none 100, .complete 0 "done" 110] (.complete 0 "late" 120) 0
    ((((Task.post 0 "t" "" none none 0).claim "a" 0).resetStuck 3 0 100 |>.claim "b" 100).complete
      "done" 110)
    (((((Task.post 0 "t" "" none none 0).claim "a" 0).resetStuck 3 0 100 |>.claim "b" 100).complete
      "done" 110).complete "late" 120) (by decide) (by decide)
  exact absurd (this.inProgress 0 "late" 120 rfl (by decide)) (by decide)

end LibreFang.Tasks
