import LibreFang.A2a.Coherent

/-!
# Changes of finished and of evicted tasks

No call looks at the state of a task before it changes it: a completion that arrives after a
cancellation goes through. And `get` falls back to the database, where the calls do not: a call for
a task that is not in memory changes nothing.

* `LeavesTerminal`: no call finds its task finished, but one that sets the status it has.
* **`terminal_final_iff`**: in every run, terminal tasks stay as they are exactly when each step
  leaves them so; memory is bounded, and the eviction at capacity spares active tasks.
* **`get_after_change_iff`**: the next `get` returns the changed task exactly when the task was in
  memory, unless the call would have left it as it was or a restart has pruned its row since.
-/

namespace LibreFang.A2a

open Runs

variable {Value : Type}

/-- The ids of the tasks that a run inserts. -/
def insertedIds (es : List (Event Value)) : List String :=
  es.filterMap fun e => match e with
    | .insert task _ _ _ => some task.id
    | _ => none

/-- The call sets the bare status that the task has. -/
def Change.Repeats (task : A2aTask Value) : Change Value → Prop
  | .updateStatus status => task.status = .enum status
  | .cancel => task.status = .enum .cancelled
  | .complete .. | .fail _ => False

instance [DecidableEq Value] (task : A2aTask Value) : DecidablePred (Change.Repeats task)
  | .updateStatus status => inferInstanceAs (Decidable (task.status = .enum status))
  | .cancel => inferInstanceAs (Decidable (task.status = .enum .cancelled))
  | .complete .. | .fail _ => isFalse id

/-- No call finds its task in memory completed, failed or cancelled, unless it sets the bare status
that the task has. -/
def LeavesTerminal (store : A2aTaskStore Value) : Event Value → Prop
  | .change id c _ _ => ∀ tracked ∈ store.tasks.lookup id,
    tracked.task.Terminal → c.Repeats tracked.task
  | _ => True

instance [DecidableEq Value] (store : A2aTaskStore Value) : DecidablePred (LeavesTerminal store)
  | .change id c _ _ => inferInstanceAs (Decidable (∀ tracked ∈ store.tasks.lookup id,
    tracked.task.Terminal → c.Repeats tracked.task))
  | .insert .. | .get _ | .restart .. => isTrue trivial

variable {codec : Codec Value} {store : A2aTaskStore Value} {id : String} {task task' : A2aTask Value}
  {e : Event Value} {es : List (Event Value)}

/-! ## Finality -/

theorem Change.apply_eq_self_iff {c : Change Value} : c.apply task = task ↔ c.Repeats task := by
  cases c with
  | updateStatus status => exact ⟨fun h => (congrArg A2aTask.status h).symm, fun h => by
      simp only [Change.apply, ← show task.status = .enum status from h]⟩
  | cancel => exact ⟨fun h => (congrArg A2aTask.status h).symm, fun h => by
      simp only [Change.apply, ← show task.status = .enum .cancelled from h]⟩
  | complete response artifacts =>
    refine iff_of_false (fun h => ?_) id
    exact List.cons_ne_nil _ _ (List.append_right_eq_self.mp (congrArg A2aTask.messages h))
  | fail errorMessage =>
    refine iff_of_false (fun h => ?_) id
    exact List.cons_ne_nil _ _ (List.append_right_eq_self.mp (congrArg A2aTask.messages h))

variable {tracked : TrackedTask Value}

theorem lookup_step_of_no_db (hdb : store.db = none) (hwrites : ¬ Writes id e)
    (h : (step codec store e).tasks.lookup id = some tracked) :
    store.tasks.lookup id = some tracked := by
  cases e with
  | insert task unix swept now =>
    rw [step, A2aTaskStore.insert, AList.lookup_insert_ne (Ne.symm hwrites)] at h
    have hold := lookup_of_evictExpired (lookup_of_makeRoom h)
    rwa [tasks_dbUpsert] at hold
  | get id' => exact h
  | change id' c unix now =>
    cases hlookup : store.tasks.lookup id' with
    | none => rwa [step_change_of_none hlookup] at h
    | some old =>
      rwa [step_change_of_some hlookup, tasks_dbUpsert,
        Table.lookup_modify_ne _ (Ne.symm hwrites)] at h
  | restart unix now =>
    simp [step, A2aTaskStore.restart, hdb, A2aTaskStore.new] at h

theorem get_step_of_not_writes (h : Coherent codec store) (hsaves : Saves codec store e)
    (hwrites : ¬ Writes id e) (htask : (step codec store e).get codec id = some task) :
    store.get codec id = some task := by
  by_cases hdb : store.db.isSome
  · rw [get_eq_onDisk (coherent_step h hsaves) ((isSome_db_step e).trans hdb)] at htask
    rw [get_eq_onDisk h hdb]
    exact ((onDisk_step h hdb hwrites).mp htask).1
  · have hnone : (step codec store e).db = none := by
      rw [← Option.not_isSome_iff_eq_none, isSome_db_step]
      exact hdb
    rw [get_of_no_db hnone, Option.map_eq_some_iff] at htask
    obtain ⟨tracked, hlookup, rfl⟩ := htask
    exact get_of_lookup (lookup_step_of_no_db (Option.not_isSome_iff_eq_none.mp hdb) hwrites hlookup)

theorem get_change {c : Change Value} {unix : ℤ} {now : ℕ}
    (h : store.tasks.lookup id = some tracked) :
    (step codec store (.change id c unix now)).get codec id = some (c.apply tracked.task) := by
  rw [step_change_of_some h]
  apply @get_of_lookup _ _ _ _ ⟨c.apply tracked.task, now⟩
  rw [tasks_dbUpsert, Table.lookup_modify_self, h]
  rfl

/-- **What a step makes of a task** that it does not insert: a change that finds it in memory. -/
theorem get_step (h : Coherent codec store) (hsaves : Saves codec store e)
    (hinserts : id ∉ insertedIds [e]) (htask : (step codec store e).get codec id = some task') :
    ∃ task, store.get codec id = some task ∧ (task' = task ∨
      ∃ c unix now tracked, e = .change id c unix now ∧ store.tasks.lookup id = some tracked ∧
        tracked.task = task ∧ task' = c.apply task) := by
  by_cases hwrites : Writes id e
  · cases e with
    | insert task unix swept now =>
      have hid : task.id = id := hwrites
      exact absurd (by simp [insertedIds, hid]) hinserts
    | change id' c unix now =>
      obtain rfl : id' = id := hwrites
      cases hlookup : store.tasks.lookup id' with
      | none =>
        rw [step_change_of_none hlookup] at htask
        exact ⟨task', htask, .inl rfl⟩
      | some tracked =>
        rw [get_change hlookup] at htask
        exact ⟨tracked.task, get_of_lookup hlookup, .inr ⟨c, unix, now, tracked, rfl, rfl, rfl,
          (Option.some.inj htask).symm⟩⟩
    | get id' => cases hwrites
    | restart unix now => cases hwrites
  · exact ⟨task', get_step_of_not_writes h hsaves hwrites htask, .inl rfl⟩

theorem insertedIds_append (es fs : List (Event Value)) :
    insertedIds (es ++ fs) = insertedIds es ++ insertedIds fs := List.filterMap_append

theorem insertedIds_cons (e : Event Value) (es : List (Event Value)) :
    insertedIds (e :: es) = insertedIds [e] ++ insertedIds es := insertedIds_append [e] es

theorem exists_of_get_after (h : Coherent codec store)
    (hsaves : Along (step codec) (Saves codec) store es)
    (htask : (after (step codec) store es).get codec id = some task) :
    (store.get codec id).isSome ∨ id ∈ insertedIds es := by
  induction es generalizing store with
  | nil =>
    left
    rw [show store.get codec id = some task from htask]
    rfl
  | cons e es ih =>
    rw [insertedIds_cons, List.mem_append]
    by_cases hinserts : id ∈ insertedIds [e]
    · exact .inr (.inl hinserts)
    · rcases ih (coherent_step h hsaves.1) hsaves.2 htask with hsome | hmem
      · obtain ⟨task', htask'⟩ := Option.isSome_iff_exists.mp hsome
        obtain ⟨old, hold, -⟩ := get_step h hsaves.1 hinserts htask'
        exact .inl (by rw [hold]; rfl)
      · exact .inr (.inr hmem)

theorem get_after_of_leavesTerminal (h : Coherent codec store)
    (hsaves : Along (step codec) (Saves codec) store es)
    (hleaves : Along (step codec) LeavesTerminal store es) (hinserts : id ∉ insertedIds es)
    (hterminal : ∀ task, store.get codec id = some task → task.Terminal)
    (htask : (after (step codec) store es).get codec id = some task') :
    store.get codec id = some task' := by
  induction es generalizing store with
  | nil => exact htask
  | cons e es ih =>
    rw [insertedIds_cons, List.mem_append, not_or] at hinserts
    have hstep : ∀ task, (step codec store e).get codec id = some task →
        store.get codec id = some task := by
      intro task htask
      obtain ⟨old, hold, heq⟩ := get_step h hsaves.1 hinserts.1 htask
      rcases heq with rfl | ⟨c, unix, now, tracked, rfl, hlookup, rfl, rfl⟩
      · exact hold
      · rw [Change.apply_eq_self_iff.mpr (hleaves.1 tracked hlookup (hterminal _ hold))]
        exact hold
    exact hstep _ (ih (coherent_step h hsaves.1) hsaves.2 hleaves.2 hinserts.2
      (fun task htask => hterminal task (hstep task htask)) htask)

/-! ## The bound -/

theorem oldest_eq_none {es : List (Table.Entry String (TrackedTask Value))} :
    oldest es = none ↔ es = [] := by
  cases es with
  | nil => exact ⟨fun _ => rfl, fun _ => rfl⟩
  | cons e es =>
    refine iff_of_false (fun h => ?_) (List.cons_ne_nil e es)
    unfold oldest at h
    split at h
    · cases h
    · split at h <;> cases h

theorem mem_of_oldest {es : List (Table.Entry String (TrackedTask Value))}
    {e : Table.Entry String (TrackedTask Value)} (h : oldest es = some e) : e ∈ es := by
  induction es generalizing e with
  | nil => cases h
  | cons u es ih =>
    unfold oldest at h
    split at h
    · cases h
      exact List.mem_cons_self
    · next v hv =>
      split at h
      · cases h
        exact List.mem_cons_of_mem _ (ih hv)
      · cases h
        exact List.mem_cons_self

variable {tasks : Table String (TrackedTask Value)}

theorem evictKey_spec {key : String} (h : evictKey tasks = some key) :
    ∃ tracked, tasks.lookup key = some tracked ∧
      (tracked.task.Terminal ∨ ∀ id' tracked', tasks.lookup id' = some tracked' →
        ¬ tracked'.task.Terminal) := by
  unfold evictKey at h
  split at h
  · next e he =>
    cases h
    obtain ⟨hmem, hterminal⟩ := List.mem_filter.mp (mem_of_oldest he)
    exact ⟨e.2, AList.mem_lookup_iff.mpr hmem, .inl (of_decide_eq_true hterminal)⟩
  · next hnone =>
    obtain ⟨e, he, rfl⟩ := Option.map_eq_some_iff.mp h
    refine ⟨e.2, AList.mem_lookup_iff.mpr (mem_of_oldest he), .inr fun id' tracked' h' ht => ?_⟩
    have hfilter := List.filter_eq_nil_iff.mp (oldest_eq_none.mp hnone)
    exact hfilter _ (AList.mem_lookup_iff.mp h') (decide_eq_true ht)

theorem evictKey_isSome (h : tasks.entries ≠ []) : ∃ key, evictKey tasks = some key := by
  unfold evictKey
  split
  · exact ⟨_, rfl⟩
  · cases ho : oldest tasks.entries with
    | none => exact absurd (oldest_eq_none.mp ho) h
    | some e => exact ⟨e.1, rfl⟩

theorem length_keys_makeRoom {maxTasks : ℕ} (hmax : 0 < maxTasks)
    (h : tasks.keys.length ≤ maxTasks) : (makeRoom maxTasks tasks).keys.length < maxTasks := by
  unfold makeRoom
  split
  · next hfull =>
    have hentries : tasks.entries ≠ [] := by
      intro hnil
      rw [AList.keys, hnil] at hfull
      exact absurd hfull (Nat.not_le.mpr hmax)
    obtain ⟨key, hkey⟩ := evictKey_isSome hentries
    obtain ⟨tracked, hlookup, -⟩ := evictKey_spec hkey
    have hmem : key ∈ tasks.keys := AList.mem_keys.mp (AList.lookup_isSome.mp (by rw [hlookup]; rfl))
    rw [hkey]
    dsimp only
    rw [AList.keys_erase, List.length_erase_of_mem hmem]
    have := List.length_pos_of_mem hmem
    omega
  · next hroom => exact Nat.not_le.mp hroom

theorem length_keys_insert_le (key : String) (tracked : TrackedTask Value)
    (tasks : Table String (TrackedTask Value)) :
    (AList.insert key tracked tasks).keys.length ≤ tasks.keys.length + 1 := by
  rw [AList.keys_insert, List.length_cons]
  exact Nat.succ_le_succ (List.length_erase_le ..)

theorem length_keys_loadRows (now : ℕ) (es : List (Table.Entry String Row))
    (tasks : Table String (TrackedTask Value)) :
    (es.foldl (loadRow codec now) tasks).keys.length ≤ tasks.keys.length + es.length := by
  induction es generalizing tasks with
  | nil => exact le_rfl
  | cons e es ih =>
    have hrow : (loadRow codec now tasks e).keys.length ≤ tasks.keys.length + 1 := by
      unfold loadRow
      split
      · exact Nat.le_succ _
      · exact length_keys_insert_le ..
    calc ((e :: es).foldl (loadRow codec now) tasks).keys.length
        ≤ (loadRow codec now tasks e).keys.length + es.length := ih _
      _ ≤ tasks.keys.length + 1 + es.length := Nat.add_le_add_right hrow _
      _ = tasks.keys.length + (e :: es).length := by rw [List.length_cons]; omega

theorem length_keys_dbLoadIntoMemory (maxTasks now : ℕ) (rows : Table String Row) :
    (dbLoadIntoMemory codec maxTasks now rows).keys.length ≤ maxTasks := by
  refine (length_keys_loadRows ..).trans ?_
  rw [AList.keys_empty, List.length_nil, Nat.zero_add]
  exact List.length_take_le ..

theorem maxTasks_step (e : Event Value) : (step codec store e).maxTasks = store.maxTasks := by
  cases e with
  | insert task unix swept now => exact maxTasks_dbUpsert unix
  | get id => rfl
  | change id c unix now =>
    cases h : store.tasks.lookup id with
    | none => rw [step_change_of_none h]
    | some tracked => rw [step_change_of_some h, maxTasks_dbUpsert]
  | restart unix now =>
    unfold step A2aTaskStore.restart
    dsimp only
    split <;> rfl

/-- **Memory stays within its limit.** -/
theorem length_tasks_step (hmax : 0 < store.maxTasks)
    (h : store.tasks.keys.length ≤ store.maxTasks) (e : Event Value) :
    (step codec store e).tasks.keys.length ≤ store.maxTasks := by
  cases e with
  | insert task unix swept now =>
    refine (length_keys_insert_le ..).trans ?_
    rw [maxTasks_dbUpsert, tasks_dbUpsert]
    exact length_keys_makeRoom hmax ((Table.length_keys_retain_le ..).trans h)
  | get id => exact h
  | change id c unix now =>
    cases hlookup : store.tasks.lookup id with
    | none => rwa [step_change_of_none hlookup]
    | some tracked => rwa [step_change_of_some hlookup, tasks_dbUpsert, Table.keys_modify]
  | restart unix now =>
    unfold step A2aTaskStore.restart
    dsimp only
    split
    · exact Nat.zero_le _
    · exact length_keys_dbLoadIntoMemory ..

theorem length_tasks_after (hmax : 0 < store.maxTasks)
    (h : store.tasks.keys.length ≤ store.maxTasks) (es : List (Event Value)) :
    (after (step codec) store es).tasks.keys.length ≤ store.maxTasks := by
  induction es generalizing store with
  | nil => exact h
  | cons e es ih =>
    have hsame : (step codec store e).maxTasks = store.maxTasks := maxTasks_step e
    rw [after_cons, ← hsame]
    exact ih (hsame ▸ hmax) (hsame ▸ length_tasks_step hmax h e)

/-! ## The eviction at capacity -/

/-- **The eviction at capacity spares active tasks while there is a terminal one.** -/
theorem makeRoom_spares {maxTasks : ℕ} (hlookup : tasks.lookup id = some tracked)
    (hactive : ¬ tracked.task.Terminal) {id' : String} {tracked' : TrackedTask Value}
    (hlookup' : tasks.lookup id' = some tracked') (hterminal : tracked'.task.Terminal) :
    (makeRoom maxTasks tasks).lookup id = some tracked := by
  unfold makeRoom
  split
  · split
    · next key hkey =>
      obtain ⟨victim, hvictim, hspec⟩ := evictKey_spec hkey
      have hne : id ≠ key := by
        rintro rfl
        rw [hlookup] at hvictim
        cases hvictim
        exact hspec.elim hactive fun hnone => hnone id' tracked' hlookup' hterminal
      rwa [AList.lookup_erase_ne hne]
    · exact hlookup
  · exact hlookup

/-- A task in memory has not expired. -/
def Unexpired (store : A2aTaskStore Value) (now : ℕ) (id : String) (tracked : TrackedTask Value) :
    Prop :=
  store.tasks.lookup id = some tracked ∧ now - tracked.updatedAt < store.taskTtl

theorem lookup_evictExpired {now : ℕ} (h : Unexpired store now id tracked) :
    (evictExpired store.taskTtl now store.tasks).lookup id = some tracked := by
  rw [evictExpired, Table.lookup_retain, h.1, Option.filter_some, if_pos (decide_eq_true h.2)]

theorem taskTtl_dbUpsert (task : A2aTask Value) (unix : ℤ) :
    (dbUpsert codec task unix store).taskTtl = store.taskTtl := by
  unfold dbUpsert
  split <;> rfl

theorem mem_tasks_insert {task : A2aTask Value} {unix : ℤ} {swept now : ℕ} {id' : String}
    {tracked tracked' : TrackedTask Value} (h : Unexpired store swept id tracked)
    (hactive : ¬ tracked.task.Terminal) (h' : Unexpired store swept id' tracked')
    (hterminal : tracked'.task.Terminal) :
    id ∈ (step codec store (.insert task unix swept now)).tasks := by
  change id ∈ AList.insert _ _ _
  rw [tasks_dbUpsert, taskTtl_dbUpsert, AList.mem_insert, ← AList.lookup_isSome (a := id),
    makeRoom_spares (lookup_evictExpired h) hactive (lookup_evictExpired h') hterminal]
  exact .inr rfl

/-! ## Runs -/

/-- **Terminal tasks stay as they are exactly when each step leaves them so**; memory holds at most
`maxTasks` tasks, and an insertion at capacity evicts no active task while there is a terminal
one. -/
theorem terminal_final_iff (codec : Codec Value) (maxTasks taskTtl : ℕ) (hmax : 0 < maxTasks)
    (db : Option (Table String Row)) (es : List (Event Value)) (hfresh : (insertedIds es).Nodup)
    (hnew : ∀ id ∈ insertedIds es, (A2aTaskStore.new maxTasks taskTtl db).get codec id = none)
    (hsaves : Along (step codec) (Saves codec) (.new maxTasks taskTtl db) es) :
    let start := A2aTaskStore.new maxTasks taskTtl db
    ((∀ bs cs ds, es = bs ++ cs ++ ds → ∀ id task, (after (step codec) start bs).get codec id =
        some task → task.Terminal → ∀ task', (after (step codec) start (bs ++ cs)).get codec id =
        some task' → task' = task) ↔
      Along (step codec) LeavesTerminal start es) ∧
    (∀ bs cs, es = bs ++ cs → (after (step codec) start bs).tasks.keys.length ≤ maxTasks) ∧
    (∀ bs task unix swept now cs, es = bs ++ .insert task unix swept now :: cs →
      let store := after (step codec) start bs
      ∀ id tracked id' tracked', Unexpired store swept id tracked → ¬ tracked.task.Terminal →
        Unexpired store swept id' tracked' → tracked'.task.Terminal →
        id ∈ (step codec store (.insert task unix swept now)).tasks) := by
  intro start
  refine ⟨⟨fun hfinal => ?_, fun hleaves => ?_⟩, fun bs cs _ => ?_, ?_⟩
  · rw [along_iff_forall]
    intro bs e cs hes
    cases e with
    | change id c unix now =>
      intro tracked hlookup hterminal
      refine Change.apply_eq_self_iff.mp (hfinal bs [.change id c unix now] cs (by rw [hes]; simp) id
        tracked.task (get_of_lookup hlookup) hterminal _ ?_)
      rw [after_append]
      exact get_change hlookup
    | insert task unix swept now => trivial
    | get id => trivial
    | restart unix now => trivial
  · rintro bs cs ds rfl id task htask hterminal task' htask'
    rw [along_append, along_append] at hsaves hleaves
    have hbs : Coherent codec (after (step codec) start bs) :=
      coherent_after (coherent_new maxTasks taskTtl db) hsaves.1.1
    rw [after_append] at htask'
    -- the task was there before `cs`, so it is not inserted again
    have hinserts : id ∉ insertedIds cs := by
      intro hcs
      rw [insertedIds_append, insertedIds_append] at hfresh hnew
      rcases exists_of_get_after (coherent_new maxTasks taskTtl db) hsaves.1.1 htask with hsome | hbs
      · rw [hnew id (List.mem_append_left _ (List.mem_append_right _ hcs))] at hsome
        cases hsome
      · exact (List.nodup_append.mp (List.nodup_append.mp hfresh).1).2.2 id hbs id hcs rfl
    have hsame := get_after_of_leavesTerminal hbs hsaves.1.2 hleaves.1.2 hinserts
      (fun old hold => by rw [htask] at hold; cases hold; exact hterminal) htask'
    rw [htask] at hsame
    exact (Option.some.inj hsame).symm
  · exact @length_tasks_after _ _ start hmax (Nat.zero_le _) bs
  · intro bs task unix swept now cs _ store id tracked id' tracked' h hactive h' hterminal
    exact mem_tasks_insert h hactive h' hterminal

/-- A task is cancelled and then evicted for another one. -/
theorem terminal_final_of_cancelled :
    let start := A2aTaskStore.new 1 10 none
    let es : List (Event Unit) :=
      [.insert (.bare "a" .working) 0 0 0, .change "a" .cancel 1 1,
        .insert (.bare "b" .working) 2 2 2]
    (∀ bs cs ds, es = bs ++ cs ++ ds → ∀ id task, (after (step (.plain Unit)) start bs).get
        (.plain Unit) id = some task → task.Terminal → ∀ task',
        (after (step (.plain Unit)) start (bs ++ cs)).get (.plain Unit) id = some task' →
          task' = task) ∧
      (after (step (.plain Unit)) start es).tasks.keys.length ≤ 1 := by
  intro start es
  have h := terminal_final_iff (.plain Unit) 1 10 (by decide) none es (by decide) (by decide)
    (by decide)
  exact ⟨h.1.mpr (by decide), h.2.1 es [] (List.append_nil es).symm⟩

/-- A completion that arrives after a cancellation goes through. -/
theorem completion_after_cancellation :
    ¬ ∀ (codec : Codec Unit) (maxTasks taskTtl : ℕ) (es : List (Event Unit)), 0 < maxTasks →
      (insertedIds es).Nodup → ∀ bs cs ds, es = bs ++ cs ++ ds → ∀ id task,
        (after (step codec) (.new maxTasks taskTtl none) bs).get codec id = some task →
        task.Terminal → ∀ task', (after (step codec) (.new maxTasks taskTtl none) (bs ++ cs)).get
          codec id = some task' → task' = task := by
  intro h
  have := h (.plain Unit) 1 10
    [.insert (.bare "a" .working) 0 0 0, .change "a" .cancel 1 1,
      .change "a" (.complete ⟨"agent", [.text "done"]⟩ []) 2 2] (by decide) (by decide)
    [.insert (.bare "a" .working) 0 0 0, .change "a" .cancel 1 1]
    [.change "a" (.complete ⟨"agent", [.text "done"]⟩ []) 2 2] [] rfl "a" (.bare "a" .cancelled)
    (by decide) (by decide)
    ⟨"a", none, .enum .completed, [⟨"agent", [.text "done"]⟩], [], none, none⟩ (by decide)
  exact absurd this (by decide)

/-! ## Completions of tasks that memory has evicted -/

theorem onDisk_change (h : Coherent codec store) (hdb : store.db.isSome) {c : Change Value}
    {unix : ℤ} {now : ℕ} (hsaves : Saves codec store (.change id c unix now))
    (htask : store.onDisk codec id = some task) :
    (step codec store (.change id c unix now)).onDisk codec id =
      some (if id ∈ store.tasks then c.apply task else task) := by
  cases hlookup : store.tasks.lookup id with
  | none => rw [step_change_of_none hlookup, if_neg (AList.lookup_eq_none.mp hlookup), htask]
  | some tracked =>
    have hmem : id ∈ store.tasks := AList.lookup_isSome.mp (by rw [hlookup]; rfl)
    obtain rfl : tracked.task = task :=
      Option.some.inj ((h hdb id tracked hlookup).symm.trans htask)
    have hreads := hsaves hdb (c.apply tracked.task) (by simp [written, hlookup])
    rw [step_change_of_some hlookup, if_pos hmem]
    let changed := { store with
      tasks := store.tasks.modify id fun _ => ⟨c.apply tracked.task, now⟩ }
    have hchanged : changed.db.isSome := hdb
    have hself := onDisk_dbUpsert_self hchanged hreads unix
    rwa [c.id_apply, id_of_onDisk htask] at hself

/-- **A call is seen by the next `get` exactly when its task is in memory**, unless it would leave
the task as it is, and as long as no restart prunes the row. -/
theorem get_after_change_iff (codec : Codec Value) (maxTasks taskTtl : ℕ)
    (rows : Table String Row) (before between : List (Event Value)) (id : String) (c : Change Value) (unix : ℤ) (now : ℕ)
    (task : A2aTask Value) :
    let fresh := A2aTaskStore.new maxTasks taskTtl (some rows)
    let store := after (step codec) fresh before
    let changed := step codec store (.change id c unix now)
    Along (step codec) (Saves codec) fresh (before ++ .change id c unix now :: between) →
    store.get codec id = some task → (∀ e ∈ between, ¬ Writes id e) →
      ((after (step codec) changed between).get codec id = some (c.apply task) ↔
        (id ∈ store.tasks ∨ c.apply task = task) ∧
          Along (step codec) (Keeps id) changed between) := by
  intro fresh store changed hsaves htask hwrites
  rw [along_append] at hsaves
  obtain ⟨hbefore, hchange, hbetween⟩ := hsaves
  have hcoherent : Coherent codec store := coherent_after (coherent_new maxTasks taskTtl (some rows)) hbefore
  have hdb : store.db.isSome := isSome_db_after before
  have hchanged : Coherent codec changed := coherent_step hcoherent hchange
  have hdb' : changed.db.isSome := (isSome_db_step _).trans hdb
  rw [get_eq_onDisk hcoherent hdb] at htask
  rw [get_eq_onDisk (coherent_after hchanged hbetween) ((isSome_db_after between).trans hdb'),
    onDisk_after hchanged hdb' hbetween hwrites, onDisk_change hcoherent hdb hchange htask]
  refine and_congr_left fun _ => ?_
  by_cases hmem : id ∈ store.tasks
  · simp [hmem]
  · simp [hmem, eq_comm]

/-- A task is cancelled in memory, evicted and found in the database. -/
theorem get_after_change_iff_evicted :
    let store := after (step (.plain Unit)) (.new 1 10 (some ∅))
      [.insert (.bare "a" .working) 0 0 0]
    let changed := step (.plain Unit) store (.change "a" .cancel 1 1)
    (after (step (.plain Unit)) changed [.insert (.bare "b" .working) 2 2 2]).get
        (.plain Unit) "a" = some (Change.cancel.apply (.bare "a" .working)) ↔
      ("a" ∈ store.tasks ∨
          Change.cancel.apply (.bare "a" .working : A2aTask Unit) = .bare "a" .working) ∧
        Along (step (.plain Unit)) (Keeps "a") changed
          [.insert (.bare "b" .working) 2 2 2] :=
  get_after_change_iff (.plain Unit) 1 10 ∅ [.insert (.bare "a" .working) 0 0 0]
    [.insert (.bare "b" .working) 2 2 2] "a" .cancel 1 1 (.bare "a" .working)
    (by decide) (by decide) (by decide)

/-- A completion of a task that memory has evicted is lost. -/
theorem completion_of_evicted_lost :
    ¬ ∀ (codec : Codec Unit) (maxTasks taskTtl : ℕ) (rows : Table String Row)
        (before : List (Event Unit)) (id : String) (c : Change Unit) (unix : ℤ) (now : ℕ)
        (task : A2aTask Unit),
      let fresh := A2aTaskStore.new maxTasks taskTtl (some rows)
      let store := after (step codec) fresh before
      Along (step codec) (Saves codec) fresh (before ++ [.change id c unix now]) →
        store.get codec id = some task →
          (step codec store (.change id c unix now)).get codec id = some (c.apply task) := by
  intro h
  have := h (.plain Unit) 1 10 ∅
    [.insert (.bare "a" .working) 0 0 0, .insert (.bare "b" .working) 1 1 1] "a"
    (.complete ⟨"agent", [.text "done"]⟩ []) 2 2 (.bare "a" .working) (by decide) (by decide)
  exact absurd this (by decide)

end LibreFang.A2a
