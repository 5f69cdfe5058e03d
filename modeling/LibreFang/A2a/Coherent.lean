import LibreFang.A2a.Store

/-!
# Memory and the database

* `Change.apply`: the task that a call is to make; `written`: the task that a step writes.
* `Codec.Reads`, `Saves`: what is written can be read back.
* **`get_eq_onDisk`**: then `get` returns what the database has.
* `onDisk_step`, **`onDisk_after`**: what steps that do not write a task leave of it.
-/

namespace LibreFang.A2a

open Runs

variable {Value : Type}

/-! ## What is written -/

/-- The task that a call is to make. -/
def Change.apply : Change Value → A2aTask Value → A2aTask Value
  | .updateStatus status, task => { task with status := .enum status }
  | .complete response artifacts, task =>
    { task with
      messages := task.messages ++ [response]
      artifacts := task.artifacts ++ artifacts
      status := .enum .completed }
  | .fail errorMessage, task =>
    { task with messages := task.messages ++ [errorMessage], status := .enum .failed }
  | .cancel, task => { task with status := .enum .cancelled }

@[simp] theorem Change.id_apply (c : Change Value) (task : A2aTask Value) :
    (c.apply task).id = task.id := by
  cases c <;> rfl

/-- The task that a step writes. -/
def written (store : A2aTaskStore Value) : Event Value → Option (A2aTask Value)
  | .insert task _ _ _ => some task
  | .change id c _ _ => (store.tasks.lookup id).map fun tracked => c.apply tracked.task
  | _ => none

/-- The event is a write of the task with the id. -/
def Writes (id : String) : Event Value → Prop
  | .insert task _ _ _ => task.id = id
  | .change id' _ _ _ => id' = id
  | _ => False

instance (id : String) : DecidablePred (@Writes Value id)
  | .insert task _ _ _ => inferInstanceAs (Decidable (task.id = id))
  | .change id' _ _ _ => inferInstanceAs (Decidable (id' = id))
  | .get _ | .restart .. => isFalse (nomatch ·)

variable (codec : Codec Value)

/-- The row of a task can be read back. -/
def Codec.Reads (task : A2aTask Value) : Prop :=
  codec.statusFromStr (codec.status task.status) = some task.status ∧
    codec.messagesFromStr (codec.messages task.messages) = some task.messages ∧
    codec.artifactsFromStr (codec.artifacts task.artifacts) = some task.artifacts

instance [DecidableEq Value] : DecidablePred codec.Reads := fun _ =>
  inferInstanceAs (Decidable (_ ∧ _ ∧ _))

/-- What a step writes to the database can be read back. -/
def Saves (store : A2aTaskStore Value) (e : Event Value) : Prop :=
  store.db.isSome → ∀ task ∈ written store e, codec.Reads task

instance [DecidableEq Value] (store : A2aTaskStore Value) : DecidablePred (Saves codec store) :=
  fun e => inferInstanceAs (Decidable (_ → ∀ task ∈ written store e, codec.Reads task))

/-- The task that the database has. -/
def A2aTaskStore.onDisk (store : A2aTaskStore Value) (id : String) : Option (A2aTask Value) :=
  (store.db.bind (·.lookup id)).bind (decodeTaskRow codec id)

/-- With a database, the tasks in memory are those of their rows. -/
def Coherent (store : A2aTaskStore Value) : Prop :=
  store.db.isSome → ∀ id tracked, store.tasks.lookup id = some tracked →
    store.onDisk codec id = some tracked.task

/-- A restart keeps the row of the task. -/
def Keeps (id : String) (store : A2aTaskStore Value) : Event Value → Prop
  | .restart unix _ => ∀ rows ∈ store.db, ∀ row ∈ rows.lookup id,
    unix - dbTaskRetentionSecs ≤ row.createdAt
  | _ => True

section Memory

variable {codec} {store : A2aTaskStore Value} {tasks : Table String (TrackedTask Value)}
  {id : String} {task : A2aTask Value} {tracked : TrackedTask Value}

/-! ## Evictions -/

theorem lookup_of_evictExpired {ttl now : ℕ}
    (h : (evictExpired ttl now tasks).lookup id = some tracked) :
    tasks.lookup id = some tracked := by
  rw [evictExpired, Table.lookup_retain, Option.filter_eq_some_iff] at h
  exact h.1

theorem lookup_of_makeRoom {maxTasks : ℕ} (h : (makeRoom maxTasks tasks).lookup id = some tracked) :
    tasks.lookup id = some tracked := by
  unfold makeRoom at h
  split at h
  · split at h
    · next key _ =>
      by_cases hid : id = key
      · subst hid
        rw [AList.lookup_erase] at h
        cases h
      · rwa [AList.lookup_erase_ne hid] at h
    · exact h
  · exact h

theorem lookup_of_loadRows {now : ℕ} {es : List (Table.Entry String Row)} {P : A2aTask Value → Prop}
    (hes : ∀ e ∈ es, e.1 = id → ∀ task, decodeTaskRow codec id e.2 = some task → P task)
    (htasks : ∀ tracked, tasks.lookup id = some tracked → P tracked.task)
    (h : (es.foldl (loadRow codec now) tasks).lookup id = some tracked) : P tracked.task := by
  induction es generalizing tasks with
  | nil => exact htasks tracked h
  | cons e es ih =>
    refine ih (fun e' he' => hes e' (List.mem_cons_of_mem _ he')) (fun tracked' h' => ?_) h
    unfold loadRow at h'
    split at h'
    · exact htasks tracked' h'
    · next task' hdecode =>
      by_cases hid : id = e.1
      · rw [← hid, AList.lookup_insert] at h'
        cases h'
        exact hes e List.mem_cons_self hid.symm task' (hid ▸ hdecode)
      · rw [AList.lookup_insert_ne hid] at h'
        exact htasks tracked' h'

theorem lookup_of_dbLoadIntoMemory {maxTasks now : ℕ} {rows : Table String Row}
    (h : (dbLoadIntoMemory codec maxTasks now rows).lookup id = some tracked) :
    (rows.lookup id).bind (decodeTaskRow codec id) = some tracked.task := by
  refine lookup_of_loadRows (P := fun task => (rows.lookup id).bind (decodeTaskRow codec id) =
    some task) (fun e he hid task hdecode => ?_) (fun _ h => ?_) h
  · have hrow : rows.lookup e.1 = some e.2 :=
      AList.mem_lookup_iff.mpr ((List.mem_insertionSort _).mp (List.mem_of_mem_take he))
    rw [← hid, hrow, Option.bind_some, hid]
    exact hdecode
  · rw [AList.lookup_empty] at h
    cases h

/-! ## The database -/

theorem decode_of_reads (h : codec.Reads task) (createdAt updatedAt : ℤ) :
    decodeTaskRow codec task.id
      { status := codec.status task.status
        sessionId := task.sessionId
        messagesJson := codec.messages task.messages
        artifactsJson := codec.artifacts task.artifacts
        agentId := task.agentId
        callerA2aAgentId := task.callerA2aAgentId
        createdAt
        updatedAt } = some task := by
  obtain ⟨hstatus, hmessages, hartifacts⟩ := h
  unfold decodeTaskRow
  simp only [hstatus, hmessages, hartifacts, Option.some_or, Option.getD_some]

@[simp] theorem tasks_dbUpsert (unix : ℤ) :
    (dbUpsert codec task unix store).tasks = store.tasks := by
  unfold dbUpsert
  split <;> rfl

@[simp] theorem maxTasks_dbUpsert (unix : ℤ) :
    (dbUpsert codec task unix store).maxTasks = store.maxTasks := by
  unfold dbUpsert
  split <;> rfl

@[simp] theorem isSome_db_dbUpsert (unix : ℤ) :
    (dbUpsert codec task unix store).db.isSome = store.db.isSome := by
  unfold dbUpsert
  split
  · rfl
  · next h => rw [h]; rfl

theorem onDisk_dbUpsert_self (hdb : store.db.isSome) (h : codec.Reads task) (unix : ℤ) :
    (dbUpsert codec task unix store).onDisk codec task.id = some task := by
  obtain ⟨rows, hrows⟩ := Option.isSome_iff_exists.mp hdb
  unfold dbUpsert A2aTaskStore.onDisk
  rw [hrows]
  simp only [Option.bind_some, AList.lookup_insert]
  exact decode_of_reads h ..

theorem onDisk_dbUpsert_ne (hid : id ≠ task.id) (unix : ℤ) :
    (dbUpsert codec task unix store).onDisk codec id = store.onDisk codec id := by
  unfold dbUpsert A2aTaskStore.onDisk
  cases hdb : store.db with
  | none => simp [hdb]
  | some rows => simp [AList.lookup_insert_ne hid]

theorem step_change (id : String) (c : Change Value) (unix : ℤ) (now : ℕ) :
    step codec store (.change id c unix now) = (store.change codec id c.apply unix now).2 := by
  cases c <;> rfl

theorem step_change_of_none {c : Change Value} {unix : ℤ} {now : ℕ}
    (h : store.tasks.lookup id = none) : step codec store (.change id c unix now) = store := by
  rw [step_change, A2aTaskStore.change, h]

theorem step_change_of_some {c : Change Value} {unix : ℤ} {now : ℕ}
    (h : store.tasks.lookup id = some tracked) :
    step codec store (.change id c unix now) = dbUpsert codec (c.apply tracked.task) unix
      { store with tasks := store.tasks.modify id fun _ => ⟨c.apply tracked.task, now⟩ } := by
  rw [step_change, A2aTaskStore.change, h]

theorem isSome_db_step (e : Event Value) : (step codec store e).db.isSome = store.db.isSome := by
  cases e with
  | insert task unix swept now => exact isSome_db_dbUpsert unix
  | get id => rfl
  | change id c unix now =>
    cases h : store.tasks.lookup id with
    | none => rw [step_change_of_none h]
    | some tracked => rw [step_change_of_some h, isSome_db_dbUpsert]
  | restart unix now =>
    unfold step A2aTaskStore.restart
    dsimp only
    split
    · next h => rw [h]; rfl
    · next h => rw [h]; rfl

/-! ## Steps -/

theorem id_of_onDisk (h : store.onDisk codec id = some task) : task.id = id := by
  obtain ⟨row, -, hdecode⟩ := Option.bind_eq_some_iff.mp h
  unfold decodeTaskRow at hdecode
  split at hdecode
  · cases hdecode
  · cases hdecode
    rfl

/-- **With a database, `get` returns what the database has.** -/
theorem get_eq_onDisk (h : Coherent codec store) (hdb : store.db.isSome) (id : String) :
    store.get codec id = store.onDisk codec id := by
  unfold A2aTaskStore.get
  split
  · next tracked htracked => exact (h hdb id tracked htracked).symm
  · rfl

theorem get_of_no_db (hdb : store.db = none) (id : String) :
    store.get codec id = (store.tasks.lookup id).map (·.task) := by
  unfold A2aTaskStore.get
  cases store.tasks.lookup id with
  | none => simp [hdb]
  | some tracked => rfl

theorem get_of_lookup (h : store.tasks.lookup id = some tracked) :
    store.get codec id = some tracked.task := by
  rw [A2aTaskStore.get, h]

/-- **A step whose write can be read back keeps memory and database in step.** -/
theorem coherent_step (h : Coherent codec store) {e : Event Value} (hsaves : Saves codec store e) :
    Coherent codec (step codec store e) := by
  intro hdb id tracked htracked
  rw [isSome_db_step] at hdb
  cases e with
  | insert task unix swept now =>
    by_cases hid : id = task.id
    · subst hid
      rw [step, A2aTaskStore.insert, AList.lookup_insert] at htracked
      cases htracked
      exact onDisk_dbUpsert_self hdb (hsaves hdb task rfl) unix
    · rw [step, A2aTaskStore.insert, AList.lookup_insert_ne hid] at htracked
      have hold := lookup_of_evictExpired (lookup_of_makeRoom htracked)
      rw [tasks_dbUpsert] at hold
      exact (onDisk_dbUpsert_ne hid unix).trans (h hdb id tracked hold)
  | get id' => exact h hdb id tracked htracked
  | change id' c unix now =>
    cases hlookup : store.tasks.lookup id' with
    | none =>
      rw [step_change_of_none hlookup] at htracked ⊢
      exact h hdb id tracked htracked
    | some old =>
      have hold : old.task.id = id' := id_of_onDisk (h hdb id' old hlookup)
      rw [step_change_of_some hlookup] at htracked ⊢
      rw [tasks_dbUpsert] at htracked
      by_cases hid : id = id'
      · subst hid
        rw [Table.lookup_modify_self, hlookup] at htracked
        cases htracked
        have hreads := hsaves hdb (c.apply old.task) (by simp [written, hlookup])
        let changed := { store with
          tasks := store.tasks.modify id fun _ => ⟨c.apply old.task, now⟩ }
        have hchanged : changed.db.isSome := hdb
        have hself := onDisk_dbUpsert_self hchanged hreads unix
        rwa [c.id_apply, hold] at hself
      · rw [Table.lookup_modify_ne _ hid] at htracked
        have hne : id ≠ (c.apply old.task).id := by rwa [c.id_apply, hold]
        exact (onDisk_dbUpsert_ne hne unix).trans (h hdb id tracked htracked)
  | restart unix now =>
    obtain ⟨rows, hrows⟩ := Option.isSome_iff_exists.mp hdb
    unfold step A2aTaskStore.restart at htracked ⊢
    dsimp only at htracked ⊢
    simp only [hrows] at htracked ⊢
    exact lookup_of_dbLoadIntoMemory htracked

theorem coherent_new (maxTasks taskTtl : ℕ) (db : Option (Table String Row)) :
    Coherent codec (.new maxTasks taskTtl db) := by
  intro _ id tracked htracked
  simp [A2aTaskStore.new] at htracked

/-- **A run whose writes can be read back keeps them in step.** -/
theorem coherent_after (h : Coherent codec store) {es : List (Event Value)}
    (hsaves : Along (step codec) (Saves codec) store es) :
    Coherent codec (after (step codec) store es) :=
  invariant (I := Coherent codec) (fun _ _ h hsaves => coherent_step h hsaves) h hsaves

theorem isSome_db_after (es : List (Event Value)) :
    (after (step codec) store es).db.isSome = store.db.isSome := by
  induction es generalizing store with
  | nil => rfl
  | cons e es ih => exact ih.trans (isSome_db_step e)

/-- **A step that does not write a task keeps it on disk, or prunes it.** -/
theorem onDisk_step (h : Coherent codec store) (hdb : store.db.isSome) {e : Event Value}
    (hwrites : ¬ Writes id e) :
    (step codec store e).onDisk codec id = some task ↔
      store.onDisk codec id = some task ∧ Keeps id store e := by
  cases e with
  | insert task' unix swept now =>
    rw [show (step codec store (.insert task' unix swept now)).onDisk codec id = _ from
      onDisk_dbUpsert_ne (Ne.symm hwrites) unix]
    exact (and_iff_left trivial).symm
  | get id' => exact (and_iff_left trivial).symm
  | change id' c unix now =>
    refine Iff.trans (Eq.congr_left ?_) (and_iff_left trivial).symm
    cases hlookup : store.tasks.lookup id' with
    | none => rw [step_change_of_none hlookup]
    | some old =>
      rw [step_change_of_some hlookup, onDisk_dbUpsert_ne]
      · rfl
      · rw [c.id_apply, id_of_onDisk (h hdb id' old hlookup)]
        exact Ne.symm hwrites
  | restart unix now =>
    obtain ⟨rows, hrows⟩ := Option.isSome_iff_exists.mp hdb
    unfold step A2aTaskStore.restart A2aTaskStore.onDisk Keeps
    simp only [hrows, Option.bind_some, dbPruneOldTasks, Table.lookup_retain]
    simp only [Option.mem_def, Option.some.injEq, forall_eq']
    cases hrow : rows.lookup id with
    | none => simp
    | some row =>
      simp only [Option.filter_some, decide_eq_true_eq, Option.some.injEq, forall_eq',
        Option.bind_some]
      by_cases hkept : unix - dbTaskRetentionSecs ≤ row.createdAt
      · rw [if_pos hkept, Option.bind_some, and_iff_left hkept]
      · rw [if_neg hkept, Option.bind_none, iff_false_right fun hs => hkept hs.2]
        exact nofun

/-- **Steps that do not write a task keep it on disk, unless one prunes it.** -/
theorem onDisk_after (h : Coherent codec store) (hdb : store.db.isSome) {es : List (Event Value)}
    (hsaves : Along (step codec) (Saves codec) store es) (hwrites : ∀ e ∈ es, ¬ Writes id e) :
    (after (step codec) store es).onDisk codec id = some task ↔
      store.onDisk codec id = some task ∧ Along (step codec) (Keeps id) store es := by
  induction es generalizing store with
  | nil => exact (and_iff_left trivial).symm
  | cons e es ih =>
    rw [after_cons, ih (coherent_step h hsaves.1) ((isSome_db_step e).trans hdb) hsaves.2
      fun e' he' => hwrites e' (List.mem_cons_of_mem _ he'),
      onDisk_step h hdb (hwrites e List.mem_cons_self), and_assoc]
    rfl

end Memory

end LibreFang.A2a
