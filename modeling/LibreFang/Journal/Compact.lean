import LibreFang.Journal.Serialize
import LibreFang.Lib.Runs

/-!
# The journal while it is compacted

Messages are recorded and updated under the lock; a compaction takes a snapshot under the lock,
writes it to the temporary file without the lock, and renames that file under the lock.

* `System`, `step`: the journal, its files and any number of compactions.
* `Consistent`: reopening the file gives the messages that are pending.
* **`consistent_iff`**: every state of a run is consistent exactly if its steps are sound.
-/

namespace LibreFang.Journal

open Lines Runs

variable {P : Type}

/-! ## The system -/

/-- How far a call of `compact` is. -/
inductive Phase (P : Type)
  | start
  | taken (snapshot : Pending P)
  | written (snapshot : Pending P)
  | cleanup
  | done

/-- The journal file, the pending messages, the temporary file, which holds the lines of a snapshot
and has one path for all compactions, and the compactions. -/
structure System (P : Type) where
  file : List UInt8
  pending : Pending P
  tmp : Option (Pending P)
  compactions : List (Phase P)

/-- One step of the system. -/
inductive Event (P : Type)
  | record (entry : JournalEntry P)
  | updateStatus (messageId : String) (status : JournalStatus) (error : Option String) (now : ℤ)
  | compact
  | compaction (i : ℕ)

/-- `record`. -/
def record (serde : Serde P) (s : System P) (entry : JournalEntry P) : System P :=
  { s with
    file := writeLine serde s.file entry
    pending := s.pending.insert entry.messageId entry }

/-- The entry that `update_status` writes. -/
def JournalEntry.update (entry : JournalEntry P) (status : JournalStatus) (error : Option String)
    (now : ℤ) : JournalEntry P :=
  if status = .failed then
    { entry with status := status, updatedAt := now, attempts := entry.attempts + 1, lastError := error }
  else { entry with status := status, updatedAt := now }

/-- `update_status`. -/
def updateStatus (serde : Serde P) (s : System P) (messageId : String) (status : JournalStatus)
    (error : Option String) (now : ℤ) : System P :=
  match s.pending.lookup messageId with
  | none => s
  | some entry =>
    let updated := entry.update status error now
    let shouldRemove := status = .completed ∨ status = .failed ∧ 3 ≤ updated.attempts
    { s with
      file := writeLine serde s.file updated
      pending :=
        if shouldRemove then s.pending.erase messageId
        else s.pending.modify messageId fun _ => updated }

/-- Some message was recorded since the snapshot. -/
def raced (s : System P) (snapshot : Pending P) : Bool :=
  s.pending.keys.any fun id => (snapshot.lookup id).isNone

/-- The next phase of a compaction. -/
def compactionStep (serde : Serde P) (s : System P) : Phase P → System P × Phase P
  | .start => (s, .taken s.pending)
  | .taken snapshot => ({ s with tmp := some snapshot }, .written snapshot)
  | .written snapshot =>
    if raced s snapshot then (s, .cleanup)
    else
      match s.tmp with
      | some lines => ({ s with file := snapshotFile serde lines, tmp := none }, .done)
      | none => (s, .cleanup)
  | .cleanup => ({ s with tmp := none }, .done)
  | .done => (s, .done)

/-- A step of the system. -/
def step (serde : Serde P) (s : System P) : Event P → System P
  | .record entry => record serde s entry
  | .updateStatus messageId status error now => updateStatus serde s messageId status error now
  | .compact => { s with compactions := s.compactions ++ [.start] }
  | .compaction i =>
    match s.compactions[i]? with
    | none => s
    | some phase =>
      let (s', phase') := compactionStep serde s phase
      { s' with compactions := s'.compactions.set i phase' }

/-- A journal that was opened. -/
def init (serde : Serde P) (file : List UInt8) : System P := ⟨file, openFile serde file, none, []⟩

/-- Reopening the file gives the messages that are pending. -/
def Consistent (serde : Serde P) (s : System P) : Prop :=
  ∀ id, (openFile serde s.file).lookup id = s.pending.lookup id

/-- The temporary file is about to become the journal. -/
def Renames (s : System P) (i : ℕ) (tmp : Pending P) : Prop :=
  ∃ snapshot, s.compactions[i]? = some (.written snapshot) ∧ raced s snapshot = false ∧
    s.tmp = some tmp

/-- A message is recorded in a state in which it can be recovered, and a file is renamed only if no
pending message changed since the snapshot that it holds. -/
def Sound (s : System P) : Event P → Prop
  | .record entry => entry.recoverable = true
  | .compaction i => ∀ tmp, Renames s i tmp → ∀ id, tmp.lookup id = s.pending.lookup id
  | _ => True

/-- The snapshot of a phase can be recovered from its lines. -/
def PhaseFiled : Phase P → Prop
  | .taken snapshot => snapshot.Forall Filed
  | _ => True

/-- The invariant of the system. -/
structure Inv (serde : Serde P) (s : System P) : Prop where
  consistent : Consistent serde s
  terminated : Terminated s.file
  filed : s.pending.Forall Filed
  tmp : ∀ snapshot, s.tmp = some snapshot → snapshot.Forall Filed
  compactions : ∀ phase ∈ s.compactions, PhaseFiled phase

theorem inv_init (serde : Serde P) {file : List UInt8} (h : Terminated file) :
    Inv serde (init serde file) :=
  ⟨fun _ => rfl, h, forall_filed_openFile serde file, (fun _ htmp => nomatch htmp),
    fun _ hmem => nomatch hmem⟩

/-! ## One step -/

variable {serde : Serde P} {s : System P}

theorem lookup_openFile_writeLine (hs : Inv serde s) (entry : JournalEntry P) (id : String) :
    (openFile serde (writeLine serde s.file entry)).lookup id =
      if id = entry.messageId then if entry.recoverable then some entry else none
      else s.pending.lookup id := by
  rw [openFile_writeLine serde hs.terminated]
  by_cases hid : id = entry.messageId
  · rw [if_pos hid, hid, lookup_recover_self]
  · rw [if_neg hid, lookup_recover_ne _ hid, hs.consistent id]

theorem consistent_record_iff (hs : Inv serde s) (entry : JournalEntry P) :
    Consistent serde (record serde s entry) ↔ entry.recoverable = true := by
  constructor
  · intro h
    have hid := h entry.messageId
    unfold record at hid
    dsimp only at hid
    rw [lookup_openFile_writeLine hs, if_pos rfl, AList.lookup_insert] at hid
    by_contra hrec
    rw [if_neg hrec] at hid
    cases hid
  · intro hrec id
    unfold record
    dsimp only
    rw [lookup_openFile_writeLine hs]
    by_cases hid : id = entry.messageId
    · rw [if_pos hid, if_pos hrec, hid, AList.lookup_insert]
    · rw [if_neg hid, AList.lookup_insert_ne hid]

theorem messageId_update (entry : JournalEntry P) (status : JournalStatus) (error : Option String)
    (now : ℤ) : (entry.update status error now).messageId = entry.messageId := by
  unfold JournalEntry.update
  split_ifs <;> rfl

theorem status_update (entry : JournalEntry P) (status : JournalStatus) (error : Option String)
    (now : ℤ) : (entry.update status error now).status = status := by
  unfold JournalEntry.update
  split_ifs <;> rfl

theorem recoverable_update_iff (entry : JournalEntry P) (status : JournalStatus)
    (error : Option String) (now : ℤ) :
    (entry.update status error now).recoverable = true ↔
      ¬ (status = .completed ∨ status = .failed ∧ 3 ≤ (entry.update status error now).attempts) := by
  unfold JournalEntry.recoverable
  rw [status_update]
  cases status with
  | failed =>
    simp only [decide_eq_true_eq, reduceCtorEq, false_or, true_and, UInt32.not_le]
  | _ => simp

theorem inv_updateStatus (hs : Inv serde s) (messageId : String)
    (status : JournalStatus) (error : Option String) (now : ℤ) :
    Inv serde (updateStatus serde s messageId status error now) := by
  unfold updateStatus
  cases hfound : s.pending.lookup messageId with
  | none => exact hs
  | some entry =>
    dsimp only
    have hid : (entry.update status error now).messageId = messageId :=
      (messageId_update entry status error now).trans (hs.filed messageId entry hfound).1
    have hremove := recoverable_update_iff entry status error now
    refine ⟨fun id => ?_, terminated_writeLine serde hs.terminated _, ?_, hs.tmp, hs.compactions⟩
    · dsimp only
      rw [lookup_openFile_writeLine hs, hid]
      by_cases hkey : id = messageId
      · rw [if_pos hkey, hkey]
        by_cases hgone : status = .completed ∨
            status = .failed ∧ 3 ≤ (entry.update status error now).attempts
        · rw [if_pos hgone, if_neg (fun h => hremove.mp h hgone), AList.lookup_erase]
        · rw [if_neg hgone, if_pos (hremove.mpr hgone), Table.lookup_modify_self, hfound]
          rfl
      · rw [if_neg hkey]
        split_ifs
        · rw [AList.lookup_erase_ne hkey]
        · rw [Table.lookup_modify_ne _ hkey]
    · dsimp only
      split_ifs with hgone
      · exact hs.filed.erase _
      · intro id e he
        by_cases hkey : id = messageId
        · rw [hkey, Table.lookup_modify_self, hfound] at he
          cases he
          rw [hkey]
          exact ⟨hid, hremove.mpr hgone⟩
        · rw [Table.lookup_modify_ne _ hkey] at he
          exact hs.filed id e he

theorem step_of_renames {i : ℕ} {tmp : Pending P} (h : Renames s i tmp) :
    (step serde s (.compaction i)).file = snapshotFile serde tmp ∧
      (step serde s (.compaction i)).pending = s.pending := by
  obtain ⟨snapshot, hphase, hraced, htmp⟩ := h
  have hstep : compactionStep serde s (.written snapshot) =
      ({ s with file := snapshotFile serde tmp, tmp := none }, .done) := by
    unfold compactionStep
    dsimp only
    rw [hraced, if_neg Bool.false_ne_true, htmp]
  unfold step
  dsimp only
  rw [hphase]
  dsimp only
  rw [hstep]
  exact ⟨rfl, rfl⟩

theorem sound_of_consistent (s : System P) (e : Event P) (hs : Inv serde s)
    (h : Consistent serde (step serde s e)) : Sound s e := by
  cases e with
  | record entry => exact (consistent_record_iff hs entry).mp h
  | updateStatus messageId status error now => trivial
  | compact => trivial
  | compaction i =>
    intro tmp hrenames id
    have hid := h id
    rw [(step_of_renames hrenames).1, (step_of_renames hrenames).2] at hid
    obtain ⟨_, _, _, htmp⟩ := hrenames
    rw [lookup_openFile_snapshotFile serde (hs.tmp tmp htmp)] at hid
    exact hid

theorem inv_compactionStep {i : ℕ} {phase : Phase P}
    (hs : Inv serde s) (hphase : s.compactions[i]? = some phase)
    (hsound : Sound s (.compaction i)) :
    Inv serde (compactionStep serde s phase).1 ∧ PhaseFiled (compactionStep serde s phase).2 := by
  cases phase with
  | start => exact ⟨hs, hs.filed⟩
  | taken snapshot =>
    have hfiled : snapshot.Forall Filed := hs.compactions _ (List.mem_of_getElem? hphase)
    refine ⟨⟨hs.consistent, hs.terminated, hs.filed, fun tmp htmp => ?_, hs.compactions⟩, trivial⟩
    obtain rfl : snapshot = tmp := Option.some.inj htmp
    exact hfiled
  | written snapshot =>
    unfold compactionStep
    dsimp only
    cases hraced : raced s snapshot with
    | true => exact ⟨hs, trivial⟩
    | false =>
      rw [if_neg Bool.false_ne_true]
      cases htmp : s.tmp with
      | none => exact ⟨hs, trivial⟩
      | some tmp =>
        have hsame := hsound tmp ⟨snapshot, hphase, hraced, htmp⟩
        refine ⟨⟨fun id => ?_, terminated_unlines _, hs.filed, (fun _ hnone => nomatch hnone),
          hs.compactions⟩, trivial⟩
        exact (lookup_openFile_snapshotFile serde (hs.tmp tmp htmp) id).trans (hsame id)
  | cleanup =>
    exact ⟨⟨hs.consistent, hs.terminated, hs.filed, (fun _ hnone => nomatch hnone),
      hs.compactions⟩, trivial⟩
  | done => exact ⟨hs, trivial⟩

theorem inv_step (s : System P) (e : Event P) (hs : Inv serde s)
    (hsound : Sound s e) : Inv serde (step serde s e) := by
  cases e with
  | record entry =>
    exact ⟨(consistent_record_iff hs entry).mpr hsound, terminated_writeLine serde hs.terminated _,
      hs.filed.insert ⟨rfl, hsound⟩, hs.tmp, hs.compactions⟩
  | updateStatus messageId status error now =>
    exact inv_updateStatus hs messageId status error now
  | compact =>
    refine ⟨hs.consistent, hs.terminated, hs.filed, hs.tmp, fun phase hmem => ?_⟩
    rcases List.mem_append.mp hmem with hmem | hmem
    · exact hs.compactions phase hmem
    · rw [List.mem_singleton.mp hmem]
      trivial
  | compaction i =>
    unfold step
    dsimp only
    cases hphase : s.compactions[i]? with
    | none => exact hs
    | some phase =>
      obtain ⟨hinv, hfiled⟩ := inv_compactionStep hs hphase hsound
      refine ⟨hinv.consistent, hinv.terminated, hinv.filed, hinv.tmp, fun phase' hmem => ?_⟩
      rcases List.mem_or_eq_of_mem_set hmem with hmem | rfl
      · exact hinv.compactions phase' hmem
      · exact hfiled

/-! ## Runs -/

/-- **Durability.** From a file whose last line is complete, every state of a run is consistent if
and only if every step of the run is sound. -/
theorem consistent_iff (serde : Serde P) (file : List UInt8) (h : Terminated file)
    (events : List (Event P)) :
    (∀ pre post, events = pre ++ post →
        Consistent serde (after (step serde) (init serde file) pre)) ↔
      Along (step serde) Sound (init serde file) events :=
  along_iff_of_strengthening (fun _ hs => hs.consistent) sound_of_consistent inv_step
    (inv_init serde h)

/-- A message is recorded and the journal compacted. -/
def calmRun : List (Event Unit) :=
  [.record received, .compact, .compaction 0, .compaction 0, .compaction 0]

theorem consistent_calmRun :
    (∀ pre post, calmRun = pre ++ post →
        Consistent messageSerde (after (step messageSerde) (init messageSerde []) pre)) ↔
      Along (step messageSerde) Sound (init messageSerde []) calmRun :=
  consistent_iff messageSerde [] terminated_nil calmRun

/-- A message is answered between the snapshot of a compaction and its rename. -/
def lateRun : List (Event Unit) :=
  [.record received, .compact, .compaction 0, .compaction 0,
    .updateStatus "m1" .completed none 1, .compaction 0]

/-- A message whose completion was recorded reappears. -/
theorem completed_message_reappears :
    ¬ ∀ (serde : Serde Unit) (events : List (Event Unit)),
      Consistent serde (after (step serde) (init serde []) events) := by
  intro h
  have hall := (along_iff_of_strengthening (fun _ hs => hs.consistent) sound_of_consistent inv_step
    (inv_init messageSerde terminated_nil)).mp fun pre post (_ : lateRun = pre ++ post) =>
      h messageSerde pre
  -- the last step renames the snapshot in which the message is pending
  have hrename := hall.2.2.2.2.2.1 (AList.singleton "m1" received)
    ⟨AList.singleton "m1" received, rfl, rfl, rfl⟩ "m1"
  cases hrename

end LibreFang.Journal
