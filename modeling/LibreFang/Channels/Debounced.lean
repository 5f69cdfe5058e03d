import LibreFang.Channels.Debounce

/-!
# Nothing that is held back is stranded or lost

* `buffered`: the messages held for a sender; what each call of the debouncer makes of them.
* **`good_step`**: every event keeps every buffer awake.
* **`merged_once`**: in every run, a buffer has its key in the flush queue or a live task that will
  put it there, and every message is in one batch, which is merged into one message.
-/

namespace LibreFang.Channels.Debounce

variable {Coordinate Envelope Block : Type} {w w' : World Coordinate Envelope Block}
  {d : MessageDebouncer} {key : String}

/-! ## What is buffered -/

/-- The messages held for a sender. -/
def buffered (w : World Coordinate Envelope Block) (key : String) :
    List (PendingMessage Coordinate Envelope Block) :=
  ((w.buffers.lookup key).map (·.messages)).getD []

@[simp] theorem buffers_send (key : String) : (w.send key).buffers = w.buffers := rfl

@[simp] theorem buffers_store (key : String) (buf : SenderBuffer Coordinate Envelope Block) :
    (w.store key buf).buffers = w.buffers.insert key buf := rfl

theorem buffered_store (key' : String) (buf : SenderBuffer Coordinate Envelope Block) :
    buffered (w.store key buf) key' = if key' = key then buf.messages else buffered w key' := by
  unfold buffered
  rw [buffers_store]
  by_cases h : key' = key
  · rw [if_pos h, h, AList.lookup_insert]
    rfl
  · rw [if_neg h, AList.lookup_insert_ne h]

theorem buffered_congr (h : w'.buffers = w.buffers) (key : String) :
    buffered w' key = buffered w key := by
  unfold buffered
  rw [h]

theorem bufferOf_spec (d : MessageDebouncer) (key : String) (now : ℕ)
    (w : World Coordinate Envelope Block) :
    (bufferOf d key now w).1.messages = buffered w key ∧
      (bufferOf d key now w).2.buffers = w.buffers := by
  unfold bufferOf buffered
  cases w.buffers.lookup key with
  | none => exact ⟨rfl, rfl⟩
  | some buf => exact ⟨rfl, rfl⟩

theorem buffered_push (m : PendingMessage Coordinate Envelope Block) (now : ℕ) (key' : String) :
    buffered (push d key m now w) key' =
      if key' = key then buffered w key ++ [m] else buffered w key' := by
  obtain ⟨hmessages, hbuffers⟩ := bufferOf_spec d key now w
  unfold push
  split
  rename_i buf w₁ hbuf
  rw [hbuf] at hmessages hbuffers
  dsimp only at hmessages hbuffers ⊢
  split
  · rw [buffered_congr (buffers_send _), buffered_store, hmessages]
    congr 1
    exact buffered_congr hbuffers key'
  · unfold rearm
    rw [buffered_store, hmessages]
    congr 1
    exact buffered_congr hbuffers key'

theorem buffered_restore {buf buf' : SenderBuffer Coordinate Envelope Block}
    (hbuf : w.buffers.lookup key = some buf) (hw : w'.buffers = w.buffers)
    (hmessages : buf'.messages = buf.messages) (key' : String) :
    buffered (w'.store key buf') key' = buffered w key' := by
  rw [buffered_store, buffered_congr hw]
  split
  · rename_i heq
    unfold buffered
    rw [heq, hbuf, hmessages]
    rfl
  · rfl

theorem buffered_onTyping (isTyping : Bool) (now : ℕ) (key' : String) :
    buffered (onTyping d key isTyping now w) key' = buffered w key' := by
  unfold onTyping
  cases hbuf : w.buffers.lookup key with
  | none => rfl
  | some buf =>
    dsimp only
    split
    · rfl
    split
    · refine buffered_restore hbuf ?_ ?_ key' <;> rfl
    · refine buffered_restore hbuf ?_ ?_ key' <;> rfl

theorem buffered_expire (handle now : ℕ) (key' : String) :
    buffered (expire handle now w) key' = buffered w key' := by
  unfold expire
  cases w.tasks.get? handle with
  | none => rfl
  | some task =>
    dsimp only
    split
    · rfl
    · rfl

section Drain

variable [ToString Coordinate]

/-- What a drain may answer for the messages of a buffer. -/
def Answered (messages : List (PendingMessage Coordinate Envelope Block))
    (answer : Option (Drained Coordinate Envelope Block)) : Prop :=
  (answer = none ↔ messages = []) ∧ ∀ r, answer = some r → Merged messages r

/-- **A drain takes all of the buffer.** -/
theorem drain_answered (w : World Coordinate Envelope Block) (key : String) :
    Answered (buffered w key) (drain key w).1 := by
  unfold drain buffered
  cases w.buffers.lookup key with
  | none => exact ⟨iff_of_true rfl rfl, fun r hr => by cases hr⟩
  | some buf =>
    obtain ⟨messages, _, _, _⟩ := buf
    cases messages with
    | nil => exact ⟨iff_of_true rfl rfl, fun r hr => by cases hr⟩
    | cons first rest =>
      refine ⟨iff_of_false (fun h => by cases h) (List.cons_ne_nil _ _), fun r hr => ?_⟩
      cases hr
      exact merge_merged first rest

theorem buffers_drain (w : World Coordinate Envelope Block) (key : String) :
    (drain key w).2.buffers = w.buffers.erase key := by
  unfold drain
  cases hbuf : w.buffers.lookup key with
  | none =>
    refine AList.ext ?_
    exact (Table.erase_of_notMem fun h => absurd (AList.lookup_isSome.mpr h)
      (by rw [hbuf]; exact Bool.false_ne_true)).symm
  | some buf =>
    obtain ⟨messages, _, _, _⟩ := buf
    cases messages with
    | nil => rfl
    | cons first rest => rfl

theorem buffered_drain (w : World Coordinate Envelope Block) (key key' : String) :
    buffered (drain key w).2 key' = if key = key' then [] else buffered w key' := by
  unfold buffered
  rw [buffers_drain]
  by_cases h : key = key'
  · rw [if_pos h, h, AList.lookup_erase]
    rfl
  · rw [if_neg h, AList.lookup_erase_ne (Ne.symm h)]

end Drain

/-! ## What keeps a buffer awake -/

/-- What a call leaves of the tasks and the queue, from the view of a sender. -/
structure Spares (key : String) (w w' : World Coordinate Envelope Block) : Prop where
  queue : key ∈ w.queue → key ∈ w'.queue
  next : w.tasks.next ≤ w'.tasks.next
  old : ∀ id < w.tasks.next, ∀ task, w'.tasks.get? id = some task → w.tasks.get? id = some task
  kept : ∀ id task, w.tasks.get? id = some task → task.key = key →
    w'.tasks.get? id = some task ∨ key ∈ w'.queue

theorem Spares.refl (key : String) (w : World Coordinate Envelope Block) : Spares key w w :=
  ⟨id, le_rfl, fun _ _ _ h => h, fun _ _ h _ => .inl h⟩

theorem Spares.trans {w'' : World Coordinate Envelope Block} (h : Spares key w w')
    (h' : Spares key w' w'') : Spares key w w'' where
  queue hkey := h'.queue (h.queue hkey)
  next := le_trans h.next h'.next
  old id hid task htask := h.old id hid task (h'.old id (lt_of_lt_of_le hid h.next) task htask)
  kept id task htask hkey := by
    obtain hlive | hqueue := h.kept id task htask hkey
    · exact h'.kept id task hlive hkey
    · exact .inr (h'.queue hqueue)

theorem Spares.of_eq (hqueue : w'.queue = w.queue) (htasks : w'.tasks = w.tasks) :
    Spares key w w' := by
  refine ⟨fun h => hqueue ▸ h, (htasks ▸ le_rfl), fun id _ task h => htasks ▸ h,
    fun id task h _ => .inl (htasks ▸ h)⟩

theorem spares_store (key' : String) (buf : SenderBuffer Coordinate Envelope Block) :
    Spares key w (w.store key' buf) := .of_eq rfl rfl

theorem spares_send (key' : String) : Spares key w (w.send key') :=
  ⟨List.mem_append_left _, le_rfl, fun _ _ _ h => h, fun _ _ h _ => .inl h⟩

theorem spares_spawn (key' : String) (due : ℕ) : Spares key w (w.spawn key' due) where
  queue := id
  next := Nat.le_succ _
  old id hid task h := by rwa [World.spawn, Alarms.get?_set_of_lt _ hid] at h
  kept id task h _ := by
    refine .inl ?_
    have hid : id < w.tasks.next := by
      by_contra hle
      rw [Alarms.get?_next_le (Nat.le_of_not_lt hle)] at h
      cases h
    rwa [World.spawn, Alarms.get?_set_of_lt _ hid]

theorem get?_of_abort {handle : Option ℕ} {id : ℕ} {task : FlushTask}
    (h : (w.abort handle).tasks.get? id = some task) : w.tasks.get? id = some task := by
  cases handle with
  | none => exact h
  | some own =>
    rw [World.abort, Option.elim_some, Alarms.get?_abort] at h
    split at h
    · cases h
    · exact h

theorem spares_abort {handle : Option ℕ}
    (h : ∀ id task, handle = some id → w.tasks.get? id = some task → task.key ≠ key) :
    Spares key w (w.abort handle) := by
  cases handle with
  | none => exact .of_eq rfl rfl
  | some own =>
    refine ⟨id, le_rfl, fun id _ task htask => get?_of_abort htask,
      fun id task htask hkey => .inl ?_⟩
    rw [World.abort, Option.elim_some, Alarms.get?_abort, if_neg, htask]
    rintro rfl
    exact h id task rfl htask hkey

/-- **A task that goes off sends its key**, so nothing else is lost with it. -/
theorem spares_expire (handle now : ℕ) : Spares key w (expire handle now w) := by
  unfold expire
  cases hget : w.tasks.get? handle with
  | none => exact .refl _ _
  | some task =>
    dsimp only
    split
    · by_cases hkey : task.key = key
      · refine ⟨List.mem_append_left _, le_rfl, fun id _ task' h => get?_of_abort h,
          fun id task' _ _ => .inr ?_⟩
        exact List.mem_append_right _ (List.mem_singleton.mpr hkey.symm)
      · refine (spares_abort fun id task' hid htask => ?_).trans (spares_send _)
        cases hid
        rw [hget] at htask
        exact Option.some.inj htask ▸ hkey
    · exact .refl _ _

/-- The handles of a buffer belong to its sender, and the one that bounds how long it is held is
live unless the key is in the queue. -/
structure Minded (w : World Coordinate Envelope Block) (key : String) (timer bound : Option ℕ) :
    Prop where
  below : ∀ id, timer = some id ∨ bound = some id → id < w.tasks.next
  own : ∀ id, timer = some id ∨ bound = some id → ∀ task, w.tasks.get? id = some task →
    task.key = key
  apart : ∀ id, timer = some id → bound ≠ some id
  awake : key ∈ w.queue ∨ ∃ id task, bound = some id ∧ w.tasks.get? id = some task

variable {timer bound : Option ℕ}

theorem Minded.spares (h : Minded w key timer bound)
    (hs : Spares key w w') : Minded w' key timer bound where
  below id hid := lt_of_lt_of_le (h.below id hid) hs.next
  own id hid task htask := h.own id hid task (hs.old id (h.below id hid) task htask)
  apart := h.apart
  awake := by
    obtain hqueue | ⟨id, task, hid, htask⟩ := h.awake
    · exact .inl (hs.queue hqueue)
    · refine (hs.kept id task htask (h.own id (.inr hid) task htask)).symm.imp_right fun hlive => ?_
      exact ⟨id, task, hid, hlive⟩

/-- **The invariant**: every buffer is minded. -/
def Good (w : World Coordinate Envelope Block) : Prop :=
  ∀ key buf, w.buffers.lookup key = some buf → Minded w key buf.timerHandle buf.maxTimerHandle

theorem Good.of_key (h : Good w) (key : String) (hspares : ∀ k, k ≠ key → Spares k w w')
    (hsame : ∀ k, k ≠ key → w'.buffers.lookup k = w.buffers.lookup k)
    (hkey : ∀ buf, w'.buffers.lookup key = some buf →
      Minded w' key buf.timerHandle buf.maxTimerHandle) : Good w' := by
  intro k buf hbuf
  by_cases hk : k = key
  · subst hk
    exact hkey buf hbuf
  · rw [hsame k hk] at hbuf
    exact (h k buf hbuf).spares (hspares k hk)

theorem good_idle : Good (World.idle : World Coordinate Envelope Block) := fun key buf h => by
  cases h

theorem Minded.spares_abort {timer bound handle : Option ℕ} (h : Minded w key timer bound)
    (hhandle : handle = timer ∨ handle = bound) {k : String} (hk : k ≠ key) :
    Spares k w (w.abort handle) := by
  refine Debounce.spares_abort fun id task hid htask htaskkey => hk ?_
  rw [← htaskkey, ← h.own id ?_ task htask]
  exact hhandle.imp (fun heq => heq.symm.trans hid) fun heq => heq.symm.trans hid

theorem Minded.abort_timer (h : Minded w key timer bound) :
    Minded (w.abort timer) key none bound := by
  cases timer with
  | none => exact h
  | some own =>
    have hbound {id : ℕ} (hid : none = some id ∨ bound = some id) :
        some own = some id ∨ bound = some id := hid.imp_left fun hnone => by cases hnone
    refine ⟨fun id hid => h.below id (hbound hid),
      fun id hid task htask => h.own id (hbound hid) task (get?_of_abort htask),
      fun id hid => (by cases hid), ?_⟩
    refine h.awake.imp_right fun ⟨id, task, hid, htask⟩ => ⟨id, task, hid, ?_⟩
    rw [World.abort, Option.elim_some, Alarms.get?_abort, if_neg, htask]
    rintro rfl
    exact h.apart id rfl hid

theorem Minded.spawn {bound : Option ℕ} (h : Minded w key none bound) (due : ℕ) :
    Minded (w.spawn key due) key (some w.tasks.next) bound := by
  have hs := h.spares (spares_spawn key due)
  have hget : (w.spawn key due).tasks.get? w.tasks.next = some ⟨key, due⟩ :=
    (Alarms.get?_set _ _ _).trans (if_pos rfl)
  refine ⟨fun id hid => ?_, fun id hid task htask => ?_, fun id hid hbound => ?_, hs.awake⟩
  · obtain hid | hid := hid
    · cases hid
      exact Nat.lt_succ_self _
    · exact hs.below id (.inr hid)
  · obtain hid | hid := hid
    · cases hid
      rw [hget] at htask
      cases htask
      rfl
    · exact hs.own id (.inr hid) task htask
  · cases hid
    exact absurd (h.below _ (.inr hbound)) (lt_irrefl _)

theorem bufferOf_minded (h : Good w) (d : MessageDebouncer) (key : String) (now : ℕ) :
    Minded (bufferOf d key now w).2 key (bufferOf d key now w).1.timerHandle
        (bufferOf d key now w).1.maxTimerHandle ∧
      ∀ k, Spares k w (bufferOf d key now w).2 := by
  unfold bufferOf
  cases hbuf : w.buffers.lookup key with
  | some buf => exact ⟨h key buf hbuf, fun k => .refl k w⟩
  | none =>
    have hget : (w.spawn key (now + fromMillis d.debounceMaxMs)).tasks.get? w.tasks.next =
        some ⟨key, now + fromMillis d.debounceMaxMs⟩ :=
      (Alarms.get?_set _ _ _).trans (if_pos rfl)
    refine ⟨⟨fun id hid => ?_, fun id hid task htask => ?_, fun id hid => (by cases hid),
      .inr ⟨_, _, rfl, hget⟩⟩, fun k => spares_spawn _ _⟩
    · obtain hid | hid := hid
      · cases hid
      · cases hid
        exact Nat.lt_succ_self _
    · obtain hid | hid := hid
      · cases hid
      · cases hid
        rw [hget] at htask
        cases htask
        rfl

theorem rearm_minded (d : MessageDebouncer) (now : ℕ)
    (buf : SenderBuffer Coordinate Envelope Block) (h : Minded w key none buf.maxTimerHandle) :
    (∀ buf', (rearm d key now buf w).buffers.lookup key = some buf' →
      Minded (rearm d key now buf w) key buf'.timerHandle buf'.maxTimerHandle) ∧
    ∀ k, Spares k w (rearm d key now buf w) := by
  unfold rearm
  refine ⟨fun buf' hbuf' => ?_, fun k => (spares_spawn _ _).trans (spares_store _ _)⟩
  rw [buffers_store, AList.lookup_insert] at hbuf'
  cases hbuf'
  exact (h.spawn _).spares (spares_store _ _)

theorem minded_of_queue (h : key ∈ w.queue) : Minded w key none none :=
  ⟨fun id hid => by simp at hid, fun id hid => by simp at hid, fun id hid => (by cases hid), .inl h⟩

theorem good_push (h : Good w) (m : PendingMessage Coordinate Envelope Block) (now : ℕ) :
    Good (push d key m now w) := by
  obtain ⟨hminded, hspares⟩ := bufferOf_minded h d key now
  have hbuffers := (bufferOf_spec d key now w).2
  unfold push
  split
  rename_i buf w₁ hbuf
  rw [hbuf] at hminded hspares hbuffers
  dsimp only at hminded hspares hbuffers ⊢
  have htimer := hminded.abort_timer
  have hothers (k : String) (hk : k ≠ key) : Spares k w (w₁.abort buf.timerHandle) :=
    (hspares k).trans (hminded.spares_abort (.inl rfl) hk)
  have hsame (k : String) (hk : k ≠ key) (b : SenderBuffer Coordinate Envelope Block) :
      (w₁.buffers.insert key b).lookup k = w.buffers.lookup k := by
    rw [AList.lookup_insert_ne hk, hbuffers]
  split
  · refine h.of_key key (fun k hk => ?_) (fun k hk => hsame k hk _) fun buf' hbuf' => ?_
    · exact (hothers k hk).trans ((htimer.spares_abort (.inr rfl) hk).trans
        ((spares_store _ _).trans (spares_send _)))
    · rw [buffers_send, buffers_store, AList.lookup_insert] at hbuf'
      cases hbuf'
      exact minded_of_queue (List.mem_append_right _ (List.mem_singleton.mpr rfl))
  · obtain ⟨hkey, hspares'⟩ := rearm_minded d now
      { buf with messages := buf.messages ++ [m], timerHandle := none } htimer
    exact h.of_key key (fun k hk => (hothers k hk).trans (hspares' k)) (fun k hk => hsame k hk _) hkey

theorem good_onTyping (h : Good w) (isTyping : Bool) (now : ℕ) :
    Good (onTyping d key isTyping now w) := by
  unfold onTyping
  cases hbuf : w.buffers.lookup key with
  | none => exact h
  | some buf =>
    have hminded := h key buf hbuf
    have htimer := hminded.abort_timer
    have hothers (k : String) (hk : k ≠ key) : Spares k w (w.abort buf.timerHandle) :=
      hminded.spares_abort (.inl rfl) hk
    dsimp only
    split
    · exact fun k b hb => (h k b hb).spares (spares_send _)
    split
    · refine h.of_key key (fun k hk => (hothers k hk).trans (spares_store _ _))
        (fun k hk => AList.lookup_insert_ne hk) fun buf' hbuf' => ?_
      rw [buffers_store, AList.lookup_insert] at hbuf'
      cases hbuf'
      exact htimer.spares (spares_store _ _)
    · obtain ⟨hkey, hspares'⟩ := rearm_minded d now { buf with timerHandle := none } htimer
      exact h.of_key key (fun k hk => (hothers k hk).trans (hspares' k))
        (fun k hk => AList.lookup_insert_ne hk) hkey

theorem buffers_expire (handle now : ℕ) : (expire handle now w).buffers = w.buffers := by
  unfold expire
  cases w.tasks.get? handle with
  | none => rfl
  | some task =>
    dsimp only
    split
    · rfl
    · rfl

theorem good_expire (h : Good w) (handle now : ℕ) : Good (expire handle now w) := by
  intro key buf hbuf
  rw [buffers_expire] at hbuf
  exact (h key buf hbuf).spares (spares_expire _ _)

theorem mem_queue_expire {handle now : ℕ} {task : FlushTask}
    (h : w.tasks.get? handle = some task) (hdue : task.due ≤ now) :
    task.key ∈ (expire handle now w).queue := by
  unfold expire
  rw [h]
  dsimp only
  rw [if_pos hdue]
  exact List.mem_append_right _ (List.mem_singleton.mpr rfl)

/-! ## Runs -/

section Runs

variable [ToString Coordinate]

theorem spares_drain (hown : ∀ buf, w.buffers.lookup key = some buf →
      ∀ id, buf.timerHandle = some id ∨ buf.maxTimerHandle = some id →
        ∀ task, w.tasks.get? id = some task → task.key = key) {k : String} (hk : k ≠ key) :
    Spares k w (drain key w).2 := by
  unfold drain
  cases hbuf : w.buffers.lookup key with
  | none => exact .refl _ _
  | some buf =>
    obtain ⟨messages, _, timer, bound⟩ := buf
    have hother := hown _ hbuf
    cases messages with
    | nil => exact .of_eq rfl rfl
    | cons first rest =>
      have herase : Spares k w { w with buffers := w.buffers.erase key } := .of_eq rfl rfl
      refine herase.trans ((spares_abort fun id task hid htask heq => ?_).trans
        (spares_abort fun id task hid htask heq => ?_))
      · exact hk (heq.symm.trans (hother id (.inr hid) task htask))
      · exact hk (heq.symm.trans (hother id (.inl hid) task (get?_of_abort htask)))

theorem good_drain (h : Good w) (hbuffers : w'.buffers = w.buffers) (htasks : w'.tasks = w.tasks)
    (hspares : ∀ k, k ≠ key → Spares k w w') : Good (drain key w').2 := by
  have hown (buf) (hbuf : w'.buffers.lookup key = some buf) :=
    (h key buf (hbuffers ▸ hbuf)).own
  rw [← htasks] at hown
  refine h.of_key key (fun k hk => (hspares k hk).trans (spares_drain hown hk))
    (fun k hk => ?_) fun buf hbuf => ?_
  · rw [buffers_drain, AList.lookup_erase_ne hk, hbuffers]
  · rw [buffers_drain, AList.lookup_erase] at hbuf
    cases hbuf

/-- **Every event keeps every buffer awake.** -/
theorem good_step (h : Good w) (e : Event Coordinate Envelope Block) : Good (step d w e) := by
  cases e with
  | push key pending now => exact good_push h pending now
  | typing key isTyping now => exact good_onTyping h isTyping now
  | expire handle now => exact good_expire h handle now
  | drain key => exact good_drain h rfl rfl fun k _ => .refl k w
  | recv =>
    rw [step]
    cases hqueue : w.queue with
    | nil => exact h
    | cons key queue =>
      refine good_drain h rfl rfl fun k hk => ⟨fun hmem => ?_, le_rfl, fun _ _ _ htask => htask,
        fun _ _ htask _ => .inl htask⟩
      rw [hqueue] at hmem
      exact (List.mem_cons.mp hmem).resolve_left hk

/-- The answers among the marks are right for what is held. -/
def AnsweredAlong (key : String) (messages : List (PendingMessage Coordinate Envelope Block))
    (seen : List (Mark Coordinate Envelope Block)) : Prop :=
  Runs.Along (Batches.next key)
    (fun messages mark => ∀ answer, mark = .take key answer → Answered messages answer)
    messages seen

theorem answeredAlong_drain (w : World Coordinate Envelope Block) (taken key : String) :
    AnsweredAlong key (buffered w key) [.take taken (drain taken w).1] := by
  refine ⟨fun answer htake => ?_, trivial⟩
  cases htake
  exact drain_answered w _

/-- **Every event puts or takes what it shows.** -/
theorem step_answered (w : World Coordinate Envelope Block) (e : Event Coordinate Envelope Block)
    (key : String) :
    AnsweredAlong key (buffered w key) (marks w e) ∧
      buffered (step d w e) key = Batches.held key (buffered w key) (marks w e) := by
  cases e with
  | push pushed pending now =>
    refine ⟨⟨fun answer htake => (by cases htake), trivial⟩, ?_⟩
    refine (buffered_push pending now key).trans ?_
    by_cases h : key = pushed
    · subst h
      exact (if_pos rfl).trans (if_pos rfl).symm
    · exact (if_neg h).trans (if_neg (Ne.symm h)).symm
  | typing key' isTyping now => exact ⟨trivial, buffered_onTyping isTyping now key⟩
  | expire handle now => exact ⟨trivial, buffered_expire handle now key⟩
  | drain taken => exact ⟨answeredAlong_drain w taken key, buffered_drain w taken key⟩
  | recv =>
    have hmarks : marks w (.recv : Event Coordinate Envelope Block) =
        w.queue.head?.toList.map fun taken => .take taken (drain taken w).1 := rfl
    rw [hmarks, step]
    cases w.queue with
    | nil => exact ⟨trivial, rfl⟩
    | cons taken queue =>
      exact ⟨answeredAlong_drain w taken key, buffered_drain { w with queue } taken key⟩

theorem good_run (d : MessageDebouncer) (events : List (Event Coordinate Envelope Block)) :
    Good (Runs.after (step d) World.idle events) := by
  have hall : Runs.Along (step d) (fun _ _ => True) World.idle events :=
    Runs.along_iff_forall _ |>.mpr fun _ _ _ _ => trivial
  exact Runs.invariant (I := Good) (fun w e h _ => good_step h e) good_idle hall

theorem run_answered (d : MessageDebouncer) (events : List (Event Coordinate Envelope Block))
    (key : String) :
    AnsweredAlong key [] (Runs.trace (step d) marks World.idle events) ∧
      buffered (Runs.after (step d) World.idle events) key =
        Batches.held key [] (Runs.trace (step d) marks World.idle events) := by
  have hstep (w : World Coordinate Envelope Block) (e : Event Coordinate Envelope Block)
      (messages : List (PendingMessage Coordinate Envelope Block))
      (h : buffered w key = messages) :
      AnsweredAlong key messages (marks w e) ∧
        buffered (step d w e) key = Runs.after (Batches.next key) messages (marks w e) :=
    h ▸ step_answered w e key
  have hidle : buffered (World.idle : World Coordinate Envelope Block) key = [] := rfl
  exact Runs.along_trace hstep hidle events

/-- A key that is in the flush queue, or that a live task will put there when it is due. -/
def Awake (d : MessageDebouncer) (w : World Coordinate Envelope Block) (key : String) : Prop :=
  key ∈ w.queue ∨ ∃ id task, w.tasks.get? id = some task ∧ task.key = key ∧
    ∀ now, task.due ≤ now → key ∈ (step d w (.expire id now)).queue

theorem Minded.awake' (h : Minded w key timer bound)
    (d : MessageDebouncer) : Awake d w key := by
  refine h.awake.imp_right fun ⟨id, task, hid, htask⟩ => ?_
  have hkey := h.own id (.inr hid) task htask
  exact ⟨id, task, htask, hkey, fun now hdue => hkey ▸ mem_queue_expire htask hdue⟩

/-- **Nothing is stranded and every message is merged once**, in every run. -/
theorem merged_once (d : MessageDebouncer) (events : List (Event Coordinate Envelope Block))
    (key : String) :
    (buffered (Runs.after (step d) World.idle events) key ≠ [] →
      Awake d (Runs.after (step d) World.idle events) key) ∧
    Batches.puts key (Runs.trace (step d) marks World.idle events) =
      (Batches.batches key [] (Runs.trace (step d) marks World.idle events)).flatten ++
        buffered (Runs.after (step d) World.idle events) key ∧
    List.Forall₂ Answered (Batches.batches key [] (Runs.trace (step d) marks World.idle events))
      (Batches.answers key (Runs.trace (step d) marks World.idle events)) := by
  obtain ⟨halong, hbuffered⟩ := run_answered d events key
  refine ⟨fun hheld => ?_, ?_, Batches.forall₂_of_along key halong⟩
  · cases hbuf : (Runs.after (step d) World.idle events).buffers.lookup key with
    | none => exact absurd (by unfold buffered; rw [hbuf]; rfl) hheld
    | some buf => exact (good_run d events key buf hbuf).awake' d
  · rw [hbuffered]
    exact Batches.puts_eq key [] _

end Runs

/-- A `/help` command. -/
def help (arg : String) : PendingMessage ℕ Unit String := ⟨⟨(), .command "help" [arg]⟩, none⟩

/-- Two commands of one sender, and the flush of its buffer. -/
def helpTwice : List (Event ℕ Unit String) :=
  [.push "discord:user123" (help "list") 0, .push "discord:user123" (help "status") 0, .recv]

/-- What is seen of a run that holds back at most two messages. -/
def helpSeen : List (Mark ℕ Unit String) := Runs.trace (step ⟨1000, 5000, 2⟩) marks .idle helpTwice

/-- **The texts of two commands are not joined**: they become one command. -/
theorem commands_not_joined :
    Batches.batches "discord:user123" [] helpSeen = [[help "list", help "status"]] ∧
    Batches.answers "discord:user123" helpSeen =
      [some (⟨(), .command "help" ["list", "status"]⟩, none)] ∧
    ¬ JoinsTexts [help "list", help "status"] (⟨(), .command "help" ["list", "status"]⟩, none) := by
  refine ⟨by decide, by decide, ?_⟩
  unfold JoinsTexts
  decide

end LibreFang.Channels.Debounce
