import LibreFang.Lib.Batches

/-!
# Messages that are held back

Messages of a sender that come shortly after each other are held back and dispatched as one.

* `contentToText`, `merge`: what a message says, and one message for several.
* `push`, `onTyping`, `drain`: the calls of the debouncer on the buffers, the flush queue and the
  tasks that wait to write into it.
* `step`, `marks`: one event of the loop around it, and what is seen of it.
* **`merge_merged`**: what the one message says.
-/

namespace LibreFang.Channels.Debounce

/-! ## Messages -/

/-- `InteractiveButton`. -/
structure InteractiveButton where
  label : String
  action : String
  style : Option String
  url : Option String
  deriving DecidableEq, Repr

/-- `MediaGroupItem`. -/
inductive MediaGroupItem
  | photo (url : String) (caption : Option String)
  | video (url : String) (caption : Option String) (durationSeconds : ℕ)
  deriving DecidableEq, Repr

/-- `ChannelContent`; coordinates are floating-point numbers. -/
inductive ChannelContent (Coordinate : Type)
  | text (t : String)
  | image (url : String) (caption mimeType : Option String)
  | file (url filename : String)
  | fileData (data : List UInt8) (filename mimeType : String)
  | voice (url : String) (caption : Option String) (durationSeconds : ℕ)
  | video (url : String) (caption : Option String) (durationSeconds : ℕ) (filename : Option String)
  | location (lat lon : Coordinate)
  | command (name : String) (args : List String)
  | interactive (text : String) (buttons : List (List InteractiveButton))
  | buttonCallback (action : String) (messageText : Option String)
  | deleteMessage (messageId : String)
  | editInteractive (messageId text : String) (buttons : List (List InteractiveButton))
  | audio (url : String) (caption : Option String) (durationSeconds : ℕ)
      (title performer : Option String)
  | animation (url : String) (caption : Option String) (durationSeconds : ℕ)
  | sticker (fileId : String)
  | mediaGroup (items : List MediaGroupItem)
  | poll (question : String) (options : List String) (isQuiz : Bool) (correctOptionId : Option ℕ)
      (explanation : Option String)
  | pollAnswer (pollId : String) (optionIds : List ℕ)
  deriving DecidableEq, Repr

variable {Coordinate Envelope Block : Type}

/-- `ChannelMessage`; the envelope is everything but the content. -/
structure ChannelMessage (Coordinate Envelope : Type) where
  envelope : Envelope
  content : ChannelContent Coordinate
  deriving DecidableEq, Repr

/-- `PendingMessage`. -/
structure PendingMessage (Coordinate Envelope Block : Type) where
  message : ChannelMessage Coordinate Envelope
  imageBlocks : Option (List Block)
  deriving DecidableEq, Repr

/-- A caption after what it belongs to. -/
def captioned (media : String) : Option String → String
  | some c => s!"{media}\n{c}"
  | none => media

/-- `content_to_text`. -/
def contentToText [ToString Coordinate] : ChannelContent Coordinate → String
  | .text t => t
  | .command name args =>
    if args.isEmpty then s!"/{name}" else s!"/{name} " ++ " ".intercalate args
  | .image url caption _ => captioned s!"[Photo: {url}]" caption
  | .file url filename => s!"[File ({filename}): {url}]"
  | .voice url caption durationSeconds =>
    let cap := caption.getD ""
    if cap.isEmpty then s!"[Voice message ({durationSeconds}s): {url}]"
    else s!"[Voice message ({durationSeconds}s): {url}] {cap}"
  | .video url caption durationSeconds _ =>
    captioned s!"[Video ({durationSeconds}s): {url}]" caption
  | .location lat lon => s!"[Location: {lat}, {lon}]"
  | .fileData _ filename _ => s!"[File: {filename}]"
  | .interactive text _ => text
  | .buttonCallback action _ => s!"[Button: {action}]"
  | .deleteMessage messageId => s!"[Delete message: {messageId}]"
  | .editInteractive _ text _ => text
  | .audio url caption durationSeconds _ _ =>
    captioned s!"[Audio ({durationSeconds}s): {url}]" caption
  | .animation url caption durationSeconds =>
    captioned s!"[Animation ({durationSeconds}s): {url}]" caption
  | .sticker fileId => s!"[Sticker: {fileId}]"
  | .mediaGroup items => s!"[Media group: {items.length} items]"
  | .poll question _ _ _ _ => s!"[Poll: {question}]"
  | .pollAnswer pollId optionIds => s!"[Poll answer: poll={pollId}, options={optionIds}]"

theorem contentToText_text [ToString Coordinate] (t : String) :
    contentToText (.text t : ChannelContent Coordinate) = t := rfl

/-- The name of a command. -/
def commandName : ChannelContent Coordinate → Option String
  | .command name _ => some name
  | _ => none

/-- The arguments of a command. -/
def commandArgs : ChannelContent Coordinate → List String
  | .command _ args => args
  | _ => []

/-! ## Several messages as one -/

/-- The loop over the messages after the first: whether they are of its type, and the name that
they share if all of them are commands. -/
def scanTypes (firstType : ℕ) :
    Option String → List (ChannelContent Coordinate) → Bool × Option String
  | name, [] => (true, name)
  | name, content :: rest =>
    if content.ctorIdx ≠ firstType then (false, name)
    else if name.isSome ∧ commandName content ≠ name then (true, none)
    else scanTypes firstType name rest

theorem ctorIdx_of_commandName {c c' : ChannelContent Coordinate} {name : String}
    (h : commandName c = some name) (h' : commandName c' = some name) : c.ctorIdx = c'.ctorIdx := by
  cases c with
  | command =>
    cases c' with
    | command => rfl
    | _ => cases h'
  | _ => cases h

theorem scanTypes_none (firstType : ℕ) (contents : List (ChannelContent Coordinate)) :
    (scanTypes firstType none contents).2 = none := by
  induction contents with
  | nil => rfl
  | cons content rest ih =>
    rw [scanTypes]
    split
    · rfl
    · rw [if_neg fun h => Bool.false_ne_true h.1]
      exact ih

theorem scanTypes_some_iff {firstType : ℕ} {name name' : String}
    {contents : List (ChannelContent Coordinate)} :
    scanTypes firstType (some name) contents = (true, some name') ↔
      name = name' ∧ ∀ c ∈ contents, c.ctorIdx = firstType ∧ commandName c = some name := by
  induction contents with
  | nil =>
    rw [scanTypes]
    simp
  | cons content rest ih =>
    rw [scanTypes, List.forall_mem_cons]
    by_cases htype : content.ctorIdx = firstType
    · rw [if_neg (not_not.mpr htype)]
      by_cases hname : commandName content = some name
      · rw [if_neg fun h => h.2 hname, ih]
        tauto
      · rw [if_pos ⟨rfl, hname⟩]
        simp [hname]
    · rw [if_pos htype]
      simp [htype]

theorem scanTypes_eq_iff (first : ChannelContent Coordinate)
    (rest : List (ChannelContent Coordinate)) (name : String) :
    scanTypes first.ctorIdx (commandName first) rest = (true, some name) ↔
      ∀ c ∈ first :: rest, commandName c = some name := by
  rw [List.forall_mem_cons]
  cases hfirst : commandName first with
  | none =>
    refine iff_of_false (fun h => ?_) fun h => by cases h.1
    have hnone := scanTypes_none first.ctorIdx rest
    rw [h] at hnone
    cases hnone
  | some own =>
    rw [scanTypes_some_iff, Option.some_inj]
    refine and_congr_right fun hown => forall₂_congr fun c hc => ?_
    subst hown
    exact ⟨fun h => h.2, fun h => ⟨ctorIdx_of_commandName h hfirst, h⟩⟩

/-- A message with the image blocks that go with it. -/
abbrev Drained (Coordinate Envelope Block : Type) :=
  ChannelMessage Coordinate Envelope × Option (List Block)

section Merge

variable [ToString Coordinate]

/-- The content of the one message. -/
def mergeContents (first : ChannelContent Coordinate) (rest : List (ChannelContent Coordinate)) :
    ChannelContent Coordinate :=
  match scanTypes first.ctorIdx (commandName first) rest with
  | (true, some name) => .command name (commandArgs first ++ rest.flatMap commandArgs)
  | _ => .text ("\n".intercalate (contentToText first :: rest.map contentToText))

/-- The end of `drain`: the messages of a buffer as one. -/
def merge (first : PendingMessage Coordinate Envelope Block)
    (rest : List (PendingMessage Coordinate Envelope Block)) :
    Drained Coordinate Envelope Block :=
  if rest.isEmpty then (first.message, first.imageBlocks)
  else
    let content := mergeContents first.message.content (rest.map (·.message.content))
    let allBlocks := (first :: rest).flatMap (·.imageBlocks.getD [])
    ({ first.message with content }, if allBlocks.isEmpty then none else some allBlocks)

theorem merge_several (first : PendingMessage Coordinate Envelope Block)
    {rest : List (PendingMessage Coordinate Envelope Block)} (h : rest ≠ []) :
    merge first rest =
      (⟨first.message.envelope,
          mergeContents first.message.content (rest.map (·.message.content))⟩,
        let allBlocks := (first :: rest).flatMap (·.imageBlocks.getD [])
        if allBlocks.isEmpty then none else some allBlocks) :=
  if_neg fun hempty => h (List.isEmpty_iff.mp hempty)

theorem mergeContents_command {first : ChannelContent Coordinate}
    {rest : List (ChannelContent Coordinate)} {name : String}
    (h : ∀ c ∈ first :: rest, commandName c = some name) :
    mergeContents first rest = .command name ((first :: rest).flatMap commandArgs) := by
  unfold mergeContents
  rw [(scanTypes_eq_iff first rest name).mpr h]
  rfl

theorem mergeContents_text {first : ChannelContent Coordinate}
    {rest : List (ChannelContent Coordinate)}
    (h : ∀ name, ¬ ∀ c ∈ first :: rest, commandName c = some name) :
    mergeContents first rest = .text ("\n".intercalate ((first :: rest).map contentToText)) := by
  unfold mergeContents
  rcases hscan : scanTypes first.ctorIdx (commandName first) rest with ⟨_ | _, _ | name⟩
  · rfl
  · rfl
  · rfl
  · exact absurd ((scanTypes_eq_iff first rest name).mp hscan) (h name)

/-- Several messages that are all a command of the same name. -/
def SameCommand (batch : List (PendingMessage Coordinate Envelope Block)) (name : String) : Prop :=
  1 < batch.length ∧ ∀ m ∈ batch, commandName m.message.content = some name

/-- The texts of all messages, one below the other. -/
def JoinsTexts (batch : List (PendingMessage Coordinate Envelope Block))
    (r : Drained Coordinate Envelope Block) : Prop :=
  contentToText r.1.content =
    "\n".intercalate (batch.map fun m => contentToText m.message.content)

/-- All image blocks, in order. -/
def JoinsBlocks (batch : List (PendingMessage Coordinate Envelope Block))
    (r : Drained Coordinate Envelope Block) : Prop :=
  r.2.getD [] = batch.flatMap (·.imageBlocks.getD [])

/-- **What one message for several says.** -/
structure Merged (batch : List (PendingMessage Coordinate Envelope Block))
    (r : Drained Coordinate Envelope Block) : Prop where
  texts : (∀ name, ¬ SameCommand batch name) → JoinsTexts batch r
  commands : ∀ name, SameCommand batch name →
    r.1.content = .command name (batch.flatMap fun m => commandArgs m.message.content)
  blocks : JoinsBlocks batch r
  alone : ∀ m, batch = [m] → r = (m.message, m.imageBlocks)

/-- **The messages of a buffer as one.** -/
theorem merge_merged (first : PendingMessage Coordinate Envelope Block)
    (rest : List (PendingMessage Coordinate Envelope Block)) :
    Merged (first :: rest) (merge first rest) := by
  cases rest with
  | nil =>
    refine ⟨fun _ => ?_, fun name h => absurd h.1 (lt_irrefl 1), ?_, fun m hm => ?_⟩
    · exact (String.intercalate_singleton ..).symm
    · exact (List.append_nil _).symm
    · rw [← (List.cons.inj hm).1]
      rfl
  | cons second rest =>
    have hcontents : (first :: second :: rest).map (·.message.content) =
        first.message.content :: (second :: rest).map (·.message.content) := List.map_cons
    have hsame (name : String) : SameCommand (first :: second :: rest) name ↔
        ∀ c ∈ first.message.content :: (second :: rest).map (·.message.content),
          commandName c = some name := by
      rw [← hcontents, List.forall_mem_map]
      exact and_iff_right (Nat.succ_lt_succ (Nat.succ_pos _))
    have hmerge := merge_several first (List.cons_ne_nil second rest)
    refine ⟨fun hdifferent => ?_, fun name h => ?_, ?_, fun m hm => by cases hm⟩
    · have htext := mergeContents_text fun name => mt (hsame name).mpr (hdifferent name)
      unfold JoinsTexts
      rw [hmerge, htext, contentToText_text, ← hcontents, List.map_map]
      rfl
    · rw [hmerge, mergeContents_command ((hsame name).mp h), ← hcontents, List.flatMap_map]
    · unfold JoinsBlocks
      rw [hmerge]
      dsimp only
      split
      · rename_i hempty
        exact (List.isEmpty_iff.mp hempty).symm
      · rfl

end Merge

/-! ## The debouncer -/

/-- `SenderBuffer`; a handle is the number of a task. -/
structure SenderBuffer (Coordinate Envelope Block : Type) where
  messages : List (PendingMessage Coordinate Envelope Block)
  firstArrived : ℕ
  timerHandle : Option ℕ
  maxTimerHandle : Option ℕ

/-- `MessageDebouncer`. -/
structure MessageDebouncer where
  debounceMs : ℕ
  debounceMaxMs : ℕ
  maxBuffer : ℕ

/-- Milliseconds on the clock, which counts nanoseconds. -/
def fromMillis (ms : ℕ) : ℕ := ms * 1000000

/-- A task that sleeps and then sends its key to the flush queue. -/
structure FlushTask where
  key : String
  due : ℕ
  deriving DecidableEq, Repr

/-- The buffers, the keys in the flush queue and the tasks that sleep. -/
structure World (Coordinate Envelope Block : Type) where
  buffers : Table String (SenderBuffer Coordinate Envelope Block)
  queue : List String
  tasks : Alarms FlushTask

/-- Nothing is held back. -/
def World.idle : World Coordinate Envelope Block := ⟨∅, [], Alarms.idle⟩

/-- A task is spawned. -/
def World.spawn (w : World Coordinate Envelope Block) (key : String) (due : ℕ) :
    World Coordinate Envelope Block :=
  { w with tasks := w.tasks.set ⟨key, due⟩ }

/-- The task of a handle is aborted. -/
def World.abort (w : World Coordinate Envelope Block) (handle : Option ℕ) :
    World Coordinate Envelope Block :=
  { w with tasks := handle.elim w.tasks w.tasks.abort }

/-- A key is sent to the flush queue. -/
def World.send (w : World Coordinate Envelope Block) (key : String) :
    World Coordinate Envelope Block :=
  { w with queue := w.queue ++ [key] }

/-- A buffer is written. -/
def World.store (w : World Coordinate Envelope Block) (key : String)
    (buf : SenderBuffer Coordinate Envelope Block) : World Coordinate Envelope Block :=
  { w with buffers := w.buffers.insert key buf }

/-- The buffer of a key; a new one spawns the task that bounds how long it is held. -/
def bufferOf (d : MessageDebouncer) (key : String) (now : ℕ) (w : World Coordinate Envelope Block) :
    SenderBuffer Coordinate Envelope Block × World Coordinate Envelope Block :=
  match w.buffers.lookup key with
  | some buf => (buf, w)
  | none => (⟨[], now, none, some w.tasks.next⟩, w.spawn key (now + fromMillis d.debounceMaxMs))

/-- A new task for what comes next, not due after the bound of the buffer. -/
def rearm (d : MessageDebouncer) (key : String) (now : ℕ)
    (buf : SenderBuffer Coordinate Envelope Block) (w : World Coordinate Envelope Block) :
    World Coordinate Envelope Block :=
  let remainingCap := fromMillis d.debounceMaxMs - (now - buf.firstArrived)
  let delay := min (fromMillis d.debounceMs) remainingCap
  (w.spawn key (now + delay)).store key { buf with timerHandle := some w.tasks.next }

/-- `MessageDebouncer::push`. -/
def push (d : MessageDebouncer) (key : String) (pending : PendingMessage Coordinate Envelope Block)
    (now : ℕ) (w : World Coordinate Envelope Block) : World Coordinate Envelope Block :=
  let (buf, w) := bufferOf d key now w
  let w := w.abort buf.timerHandle
  let buf := { buf with messages := buf.messages ++ [pending], timerHandle := none }
  if fromMillis d.debounceMaxMs ≤ now - buf.firstArrived ∨ d.maxBuffer ≤ buf.messages.length then
    ((w.abort buf.maxTimerHandle).store key { buf with maxTimerHandle := none }).send key
  else rearm d key now buf w

/-- `MessageDebouncer::on_typing`. -/
def onTyping (d : MessageDebouncer) (key : String) (isTyping : Bool) (now : ℕ)
    (w : World Coordinate Envelope Block) : World Coordinate Envelope Block :=
  match w.buffers.lookup key with
  | none => w
  | some buf =>
    if fromMillis d.debounceMaxMs ≤ now - buf.firstArrived then w.send key
    else
      let w := w.abort buf.timerHandle
      let buf := { buf with timerHandle := none }
      if isTyping then w.store key buf else rearm d key now buf w

/-- `MessageDebouncer::drain`. -/
def drain [ToString Coordinate] (key : String) (w : World Coordinate Envelope Block) :
    Option (Drained Coordinate Envelope Block) × World Coordinate Envelope Block :=
  match w.buffers.lookup key with
  | none => (none, w)
  | some buf =>
    let w := { w with buffers := w.buffers.erase key }
    match buf.messages with
    | [] => (none, w)
    | first :: rest =>
      (some (merge first rest), (w.abort buf.maxTimerHandle).abort buf.timerHandle)

/-- A task that is due sends its key and is done. -/
def expire (handle now : ℕ) (w : World Coordinate Envelope Block) :
    World Coordinate Envelope Block :=
  match w.tasks.get? handle with
  | none => w
  | some task => if task.due ≤ now then (w.abort (some handle)).send task.key else w

/-! ## The loop -/

/-- What happens next: a message or a typing event, a task that wakes up, the next key of the flush
queue, or a drain at the end of the stream. -/
inductive Event (Coordinate Envelope Block : Type)
  | push (key : String) (pending : PendingMessage Coordinate Envelope Block) (now : ℕ)
  | typing (key : String) (isTyping : Bool) (now : ℕ)
  | expire (handle now : ℕ)
  | recv
  | drain (key : String)
  deriving DecidableEq, Repr

/-- What is seen of a run: messages that are put into a buffer, and what a drain of it gives. -/
abbrev Mark (Coordinate Envelope Block : Type) :=
  Batches.Mark String (PendingMessage Coordinate Envelope Block)
    (Option (Drained Coordinate Envelope Block))

/-- The key that an event drains. -/
def Event.drains (w : World Coordinate Envelope Block) : Event Coordinate Envelope Block →
    Option String
  | recv => w.queue.head?
  | drain key => some key
  | _ => none

variable [ToString Coordinate]

/-- One event. -/
def step (d : MessageDebouncer) (w : World Coordinate Envelope Block) :
    Event Coordinate Envelope Block → World Coordinate Envelope Block
  | .push key pending now => push d key pending now w
  | .typing key isTyping now => onTyping d key isTyping now w
  | .expire handle now => expire handle now w
  | .recv =>
    match w.queue with
    | [] => w
    | key :: queue => (drain key { w with queue }).2
  | .drain key => (drain key w).2

/-- What is seen of an event. -/
def marks (w : World Coordinate Envelope Block) (e : Event Coordinate Envelope Block) :
    List (Mark Coordinate Envelope Block) :=
  match e with
  | .push key pending _ => [.put key pending]
  | e => (e.drains w).toList.map fun key => .take key (drain key w).1

end LibreFang.Channels.Debounce
