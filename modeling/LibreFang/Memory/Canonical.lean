import LibreFang.Session.Message

/-!
# The canonical session of an agent

* `CanonicalSession`: the recent messages of all channels and the summary of the older ones.
* `appendCanonical`, `storeLlmSummary`: what the two operations save, given what they loaded.
* `compacted`: the messages that an append folds into the summary.
* **`compacted_append_messages`**: a compaction folds a prefix and keeps the rest.
-/

namespace LibreFang.Memory

open LibreFang.Session Text

/-! ## The session -/

/-- `CanonicalEntry`. -/
structure CanonicalEntry where
  message : Message
  sessionId : Option String
  deriving DecidableEq, Repr

/-- `CanonicalSession`. -/
structure CanonicalSession where
  entries : List CanonicalEntry
  compactionCursor : ℕ
  compactedSummary : Option String
  deriving DecidableEq, Repr

/-- The session of an agent that has none yet. -/
def CanonicalSession.empty : CanonicalSession := ⟨[], 0, none⟩

/-- The messages of the session. -/
def CanonicalSession.messages (canonical : CanonicalSession) : List Message :=
  canonical.entries.map CanonicalEntry.message

/-- `DEFAULT_CANONICAL_WINDOW`. -/
def defaultCanonicalWindow : ℕ := 50

/-- `DEFAULT_COMPACTION_THRESHOLD`. -/
def defaultCompactionThreshold : ℕ := 100

/-- `MessageContent::text_content`. -/
def textContent : MessageContent → String
  | .text s => s
  | .blocks bs => String.join (bs.filterMap fun
      | .text text _ => some text
      | _ => none)

/-- The name of a role in a summary. -/
def roleName : Role → String
  | .user => "User"
  | .assistant => "Assistant"
  | .system => "System"

/-- The number of bytes of a text. -/
def utf8Len (cs : List Char) : ℕ := (cs.map Char.utf8Size).sum

/-- The line of a message in a summary. -/
def summaryPart (entry : CanonicalEntry) : Option String :=
  let text := textContent entry.message.content
  if text.isEmpty then none
  else
    let truncated := if 200 < utf8Len text.toList then truncateStr text 200 ++ "..." else text
    some s!"{roleName entry.message.role}: {truncated}"

/-- What is left of a text after its first bytes, from the next character on. -/
def dropBytes : ℕ → List Char → List Char
  | 0, cs => cs
  | _, [] => []
  | n + 1, c :: cs => dropBytes (n + 1 - c.utf8Size) cs

/-- The summary with the messages that are compacted, cut to its last 4000 bytes. -/
def foldSummary (existing : Option String) (compacting : List CanonicalEntry) : String :=
  let fullSummary := String.intercalate "\n" (existing.toList ++ compacting.filterMap summaryPart)
  if 4000 < utf8Len fullSummary.toList then
    String.ofList (dropBytes (utf8Len fullSummary.toList - 4000) fullSummary.toList)
  else fullSummary

/-- How many messages an append compacts. -/
def toCompact (canonical : CanonicalSession) (threshold : Option ℕ) : ℕ :=
  if threshold.getD defaultCompactionThreshold < canonical.entries.length then
    canonical.entries.length - defaultCanonicalWindow
  else 0

/-- The messages of the session that an append folds into the summary. -/
def compacted (canonical : CanonicalSession) (threshold : Option ℕ) : List CanonicalEntry :=
  (canonical.entries.take (toCompact canonical threshold)).drop canonical.compactionCursor

/-- The compaction of `append_canonical`. -/
def compactCanonical (canonical : CanonicalSession) (threshold : Option ℕ) : CanonicalSession :=
  if canonical.compactionCursor < toCompact canonical threshold then
    { entries := canonical.entries.drop (toCompact canonical threshold)
      compactionCursor := 0
      compactedSummary :=
        some (foldSummary canonical.compactedSummary (compacted canonical threshold)) }
  else canonical

/-- The session with new messages. -/
def extendCanonical (canonical : CanonicalSession) (newMessages : List Message)
    (sessionId : Option String) : CanonicalSession :=
  { canonical with entries := canonical.entries ++ newMessages.map (⟨·, sessionId⟩) }

/-- `append_canonical`: what it saves. -/
def appendCanonical (canonical : CanonicalSession) (newMessages : List Message)
    (threshold : Option ℕ) (sessionId : Option String) : CanonicalSession :=
  compactCanonical (extendCanonical canonical newMessages sessionId) threshold

/-- `store_llm_summary`: what it saves. -/
def storeLlmSummary (_ : CanonicalSession) (summary : String) (keptMessages : List Message) :
    CanonicalSession :=
  ⟨keptMessages.map (⟨·, none⟩), 0, some summary⟩

theorem messages_extendCanonical (canonical : CanonicalSession) (newMessages : List Message)
    (sessionId : Option String) :
    (extendCanonical canonical newMessages sessionId).messages = canonical.messages ++ newMessages := by
  unfold extendCanonical CanonicalSession.messages
  rw [List.map_append, List.map_map]
  congr 1
  exact List.map_id newMessages

theorem compactionCursor_compactCanonical {canonical : CanonicalSession} (threshold : Option ℕ)
    (h : canonical.compactionCursor = 0) :
    (compactCanonical canonical threshold).compactionCursor = 0 := by
  unfold compactCanonical
  split_ifs
  · rfl
  · exact h

/-- **A compaction folds a prefix of the messages and keeps the rest.** -/
theorem compacted_append_messages {canonical : CanonicalSession} (threshold : Option ℕ)
    (h : canonical.compactionCursor = 0) :
    (compacted canonical threshold).map CanonicalEntry.message ++
        (compactCanonical canonical threshold).messages = canonical.messages := by
  unfold compacted compactCanonical CanonicalSession.messages
  rw [h, List.drop_zero]
  by_cases hcompact : 0 < toCompact canonical threshold
  · rw [if_pos hcompact, ← List.map_append, List.take_append_drop]
  · rw [if_neg hcompact, Nat.eq_zero_of_not_pos hcompact, List.take_zero]
    rfl

end LibreFang.Memory
