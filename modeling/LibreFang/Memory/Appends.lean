import LibreFang.Lib.Cell
import LibreFang.Memory.Canonical

/-!
# Appends to the canonical session

Each operation loads the row of the agent and saves it; the operations of several callers interleave.

* `Operation`, `apply`: the operations and what they save.
* `folded`, `appended`: the messages that went into the summary, and those that were handed over.
* `Lossless`: nothing that was appended is lost.
* **`lossless_of_run`**: so it is when every save finds the row as it was loaded.
-/

namespace LibreFang.Memory

open LibreFang.Session Runs Cell

/-! ## The operations -/

/-- An operation on the canonical session of an agent. -/
inductive Operation
  | appendCanonical (newMessages : List Message) (threshold : Option ℕ) (sessionId : Option String)
  | storeLlmSummary (summary : String) (keptMessages : List Message)
  | saveCanonical (canonical : CanonicalSession)
  deriving DecidableEq

/-- What an operation saves, given what it loaded. -/
def apply : Operation → CanonicalSession → CanonicalSession
  | .appendCanonical newMessages threshold sessionId, canonical =>
    appendCanonical canonical newMessages threshold sessionId
  | .storeLlmSummary summary keptMessages, canonical =>
    storeLlmSummary canonical summary keptMessages
  | .saveCanonical canonical, _ => canonical

/-- The row of the agent and the calls. -/
abbrev System := Cell.System CanonicalSession Operation

/-- The messages that an operation appends. -/
def Operation.batch : Operation → List Message
  | .appendCanonical newMessages _ _ => newMessages
  | _ => []

/-- The messages before those that are kept, if the kept ones are the last. -/
def replaced (messages kept : List Message) : List Message :=
  if kept <:+ messages then messages.take (messages.length - kept.length) else []

/-- The messages that an operation folds into the summary, given what it loaded. -/
def Operation.folds (canonical : CanonicalSession) : Operation → List Message
  | .appendCanonical newMessages threshold sessionId =>
    (compacted (extendCanonical canonical newMessages sessionId) threshold).map CanonicalEntry.message
  | .storeLlmSummary _ keptMessages => replaced canonical.messages keptMessages
  | .saveCanonical saved => replaced canonical.messages saved.messages

/-- The messages folded into the summary, in the order of the saves. -/
def folded (saves : List (Operation × CanonicalSession)) : List Message :=
  saves.flatMap fun save => save.1.folds save.2

/-- The messages appended, in the order of the saves. -/
def appended (saves : List (Operation × CanonicalSession)) : List Message :=
  (saves.map Prod.fst).flatMap Operation.batch

/-! ## Lost messages -/

/-- What the operations of the calls that are done leave of a row. -/
structure Lossless (canonical : CanonicalSession) (s : System) : Prop where
  kept : ∀ op, .done op ∈ s.calls → ∀ m ∈ op.batch, m ∈ s.cell.messages ∨ m ∈ folded s.saves
  suffix : ∃ order : List Operation, order.Perm (s.calls.filterMap Phase.done?) ∧
    s.cell.messages <:+ canonical.messages ++ order.flatMap Operation.batch

/-- The messages that an operation keeps are the last of those that are stored. -/
def Fits : Operation → CanonicalSession → Prop
  | .appendCanonical _ _ _, _ => True
  | .storeLlmSummary _ keptMessages, canonical => keptMessages <:+ canonical.messages
  | .saveCanonical saved, canonical =>
    saved.messages <:+ canonical.messages ∧ saved.compactionCursor = 0

/-- What was folded and what is stored make up what there was and what was appended. -/
structure Accounted (canonical cell : CanonicalSession)
    (saves : List (Operation × CanonicalSession)) : Prop where
  cursor : cell.compactionCursor = 0
  messages : folded saves ++ cell.messages = canonical.messages ++ appended saves

theorem replaced_append {messages kept : List Message} (h : kept <:+ messages) :
    replaced messages kept ++ kept = messages := by
  obtain ⟨before, rfl⟩ := h
  unfold replaced
  rw [if_pos (List.suffix_append _ _), List.length_append, Nat.add_sub_cancel, List.take_left]

/-- **One operation alone**: what it folds and what it saves are what it loaded and its batch. -/
theorem folds_append_messages {op : Operation} {cell : CanonicalSession}
    (hcursor : cell.compactionCursor = 0) (h : Fits op cell) :
    op.folds cell ++ (apply op cell).messages = cell.messages ++ op.batch := by
  cases op with
  | appendCanonical newMessages threshold sessionId =>
    have hextended : (extendCanonical cell newMessages sessionId).compactionCursor = 0 := hcursor
    unfold Operation.folds apply appendCanonical Operation.batch
    dsimp only
    rw [compacted_append_messages threshold hextended, messages_extendCanonical]
  | storeLlmSummary summary keptMessages =>
    have hkept : (apply (.storeLlmSummary summary keptMessages) cell).messages = keptMessages := by
      unfold apply storeLlmSummary CanonicalSession.messages
      rw [List.map_map]
      exact List.map_id keptMessages
    rw [hkept]
    exact (replaced_append h).trans (List.append_nil _).symm
  | saveCanonical saved => exact (replaced_append h.1).trans (List.append_nil _).symm

theorem accounted_step {canonical : CanonicalSession} (cell : CanonicalSession)
    (saves : List (Operation × CanonicalSession)) (op : Operation)
    (hs : Accounted canonical cell saves) (h : Fits op cell) :
    Accounted canonical (apply op cell) (saves ++ [(op, cell)]) where
  cursor := by
    cases op with
    | appendCanonical newMessages threshold sessionId =>
      exact compactionCursor_compactCanonical threshold hs.cursor
    | storeLlmSummary summary keptMessages => rfl
    | saveCanonical saved => exact h.2
  messages := by
    have hfolded : folded (saves ++ [(op, cell)]) = folded saves ++ op.folds cell := by
      unfold folded
      rw [List.flatMap_append, List.flatMap_singleton]
    have happended : appended (saves ++ [(op, cell)]) = appended saves ++ op.batch := by
      unfold appended
      rw [List.map_append, List.flatMap_append, List.map_singleton, List.flatMap_singleton]
    calc folded (saves ++ [(op, cell)]) ++ (apply op cell).messages
        = folded saves ++ (op.folds cell ++ (apply op cell).messages) := by
          rw [hfolded, List.append_assoc]
      _ = folded saves ++ cell.messages ++ op.batch := by
          rw [folds_append_messages hs.cursor h, List.append_assoc]
      _ = canonical.messages ++ appended (saves ++ [(op, cell)]) := by
          rw [hs.messages, happended, List.append_assoc]

/-- **Nothing is lost** in a run in which every call saves while the row is still what it loaded, and
in which the messages that a summary leaves are the last of those stored. -/
theorem lossless_of_run (canonical : CanonicalSession) (hcursor : canonical.compactionCursor = 0)
    (events : List (Event Operation))
    (h : Along (step apply) (Undisturbed Fits) (init canonical) events) :
    Lossless canonical (after (step apply) (init canonical) events) := by
  have haccount : Accounted canonical (after (step apply) (init canonical) events).cell
      (after (step apply) (init canonical) events).saves :=
    serial accounted_step ⟨hcursor, (List.append_nil _).symm⟩ h
  have hperm : ((after (step apply) (init canonical) events).saves.map Prod.fst).Perm
      ((after (step apply) (init canonical) events).calls.filterMap Phase.done?) :=
    saves_perm canonical events
  generalize after (step apply) (init canonical) events = s at haccount hperm ⊢
  constructor
  · intro op hdone m hm
    have hop : op ∈ s.calls.filterMap Phase.done? := List.mem_filterMap.mpr ⟨_, hdone, rfl⟩
    have happended : m ∈ canonical.messages ++ appended s.saves :=
      List.mem_append_right _ (List.mem_flatMap.mpr ⟨op, hperm.mem_iff.mpr hop, hm⟩)
    rw [← haccount.messages, List.mem_append] at happended
    exact happended.symm
  · exact ⟨s.saves.map Prod.fst, hperm, folded s.saves, haccount.messages⟩

/-- A message of a user. -/
def userMessage (text : String) : Message := ⟨.user, .text text, false, none⟩

/-- What one channel appends. -/
def fromTelegram : Operation := .appendCanonical [userMessage "on Telegram"] none (some "s1")

/-- What another channel appends. -/
def fromDiscord : Operation := .appendCanonical [userMessage "on Discord"] none (some "s2")

theorem lossless_of_run_serial :
    Lossless .empty (after (step apply) (init .empty)
      [.call fromTelegram, .step 0, .step 0, .call fromDiscord, .step 1, .step 1]) :=
  lossless_of_run .empty rfl _
    ⟨trivial, by rintro op x ⟨⟩, by rintro op x ⟨⟩; exact ⟨rfl, trivial⟩, trivial,
      by rintro op x ⟨⟩, by rintro op x ⟨⟩; exact ⟨rfl, trivial⟩, trivial⟩

/-- Two channels append at the same time. -/
def crossing : List (Event Operation) :=
  [.call fromTelegram, .call fromDiscord, .step 0, .step 1, .step 0, .step 1]

/-- The append that saves first is lost. -/
theorem append_lost :
    ¬ ∀ events : List (Event Operation),
      Lossless .empty (after (step apply) (init .empty) events) := by
  intro h
  have hkept := (h crossing).kept fromTelegram (.head _) (userMessage "on Telegram") (.head _)
  have hlost : userMessage "on Telegram" ∉
        (after (step apply) (init .empty) crossing).cell.messages ∧
      userMessage "on Telegram" ∉ folded (after (step apply) (init .empty) crossing).saves := by
    decide +kernel
  exact hkept.elim hlost.1 hlost.2

end LibreFang.Memory
