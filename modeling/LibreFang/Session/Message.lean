import Mathlib.Data.List.Basic
import LibreFang.Lib.Text

/-!
# Conversation messages

The message types of an LLM conversation, and the reading functions the repair passes share.

* `Role`, `ContentBlock`, `MessageContent`, `Message`: the data of a history.
* `toolUseIds`, `toolResultIds`: the tool ids named by the blocks of a message.
* `WellPlaced`: tool calls sit in assistant messages, tool results in user or assistant messages.
-/

namespace LibreFang.Session

/-- The role of a message sender. -/
inductive Role
  | system
  | user
  | assistant
  deriving DecidableEq, Repr

/-- Execution status of a tool call. -/
inductive ToolExecutionStatus
  | completed
  | error
  | waitingApproval
  | denied
  | expired
  | modifyAndRetry
  | skipped
  deriving DecidableEq, Repr

/-- A JSON value, kept as its text: the passes below only move it around. -/
structure Json where
  text : String
  deriving DecidableEq, Repr

/-- A content block within a message. -/
inductive ContentBlock
  | text (text : String) (providerMetadata : Option Json)
  | image (mediaType data : String)
  | imageFile (mediaType path : String)
  | toolUse (id name : String) (input : Json) (providerMetadata : Option Json)
  | toolResult (toolUseId toolName content : String) (isError : Bool)
      (status : ToolExecutionStatus) (approvalRequestId : Option String)
  | thinking (thinking : String) (providerMetadata : Option Json)
  | unknown
  deriving DecidableEq, Repr

/-- Content of a message: simple text or structured blocks. -/
inductive MessageContent
  | text (s : String)
  | blocks (bs : List ContentBlock)
  deriving DecidableEq, Repr

/-- A message of the conversation; `timestamp` is in nanoseconds since the epoch. -/
structure Message where
  role : Role
  content : MessageContent
  pinned : Bool
  timestamp : Option Int
  deriving DecidableEq, Repr

/-- The id of a `ToolUse` block. -/
def ContentBlock.useId? : ContentBlock → Option String
  | .toolUse id _ _ _ => some id
  | _ => none

/-- The id a `ToolResult` block answers. -/
def ContentBlock.resultId? : ContentBlock → Option String
  | .toolResult id _ _ _ _ _ => some id
  | _ => none

/-- The structured blocks of a message; a text message has none. -/
def Message.blocks (m : Message) : List ContentBlock :=
  match m.content with
  | .text _ => []
  | .blocks bs => bs

/-- The ids of the `ToolUse` blocks of a message, in order. -/
def toolUseIds (m : Message) : List String := m.blocks.filterMap ContentBlock.useId?

/-- The ids answered by the `ToolResult` blocks of a message, in order. -/
def toolResultIds (m : Message) : List String := m.blocks.filterMap ContentBlock.resultId?

/-- `content_to_blocks`: a text becomes a single text block. -/
def contentToBlocks : MessageContent → List ContentBlock
  | .text s => [.text s none]
  | .blocks bs => bs

/-- Rewrite the blocks of a message; a text message stays as it is. -/
def Message.mapBlocks (f : List ContentBlock → List ContentBlock) (m : Message) : Message :=
  match m.content with
  | .text _ => m
  | .blocks bs => { m with content := .blocks (f bs) }

/-- Append blocks to a message, turning a text into a text block first. -/
def Message.extend (m : Message) (bs : List ContentBlock) : Message :=
  { m with content := .blocks (contentToBlocks m.content ++ bs) }

/-- The message holds some content: the test of the `retain` calls. -/
def Message.nonEmpty (m : Message) : Bool :=
  match m.content with
  | .text s => !s.isEmpty
  | .blocks bs => !bs.isEmpty

/-- `ToolUse` blocks occur only in assistant messages, `ToolResult` blocks only in user or
assistant messages. -/
def WellPlaced (ms : List Message) : Prop :=
  ∀ m ∈ ms, (toolUseIds m ≠ [] → m.role = .assistant) ∧
    (toolResultIds m ≠ [] → m.role = .user ∨ m.role = .assistant)

instance (ms : List Message) : Decidable (WellPlaced ms) := by
  unfold WellPlaced; infer_instance

/-! ## Reading rewritten messages -/

section Reading

variable (m : Message) (f : List ContentBlock → List ContentBlock) (bs : List ContentBlock)

@[simp] theorem mapBlocks_role : (m.mapBlocks f).role = m.role := by
  unfold Message.mapBlocks; split <;> rfl

@[simp] theorem extend_role : (m.extend bs).role = m.role := rfl

theorem mapBlocks_blocks (hf : f [] = []) : (m.mapBlocks f).blocks = f m.blocks := by
  obtain ⟨role, content, pinned, timestamp⟩ := m
  cases content with
  | text s => exact hf.symm
  | blocks bs => rfl

@[simp] theorem filter_blocks (p : ContentBlock → Bool) :
    (m.mapBlocks (List.filter p)).blocks = m.blocks.filter p := mapBlocks_blocks m _ rfl

theorem filterMap_contentToBlocks {β : Type} (g : ContentBlock → Option β)
    (hg : ∀ s pm, g (.text s pm) = none) :
    (contentToBlocks m.content).filterMap g = m.blocks.filterMap g := by
  obtain ⟨role, content, pinned, timestamp⟩ := m
  cases content with
  | text s => simp [contentToBlocks, Message.blocks, hg]
  | blocks bs => rfl

@[simp] theorem toolUseIds_extend :
    toolUseIds (m.extend bs) = toolUseIds m ++ bs.filterMap ContentBlock.useId? := by
  unfold toolUseIds
  rw [← filterMap_contentToBlocks m _ (fun _ _ => rfl), ← List.filterMap_append]
  rfl

@[simp] theorem toolResultIds_extend :
    toolResultIds (m.extend bs) = toolResultIds m ++ bs.filterMap ContentBlock.resultId? := by
  unfold toolResultIds
  rw [← filterMap_contentToBlocks m _ (fun _ _ => rfl), ← List.filterMap_append]
  rfl

variable {m}

theorem mem_toolUseIds {x : String} :
    x ∈ toolUseIds m ↔ ∃ b ∈ m.blocks, b.useId? = some x := List.mem_filterMap

theorem mem_toolResultIds {x : String} :
    x ∈ toolResultIds m ↔ ∃ b ∈ m.blocks, b.resultId? = some x := List.mem_filterMap

theorem nonEmpty_of_mem {b : ContentBlock} (h : b ∈ m.blocks) : m.nonEmpty = true := by
  obtain ⟨role, content, pinned, timestamp⟩ := m
  cases content with
  | text s => simp [Message.blocks] at h
  | blocks bs =>
    simp only [Message.blocks] at h
    simp only [Message.nonEmpty, Bool.not_eq_true', List.isEmpty_eq_false_iff]
    exact List.ne_nil_of_mem h

theorem nonEmpty_of_toolUse {x : String} (h : x ∈ toolUseIds m) : m.nonEmpty = true := by
  obtain ⟨b, hb, -⟩ := mem_toolUseIds.mp h
  exact nonEmpty_of_mem hb

theorem nonEmpty_of_toolResult {x : String} (h : x ∈ toolResultIds m) : m.nonEmpty = true := by
  obtain ⟨b, hb, -⟩ := mem_toolResultIds.mp h
  exact nonEmpty_of_mem hb

end Reading

end LibreFang.Session
