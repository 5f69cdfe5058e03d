import LibreFang.Session.Message

/-!
# Session history repair

`validateAndRepair` and the passes it is made of, in the order in which they run.

* Phase 2: `dropOrphans` removes results without a call and empty messages.
* Phase 2a: `rescueMisplacedToolResults` moves results out of assistant messages.
* Phase 2a1: `enforceAdjacentToolResultPairs` completes the message after each tool call.
* Phase 2b: `reorderToolResults` moves results behind their call.
-/

namespace LibreFang.Session

/-- Statistics from a repair operation. -/
structure RepairStats where
  orphanedResultsRemoved : ℕ
  emptyMessagesRemoved : ℕ
  messagesMerged : ℕ
  resultsReordered : ℕ
  syntheticResultsInserted : ℕ
  duplicatesRemoved : ℕ
  misplacedResultsRescued : ℕ
  positionalSyntheticInserted : ℕ
  deriving DecidableEq, Repr

/-- The error result inserted for a call that has none. -/
def syntheticResult (id : String) : ContentBlock :=
  .toolResult id "" "[Tool execution was interrupted or lost]" true .error none

/-- The user message a pass inserts to carry tool results. -/
def resultMessage (bs : List ContentBlock) : Message := ⟨.user, .blocks bs, false, none⟩

/-- Put `bs` at index `pos`: into the message there when it is a user message, otherwise into a
new user message inserted at `pos` (at the end when `pos` is past it). -/
def placeResults (ms : List Message) (pos : ℕ) (bs : List ContentBlock) : List Message :=
  match ms[pos]? with
  | some m => if m.role = .user then ms.set pos (m.extend bs) else ms.insertIdx pos (resultMessage bs)
  | none => ms ++ [resultMessage bs]

/-! ## Phase 1 and 2: orphans and empty messages -/

/-- The ids of all tool calls of the history. -/
def collectToolUseIds (ms : List Message) : List String := ms.flatMap toolUseIds

/-- A block phase 2 keeps: everything but a result without a call. -/
def keepBlock (ids : List String) (b : ContentBlock) : Bool :=
  match b with
  | .toolResult id _ _ _ _ _ => decide (id ∈ ids)
  | _ => true

/-- Phase 2, with the numbers of orphaned results and of empty messages removed. -/
def dropOrphans (ids : List String) (ms : List Message) : List Message × ℕ × ℕ :=
  let filtered := ms.map (Message.mapBlocks (List.filter (keepBlock ids)))
  (filtered.filter Message.nonEmpty,
    (ms.map fun m => (m.blocks.filter fun b => !keepBlock ids b).length).sum,
    (filtered.filter fun m => !m.nonEmpty).length)

/-- The `ToolResult` blocks of an assistant message. -/
def misplacedIn (m : Message) : List ContentBlock :=
  if m.role = .assistant then m.blocks.filter fun b => b.resultId?.isSome else []

/-- Remove the `ToolResult` blocks from an assistant message. -/
def stripResults (m : Message) : Message :=
  if m.role = .assistant then m.mapBlocks (List.filter fun b => !b.resultId?.isSome) else m

/-- The assistant messages holding results: their indices and those results. -/
def toRescue (ms : List Message) : List (ℕ × List ContentBlock) :=
  ms.zipIdx.filterMap fun (m, idx) =>
    if (misplacedIn m).isEmpty then none else some (idx, misplacedIn m)

/-- Phase 2a. The insertions run from the last assistant message to the first. -/
def rescueMisplacedToolResults (ms : List Message) : List Message × ℕ :=
  let rescue := toRescue ms
  if rescue.isEmpty then (ms, 0)
  else
    let placed := rescue.foldr (fun (idx, bs) acc => placeResults acc (idx + 1) bs)
      (ms.map stripResults)
    (placed.filter Message.nonEmpty, (rescue.map fun r => r.2.length).sum)

/-- The ids an assistant message needs answered. -/
def idsNeeded (m : Message) : List String := if m.role = .assistant then toolUseIds m else []

/-- The ids answered by the adjacent message, when that is a user message. -/
def adjacentResults (next : Option Message) : List String :=
  match next with
  | some n => if n.role = .user then toolResultIds n else []
  | none => []

/-- The needed ids that the adjacent message does not answer. -/
def missingIds (m : Message) (next : Option Message) : List String :=
  (idsNeeded m).filter fun id => decide (id ∉ adjacentResults next)

/-- Phase 2a1, on the messages from the loop index on. An amended or inserted user message is
not visited again. -/
def enforceAdjacentToolResultPairs : List Message → List Message × ℕ
  | [] => ([], 0)
  | [m] =>
    let missing := missingIds m none
    if missing.isEmpty then ([m], 0)
    else ([m, resultMessage (missing.map syntheticResult)], missing.length)
  | m :: next :: rest =>
    let missing := missingIds m (some next)
    if missing.isEmpty then
      let r := enforceAdjacentToolResultPairs (next :: rest)
      (m :: r.1, r.2)
    else if next.role = .user then
      let r := enforceAdjacentToolResultPairs rest
      (m :: next.extend (missing.map syntheticResult) :: r.1, missing.length + r.2)
    else
      let r := enforceAdjacentToolResultPairs (next :: rest)
      (m :: resultMessage (missing.map syntheticResult) :: r.1, missing.length + r.2)

/-! ## Phase 2b: reordering -/

/-- How many `ToolUse` blocks of assistant messages carry the id. -/
def toolUseTurnCount (ms : List Message) (id : String) : ℕ := (ms.flatMap idsNeeded).count id

/-- The index of the one assistant message calling `id`; ids with several calls have none. -/
def toolUseIndex (ms : List Message) (id : String) : Option ℕ :=
  if toolUseTurnCount ms id = 1 then ms.findIdx? fun m => decide (id ∈ idsNeeded m) else none

/-- The assistant message whose reply should hold this result, when the result sits elsewhere. -/
def misplacedTarget (ms : List Message) (idx : ℕ) (b : ContentBlock) : Option ℕ :=
  match b.resultId?.bind (toolUseIndex ms) with
  | some target => if idx ≠ target + 1 then some target else none
  | none => none

/-- The misplaced results: where they are, the block, and the assistant message they belong to. -/
def misplaced (ms : List Message) : List (ℕ × ContentBlock × ℕ) :=
  ms.zipIdx.flatMap fun (m, idx) =>
    if m.role = .user then
      m.blocks.filterMap fun b => (misplacedTarget ms idx b).map fun target => (idx, b, target)
    else []

/-- Remove from the user message at `idx` the results that are misplaced there. -/
def removeMisplaced (sources : List (ℕ × Option String)) (idx : ℕ) (m : Message) : Message :=
  if m.role = .user then
    m.mapBlocks (List.filter fun b =>
      !(b.resultId?.isSome && decide ((idx, b.resultId?) ∈ sources)))
  else m

/-- Where the assistant message of original index `target` stands after the removals. -/
def currentPosition (index : String → Option ℕ) (ms : List Message) (target : ℕ) : Option ℕ :=
  (ms.zipIdx.filterMap fun (m, idx) =>
    if (idsNeeded m).any fun id => index id == some target then some idx else none).getLast?

/-- Phase 2b. The insertions run from the last target to the first. -/
def reorderToolResults (ms : List Message) : List Message × ℕ :=
  let moves := misplaced ms
  if moves.isEmpty then (ms, 0)
  else
    let sources := moves.map fun (idx, b, _) => (idx, b.resultId?)
    let kept := (ms.zipIdx.map fun (m, idx) => removeMisplaced sources idx m).filter Message.nonEmpty
    let targets := (List.range ms.length).filter fun t => decide (t ∈ moves.map fun mv => mv.2.2)
    let place (t : ℕ) (acc : List Message) : List Message :=
      match currentPosition (toolUseIndex ms) kept t with
      | some pos => placeResults acc (pos + 1) ((moves.filter fun mv => mv.2.2 == t).map fun mv => mv.2.1)
      | none => acc
    (targets.foldr place kept, moves.length)

/-- The calls of the message at `idx` that no user message answers. -/
def orphanedUses (existing : List String) (m : Message) : List String :=
  (idsNeeded m).filter fun id => decide (id ∉ existing)

/-- Phase 2c. The insertions run from the last assistant message to the first. -/
def insertSyntheticResults (ms : List Message) : List Message × ℕ :=
  let existing := (ms.filter fun m => m.role = .user).flatMap toolResultIds
  let grouped := ms.zipIdx.filterMap fun (m, idx) =>
    if (orphanedUses existing m).isEmpty then none else some (idx, orphanedUses existing m)
  if grouped.isEmpty then (ms, 0)
  else
    (grouped.foldr (fun (idx, ids) acc => placeResults acc (idx + 1) (ids.map syntheticResult)) ms,
      (grouped.map fun g => g.2.length).sum)

/-! ## Phase 2d: duplicates -/

/-- The id and the status of a `ToolResult` block. -/
def ContentBlock.result? : ContentBlock → Option (String × ToolExecutionStatus)
  | .toolResult id _ _ _ status _ => some (id, status)
  | _ => none

/-- `should_replace_kept_tool_result`: a placeholder gives way to a terminal outcome. -/
def shouldReplaceKeptToolResult (kept candidate : ToolExecutionStatus) : Bool :=
  kept == .waitingApproval && candidate != .waitingApproval

/-- The status to keep for an id, over the results of the history in order. -/
def keptStatus (id : String) (results : List (String × ToolExecutionStatus)) :
    Option ToolExecutionStatus :=
  results.foldl (fun kept r =>
    if r.1 = id then
      match kept with
      | none => some r.2
      | some k => if shouldReplaceKeptToolResult k r.2 then some r.2 else some k
    else kept) none

/-- One `retain` over the blocks of a message, with the ids already seen. -/
def dedupBlocks (collision : String → Bool) (kept : String → Option ToolExecutionStatus) :
    List String → List ContentBlock → List ContentBlock × List String
  | seen, [] => ([], seen)
  | seen, b :: bs =>
    match b.result? with
    | none => let r := dedupBlocks collision kept seen bs; (b :: r.1, r.2)
    | some (id, status) =>
      if collision id then
        let r := dedupBlocks collision kept seen bs; (b :: r.1, r.2)
      else if id ∈ seen ∨ status ≠ (kept id).getD status then
        dedupBlocks collision kept seen bs
      else
        let r := dedupBlocks collision kept (id :: seen) bs; (b :: r.1, r.2)

/-- The `retain` calls over the messages in order. -/
def dedupMessages (collision : String → Bool) (kept : String → Option ToolExecutionStatus) :
    List String → List Message → List Message
  | _, [] => []
  | seen, m :: ms =>
    let r := dedupBlocks collision kept seen m.blocks
    m.mapBlocks (fun _ => r.1) :: dedupMessages collision kept r.2 ms

/-- Phase 2d. Ids with several calls are never deduplicated. -/
def deduplicateToolResults (ms : List Message) : List Message × ℕ :=
  let collision := fun id => decide (1 < toolUseTurnCount ms id)
  let results := ms.flatMap fun m => m.blocks.filterMap ContentBlock.result?
  let kept := fun id => keptStatus id (results.filter fun r => !collision r.1)
  let deduped := dedupMessages collision kept [] ms
  (deduped.filter Message.nonEmpty,
    (ms.map fun m => m.blocks.length).sum - (deduped.map fun m => m.blocks.length).sum)

/-- A text without any visible character. -/
def isBlank (s : String) : Bool := (Text.trim s.toList).isEmpty

/-- `is_empty_or_blank_content`. -/
def isEmptyOrBlankContent (c : MessageContent) : Bool :=
  match c with
  | .text s => isBlank s
  | .blocks bs => bs.isEmpty || bs.all fun b =>
      match b with
      | .text t _ => isBlank t
      | .unknown => true
      | _ => false

/-- Phase 2e. -/
def removeAbortedAssistantMessages (ms : List Message) : List Message :=
  ms.filter fun m => !(m.role == .assistant && isEmptyOrBlankContent m.content)

/-! ## Phase 3: merging -/

/-- `message_has_tool_use`. -/
def messageHasToolUse (m : Message) : Bool := m.blocks.any fun b => b.useId?.isSome

/-- `message_is_only_tool_results`. -/
def messageIsOnlyToolResults (m : Message) : Bool :=
  !m.blocks.isEmpty && m.blocks.all fun b => b.resultId?.isSome

/-- Whether phase 3 merges `m` into the message `last` before it. -/
def mergeable (last m : Message) : Bool :=
  last.role == m.role && !messageHasToolUse last && !messageIsOnlyToolResults m &&
    !messageHasToolUse m && !messageIsOnlyToolResults last

/-- `merge_content`, on the whole message. -/
def mergeContent (last m : Message) : Message := last.extend (contentToBlocks m.content)

/-- Phase 3 after `last` was pushed, with the number of merges. -/
def mergeLoop (last : Message) : List Message → List Message × ℕ
  | [] => ([last], 0)
  | m :: ms =>
    if mergeable last m then
      let r := mergeLoop (mergeContent last m) ms
      (r.1, r.2 + 1)
    else
      let r := mergeLoop m ms
      (last :: r.1, r.2)

/-- Phase 3. -/
def mergeConsecutive : List Message → List Message × ℕ
  | [] => ([], 0)
  | m :: ms => mergeLoop m ms

/-- `coalesce_adjacent_text_blocks`, with the blocks already emitted in reverse. -/
def coalesceLoop : List ContentBlock → List ContentBlock → List ContentBlock
  | out, [] => out.reverse
  | .text existing pm :: out, .text t pm' :: bs =>
    coalesceLoop (.text (existing ++ "\n\n" ++ t) (pm.or pm') :: out) bs
  | out, b :: bs => coalesceLoop (b :: out) bs

/-- `coalesce_adjacent_text_blocks`. -/
def coalesceAdjacentTextBlocks (bs : List ContentBlock) : List ContentBlock :=
  if bs.length < 2 then bs else coalesceLoop [] bs

/-- `validate_and_repair_with_stats`. -/
def validateAndRepairWithStats (ms : List Message) : List Message × RepairStats :=
  let (cleaned, orphaned, emptied) := dropOrphans (collectToolUseIds ms) ms
  let (rescued, rescuedCount) := rescueMisplacedToolResults cleaned
  let (paired, positional) := enforceAdjacentToolResultPairs rescued
  let (reordered, reorderedCount) := reorderToolResults paired
  let (answered, synthetic) := insertSyntheticResults reordered
  let (deduped, dedupCount) := deduplicateToolResults answered
  let kept := removeAbortedAssistantMessages deduped
  let (merged, mergedCount) := mergeConsecutive kept
  (merged.map (Message.mapBlocks coalesceAdjacentTextBlocks),
    { orphanedResultsRemoved := orphaned
      emptyMessagesRemoved := emptied + (deduped.length - kept.length)
      messagesMerged := mergedCount
      resultsReordered := reorderedCount
      syntheticResultsInserted := synthetic
      duplicatesRemoved := dedupCount
      misplacedResultsRescued := rescuedCount
      positionalSyntheticInserted := positional })

/-- `validate_and_repair`. -/
def validateAndRepair (ms : List Message) : List Message := (validateAndRepairWithStats ms).1

end LibreFang.Session
