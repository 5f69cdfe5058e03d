import LibreFang.Context.ToolBudget
import LibreFang.Agent.History

/-!
# A turn with tools

The answer of a model with tool calls is staged: neither history is touched before all calls have
results, and then the answer and the results are added together.

* `Response`: the answer of a model; `Execution`: how a tool call ended.
* **`servable_committed`**: what a commit adds is a whole exchange.
* **`toolsEnd_runTools`**: however the loop ends, the histories have grown by servable messages.
-/

namespace LibreFang.Agent

open Session Text Context

/-! ## Answers and results -/

/-- `ToolCall`. -/
structure ToolCall where
  id : String
  name : String
  input : Json

/-- `StopReason`. -/
inductive StopReason
  | endTurn
  | toolUse
  | maxTokens
  | stopSequence
  deriving DecidableEq, Repr

/-- `CompletionResponse`. -/
structure Response where
  content : List ContentBlock
  stopReason : StopReason
  toolCalls : List ToolCall
  inputTokens : ℕ
  outputTokens : ℕ

/-- The calls of the response are those of its content, which has no results. -/
structure Response.Listed (r : Response) : Prop where
  calls_eq : r.content.filterMap ContentBlock.useId? = r.toolCalls.map ToolCall.id
  results_eq : r.content.filterMap ContentBlock.resultId? = []

/-- The text of a block. -/
def blockText? : ContentBlock → Option String
  | .text text _ => some text
  | _ => none

/-- `CompletionResponse::text`. -/
def Response.text (r : Response) : String := String.join (r.content.filterMap blockText?)

/-- `tool_use_blocks_from_calls`. -/
def toolUseBlocksFromCalls (toolCalls : List ToolCall) : List ContentBlock :=
  toolCalls.map fun tc => .toolUse tc.id tc.name tc.input none

/-- A response that is promoted to a tool use by the calls found in its text. -/
def Response.promote (r : Response) (recovered : List ToolCall) : Response where
  content := toolUseBlocksFromCalls recovered
  stopReason := .toolUse
  toolCalls := recovered
  inputTokens := r.inputTokens
  outputTokens := r.outputTokens

theorem listed_promote (r : Response) (recovered : List ToolCall) : (r.promote recovered).Listed where
  calls_eq := by
    rw [Response.promote, toolUseBlocksFromCalls, List.filterMap_map]
    exact congrFun List.filterMap_eq_map recovered
  results_eq := by
    rw [Response.promote, toolUseBlocksFromCalls, List.filterMap_map]
    exact List.filterMap_eq_nil_iff.mpr fun _ _ => rfl

/-- The end of a tool call: the loop guard breaks the turn, or there is a result. The result names
the call; its content and the content for the history may differ. -/
inductive Execution
  | circuitBreak
  | finished (content finalContent : String) (isError : Bool) (status : ToolExecutionStatus)
      (approvalRequestId : Option String)

/-- `ToolExecutionStatus::is_soft_error`. -/
def isSoftError (status : ToolExecutionStatus) : Bool :=
  status ∈ [.denied, .modifyAndRetry, .skipped]

/-- `is_parameter_error_content`. -/
def isParameterErrorContent (content : String) : Bool :=
  ["missing '", "missing parameter", "required parameter", "invalid parameter",
    "parameter is required", "argument is required"].any
    (containsStr (String.ofList (toAsciiLowercase content.toList)))

/-- `is_soft_error_content`. -/
def isSoftErrorContent (content : String) : Bool :=
  ["Path traversal denied", "resolves outside workspace", "arguments were truncated"].any
    (containsStr content) || isParameterErrorContent content

/-- `ToolResultOutcomeSummary`. -/
structure ToolResultOutcomeSummary where
  hardErrorCount : ℕ
  successCount : ℕ
  deriving DecidableEq, Repr

/-- A result that counts as a hard error. -/
def isHardError : ContentBlock → Bool
  | .toolResult _ _ content true status _ => !isSoftError status && !isSoftErrorContent content
  | _ => false

/-- A result without an error. -/
def isSuccess : ContentBlock → Bool
  | .toolResult _ _ _ false _ _ => true
  | _ => false

/-- `ToolResultOutcomeSummary::from_blocks`. -/
def ToolResultOutcomeSummary.fromBlocks (blocks : List ContentBlock) : ToolResultOutcomeSummary :=
  ⟨blocks.countP isHardError, blocks.countP isSuccess⟩

/-! ## The message with the results -/

/-- The status of a result. -/
def hasStatus (status : ToolExecutionStatus) : ContentBlock → Bool
  | .toolResult _ _ _ _ s _ => s == status
  | _ => false

/-- A result with an error whose content meets a test. -/
def isErrorWith (p : String → Bool) : ContentBlock → Bool
  | .toolResult _ _ content true _ _ => p content
  | _ => false

/-- A note of the system behind the results. -/
def guidance (count : ℕ) (note : String) : List ContentBlock :=
  if 0 < count then [.text note none] else []

/-- `append_tool_result_guidance_blocks`. -/
def appendToolResultGuidanceBlocks (blocks : List ContentBlock) : List ContentBlock :=
  let denialCount := blocks.countP (hasStatus .denied)
  let modifyCount := blocks.countP (hasStatus .modifyAndRetry)
  let errorCount := blocks.countP (isErrorWith fun _ => true)
  let nonDenialErrors := errorCount - denialCount
  let paramErrorCount := blocks.countP (isErrorWith isParameterErrorContent)
  let nonParamErrors := nonDenialErrors - paramErrorCount
  blocks ++
  guidance denialCount (s!"[System: {denialCount} tool call(s) were denied by approval policy. " ++
    "Do NOT retry denied tools. Explain to the user what you " ++
    "wanted to do and that it requires their approval.]") ++
  guidance modifyCount (s!"[System: {modifyCount} tool call(s) received human feedback " ++
    "requesting modification. " ++
    "Read the feedback carefully, revise your approach, and retry with a " ++
    "different strategy. Do NOT repeat the exact same tool call.]") ++
  guidance paramErrorCount (s!"[System: {paramErrorCount} tool call(s) failed due to missing or " ++
    "invalid parameters. Read the error message, correct your tool call arguments, and retry " ++
    "immediately. Do NOT ask the user for help — fix the parameters yourself.]") ++
  guidance nonParamErrors (s!"[System: {nonParamErrors} tool(s) returned errors. " ++
    "Report the error honestly " ++
    "to the user. Do NOT fabricate results or pretend the tool succeeded. " ++
    "If a search or fetch failed, tell the user it failed and suggest " ++
    "alternatives instead of making up data.]")

/-- The budget of a turn: the enforcer, and whether a file can be written. -/
structure Budget where
  enforcer : ToolBudgetEnforcer
  saves : List Char → List Char → Bool

variable (budget : Budget)

/-- `maybe_persist_result`. -/
def maybePersistResult (content toolUseId : String) : String :=
  let chars := content.toList
  if Slices.byteLen chars ≤ budget.enforcer.perResultThreshold then content
  else
    let path := joinPath budget.enforcer.tempDir (toolUseId.toList ++ ".txt".toList)
    String.ofList <|
      if budget.saves path chars then buildPersistedSummary chars (Slices.byteLen chars) path
      else (inlineTruncate chars budget.enforcer.perResultThreshold).getD chars

/-- The entry of a result. -/
def entry? : ContentBlock → Option ToolResultEntry
  | .toolResult id _ content _ _ _ => some ⟨id.toList, content.toList⟩
  | _ => none

/-- The contents of the entries, written back to the results in their order. -/
def writeBack : List ContentBlock → List ToolResultEntry → List ContentBlock
  | [], _ => []
  | .toolResult id name _ isError status approval :: blocks, entry :: entries =>
    .toolResult id name (String.ofList entry.content) isError status approval ::
      writeBack blocks entries
  | block :: blocks, entries => block :: writeBack blocks entries

/-- The results within the budget of the turn. -/
def budgeted (blocks : List ContentBlock) : List ContentBlock :=
  let entries := blocks.filterMap entry?
  writeBack blocks
    (((enforceTurnBudget budget.enforcer budget.saves entries).map (·.results)).getD entries)

/-- The histories of a turn: of the session, and the working copy. -/
structure Histories where
  session : List Message
  messages : List Message

/-- The same messages behind both histories. -/
def Histories.push (h : Histories) (ms : List Message) : Histories :=
  ⟨h.session ++ ms, h.messages ++ ms⟩

/-- The message that `finalize_tool_use_results` adds. -/
def toolResultsMsg (blocks : List ContentBlock) (now : ℤ) : Message :=
  ⟨.user, .blocks (appendToolResultGuidanceBlocks (budgeted budget blocks)), false, some now⟩

/-! ## Staging -/

/-- `StagedToolUseTurn`, the parts that reach the histories. -/
structure StagedToolUseTurn where
  assistantMsg : Message
  toolCallIds : List (String × String)
  toolResultBlocks : List ContentBlock
  committed : Bool

/-- `stage_tool_use_turn`. -/
def stageToolUseTurn (response : Response) (now : ℤ) : StagedToolUseTurn where
  assistantMsg := ⟨.assistant, .blocks response.content, false, some now⟩
  toolCallIds := response.toolCalls.map fun tc => (tc.id, tc.name)
  toolResultBlocks := []
  committed := false

/-- `append_result`. -/
def StagedToolUseTurn.appendResult (st : StagedToolUseTurn) (block : ContentBlock) :
    StagedToolUseTurn :=
  { st with toolResultBlocks := st.toolResultBlocks ++ [block] }

/-- The result for a call that was not executed. -/
def interruptedResult (id name : String) : ContentBlock :=
  .toolResult id name "[tool interrupted: turn aborted before this call could execute]" true .error
    none

/-- The loop of `pad_missing_results`. -/
def padResults (blocks : List ContentBlock) : List (String × String) → List ContentBlock
  | [] => blocks
  | (id, name) :: rest =>
    if id ∈ blocks.filterMap ContentBlock.resultId? then padResults blocks rest
    else padResults (blocks ++ [interruptedResult id name]) rest

/-- `pad_missing_results`. -/
def StagedToolUseTurn.padMissingResults (st : StagedToolUseTurn) : StagedToolUseTurn :=
  { st with toolResultBlocks := padResults st.toolResultBlocks st.toolCallIds }

/-- `append_skipped_tool_results`. -/
def appendSkippedToolResults (blocks : List ContentBlock) (remaining : List ToolCall)
    (reason : String) : List ContentBlock :=
  blocks ++ remaining.map fun tc =>
    .toolResult tc.id tc.name s!"Skipped: {reason}" true .skipped none

/-- What a commit adds to the histories. -/
def StagedToolUseTurn.committedMessages (st : StagedToolUseTurn) (now : ℤ) : List Message :=
  if st.committed then []
  else if st.toolResultBlocks = [] then [st.assistantMsg]
  else [st.assistantMsg, toolResultsMsg budget st.toolResultBlocks now]

/-- The outcome of a commit. -/
def StagedToolUseTurn.outcome (st : StagedToolUseTurn) : ToolResultOutcomeSummary :=
  if st.committed ∨ st.toolResultBlocks = [] then ⟨0, 0⟩
  else .fromBlocks st.toolResultBlocks

/-- `commit`, with `finalize_tool_use_results`. -/
def StagedToolUseTurn.commit (st : StagedToolUseTurn) (h : Histories) (now : ℤ) :
    StagedToolUseTurn × Histories × ToolResultOutcomeSummary :=
  ({ st with committed := true }, h.push (st.committedMessages budget now), st.outcome)

/-! ## Signals between two calls -/

/-- `AgentLoopSignal`. -/
inductive AgentLoopSignal
  | message (content : String)
  | approvalResolved (toolUseId toolName decision resultContent : String) (resultIsError : Bool)
      (resultStatus : ToolExecutionStatus)

/-- `block_is_waiting_for`. -/
def blockIsWaitingFor (target : String) : ContentBlock → Bool
  | .toolResult id _ _ _ status _ => id == target && status == .waitingApproval
  | _ => false

/-- `session_owns_pending_approval`. -/
def sessionOwnsPendingApproval (h : Histories) (st : StagedToolUseTurn) (toolUseId : String) :
    Bool :=
  st.toolResultBlocks.any (blockIsWaitingFor toolUseId) ||
    h.session.any (fun m => m.blocks.any (blockIsWaitingFor toolUseId)) ||
    h.messages.any fun m => m.blocks.any (blockIsWaitingFor toolUseId)

/-- A result that gets what its approval has led to. -/
def resolveBlock (content : String) (isError : Bool) (status : ToolExecutionStatus) :
    ContentBlock → ContentBlock
  | .toolResult id name _ _ _ _ => .toolResult id name content isError status none
  | block => block

/-- `patch_message_blocks` on the blocks: the first waiting one is resolved. -/
def patchBlocks (toolUseId : String) (resolve : ContentBlock → ContentBlock) :
    List ContentBlock → List ContentBlock
  | [] => []
  | block :: blocks =>
    if blockIsWaitingFor toolUseId block then resolve block :: blocks
    else block :: patchBlocks toolUseId resolve blocks

/-- The first message with a waiting block is patched; the flag says whether there is one. -/
def patchFirst (toolUseId : String) (resolve : ContentBlock → ContentBlock) :
    List Message → List Message × Bool
  | [] => ([], false)
  | m :: ms =>
    if m.blocks.any (blockIsWaitingFor toolUseId) then
      (m.mapBlocks (patchBlocks toolUseId resolve) :: ms, true)
    else ((m :: (patchFirst toolUseId resolve ms).1), (patchFirst toolUseId resolve ms).2)

/-- `apply_approval_resolution_signal`: the last such message of each history is patched. -/
def applyApprovalResolutionSignal (h : Histories) (toolUseId resultContent : String)
    (resultIsError : Bool) (resultStatus : ToolExecutionStatus) : Histories × Bool :=
  let resolve := resolveBlock resultContent resultIsError resultStatus
  let session := patchFirst toolUseId resolve h.session.reverse
  let messages := patchFirst toolUseId resolve h.messages.reverse
  (⟨session.1.reverse, messages.1.reverse⟩, session.2 || messages.2)

/-- The histories after the signal of a staged turn that has been committed. -/
def injectSignal (h : Histories) (now : ℤ) : AgentLoopSignal → Histories
  | .message content => h.push [Message.user content now]
  | .approvalResolved toolUseId toolName decision resultContent resultIsError resultStatus =>
    let patched :=
      applyApprovalResolutionSignal h toolUseId resultContent resultIsError resultStatus
    if patched.2 then
      patched.1.push [Message.user (s!"[System] Tool '{toolName}' approval resolved " ++
        s!"({decision}). Result: {truncateStr resultContent 300}") now]
    else patched.1

/-- The signal is for another session of the agent. -/
def isForeign (h : Histories) (st : StagedToolUseTurn) : AgentLoopSignal → Bool
  | .message _ => false
  | .approvalResolved toolUseId _ _ _ _ _ => !sessionOwnsPendingApproval h st toolUseId

/-- `handle_mid_turn_signal`: the histories and the outcome when the turn ends here. -/
def handleMidTurnSignal (h : Histories) (st : StagedToolUseTurn) (now : ℤ)
    (signal : Option AgentLoopSignal) : Option (Histories × ToolResultOutcomeSummary) :=
  signal.bind fun signal =>
    if isForeign h st signal then none
    else
      let (_, h, outcomes) := st.padMissingResults.commit budget h now
      some (injectSignal h now signal, outcomes)

/-- What happens at the calls of a turn: how each ends, and what arrives after it. -/
structure ToolScript where
  execution : ℕ → Execution
  signal : ℕ → Option AgentLoopSignal

/-- The result of a call that has been executed. -/
def executedResult (call : ToolCall) (finalContent : String) (isError : Bool)
    (status : ToolExecutionStatus) (approvalRequestId : Option String) : ContentBlock :=
  .toolResult call.id call.name (maybePersistResult budget finalContent call.id) isError status
    approvalRequestId

/-- The calls of a turn from the one with number `idx` on; `none` when the guard breaks the turn. -/
def runTools (script : ToolScript) (now : ℤ) (h : Histories) :
    ℕ → List ToolCall → StagedToolUseTurn → Option (Histories × ToolResultOutcomeSummary)
  | _, [], st => some (st.padMissingResults.commit budget h now).2
  | idx, call :: rest, st =>
    match script.execution idx with
    | .circuitBreak => none
    | .finished content finalContent isError status approvalRequestId =>
      let st := st.appendResult
        (executedResult budget call finalContent isError status approvalRequestId)
      if isError && !(isSoftError status || isSoftErrorContent content) then
        let skipped := appendSkippedToolResults st.toolResultBlocks rest
          "previous tool call in the same batch failed with a hard error"
        let st := { st with toolResultBlocks := skipped }
        some (st.padMissingResults.commit budget h now).2
      else
        match handleMidTurnSignal budget h st now (script.signal idx) with
        | some ended => some ended
        | none => runTools script now h (idx + 1) rest st

/-! ## Histories that grow -/

/-- A history that has grown: the old messages keep their tools, and what stands behind them is
servable, if the responses list their calls. -/
def Grown (listed : Prop) (ms ms' : List Message) : Prop :=
  ∃ base added, List.Forall₂ Relabel ms base ∧ (listed → Servable added) ∧ ms' = base ++ added

/-- Both histories of a turn have grown. -/
structure Histories.Grown (listed : Prop) (h h' : Histories) : Prop where
  session : Agent.Grown listed h.session h'.session
  messages : Agent.Grown listed h.messages h'.messages

section Grown

variable {listed : Prop} {a b c : List Message}

theorem forall₂_relabel_refl (ms : List Message) : List.Forall₂ Relabel ms ms :=
  List.forall₂_same.mpr fun m _ => Relabel.refl m

theorem Relabel.trans {m m' m'' : Message} (h : Relabel m m') (h' : Relabel m' m'') :
    Relabel m m'' :=
  ⟨h'.role.trans h.role, h'.uses.trans h.uses, h'.results.trans h.results⟩

theorem forall₂_relabel_trans (h : List.Forall₂ Relabel a b) (h' : List.Forall₂ Relabel b c) :
    List.Forall₂ Relabel a c := by
  induction h generalizing c with
  | nil => exact h'
  | cons hm _ ih =>
    cases h' with
    | cons hm' h' => exact List.Forall₂.cons (hm.trans hm') (ih h')

theorem servable_nil : Servable [] := servable_of_no_tools fun _ hm => absurd hm List.not_mem_nil

theorem Grown.of_relabel (h : List.Forall₂ Relabel a b) : Grown listed a b :=
  ⟨b, [], h, fun _ => servable_nil, (List.append_nil b).symm⟩

theorem Grown.refl (a : List Message) : Grown listed a a := .of_relabel (forall₂_relabel_refl a)

theorem Grown.append (a : List Message) (h : listed → Servable b) : Grown listed a (a ++ b) :=
  ⟨a, b, forall₂_relabel_refl a, h, rfl⟩

/-- **A history grows step by step.** -/
theorem Grown.trans (h : Grown listed a b) (h' : Grown listed b c) : Grown listed a c := by
  obtain ⟨base, added, hbase, hadded, rfl⟩ := h
  obtain ⟨base', added', hbase', hadded', rfl⟩ := h'
  -- the rewritten messages, cut where the first part ends
  refine ⟨base'.take base.length, base'.drop base.length ++ added', ?_, ?_, ?_⟩
  · have htake := List.forall₂_take base.length hbase'
    rw [List.take_left] at htake
    exact forall₂_relabel_trans hbase htake
  · have hdrop := List.forall₂_drop base.length hbase'
    rw [List.drop_left] at hdrop
    exact fun hlisted => ((hadded hlisted).relabel hdrop).append (hadded' hlisted)
  · rw [← List.append_assoc, List.take_append_drop]

theorem Grown.length_le (h : Grown listed a b) : a.length ≤ b.length := by
  obtain ⟨base, added, hbase, -, rfl⟩ := h
  rw [List.length_append, hbase.length_eq]
  exact Nat.le_add_right _ _

theorem Histories.Grown.trans {h₁ h₂ h₃ : Histories} (h : h₁.Grown listed h₂)
    (h' : h₂.Grown listed h₃) : h₁.Grown listed h₃ :=
  ⟨h.session.trans h'.session, h.messages.trans h'.messages⟩

theorem Histories.grown_push (h : Histories) (hb : listed → Servable b) :
    h.Grown listed (h.push b) :=
  ⟨.append _ hb, .append _ hb⟩

theorem servable_user (s : String) (now : ℤ) : Servable [Message.user s now] :=
  servable_singleton rfl rfl

theorem servable_assistant (s : String) (now : ℤ) : Servable [Message.assistant s now] :=
  servable_singleton rfl rfl

end Grown

/-! ## What the message with the results answers -/

section Results

variable {budget : Budget} {blocks : List ContentBlock}

/-- The ids the blocks answer. -/
abbrev resultIds (blocks : List ContentBlock) : List String :=
  blocks.filterMap ContentBlock.resultId?

/-- The ids the blocks call. -/
abbrev useIds (blocks : List ContentBlock) : List String :=
  blocks.filterMap ContentBlock.useId?

variable {f : ContentBlock → Option String}

theorem filterMap_writeBack
    (hf : ∀ id name content content' isError status approval,
      f (.toolResult id name content isError status approval) =
        f (.toolResult id name content' isError status approval))
    (blocks : List ContentBlock) (entries : List ToolResultEntry) :
    (writeBack blocks entries).filterMap f = blocks.filterMap f := by
  fun_induction writeBack blocks entries with
  | case1 => rfl
  | case2 id name content isError status approval blocks entry entries ih =>
    rw [List.filterMap_cons, List.filterMap_cons, ih,
      hf id name (String.ofList entry.content) content]
  | case3 block blocks entries hblock ih => rw [List.filterMap_cons, List.filterMap_cons, ih]

theorem filterMap_guidance (hf : ∀ s, f (.text s none) = none)
    (count : ℕ) (note : String) : (guidance count note).filterMap f = [] := by
  unfold guidance
  split_ifs
  · rw [List.filterMap_cons, hf, List.filterMap_nil]
  · rfl

theorem filterMap_toolResultsMsg
    (hf : ∀ id name content content' isError status approval,
      f (.toolResult id name content isError status approval) =
        f (.toolResult id name content' isError status approval))
    (htext : ∀ s, f (.text s none) = none) (now : ℤ) :
    (toolResultsMsg budget blocks now).blocks.filterMap f = blocks.filterMap f := by
  rw [toolResultsMsg, Message.blocks, appendToolResultGuidanceBlocks]
  simp only [List.filterMap_append, filterMap_guidance htext, List.append_nil]
  exact filterMap_writeBack hf _ _

theorem toolResultIds_toolResultsMsg (now : ℤ) :
    toolResultIds (toolResultsMsg budget blocks now) = resultIds blocks :=
  filterMap_toolResultsMsg (fun _ _ _ _ _ _ _ => rfl) (fun _ => rfl) now

theorem toolUseIds_toolResultsMsg (now : ℤ) :
    toolUseIds (toolResultsMsg budget blocks now) = useIds blocks :=
  filterMap_toolResultsMsg (fun _ _ _ _ _ _ _ => rfl) (fun _ => rfl) now

end Results

/-! ## The staged turn -/

/-- What is staged for a response: results of its calls, in any number. -/
structure StagedToolUseTurn.For (response : Response) (st : StagedToolUseTurn) : Prop where
  assistant : st.assistantMsg.role = .assistant ∧
    st.assistantMsg.content = .blocks response.content
  calls : st.toolCallIds.map Prod.fst = response.toolCalls.map ToolCall.id
  pending : st.committed = false
  noUses : useIds st.toolResultBlocks = []
  answers : resultIds st.toolResultBlocks ⊆ response.toolCalls.map ToolCall.id

section Staging

variable {budget : Budget} {response : Response} {st : StagedToolUseTurn} {now : ℤ}

theorem for_stageToolUseTurn (response : Response) (now : ℤ) :
    (stageToolUseTurn response now).For response where
  assistant := ⟨rfl, rfl⟩
  calls := by rw [stageToolUseTurn, List.map_map]; rfl
  pending := rfl
  noUses := rfl
  answers := List.nil_subset _

theorem StagedToolUseTurn.For.results (h : st.For response) {more : List ContentBlock}
    (hnoUses : useIds more = []) (hanswers : resultIds more ⊆ response.toolCalls.map ToolCall.id) :
    { st with toolResultBlocks := st.toolResultBlocks ++ more }.For response where
  assistant := h.assistant
  calls := h.calls
  pending := h.pending
  noUses := by
    rw [useIds, List.filterMap_append]
    exact List.append_eq_nil_iff.mpr ⟨h.noUses, hnoUses⟩
  answers := by
    rw [resultIds, List.filterMap_append]
    exact List.append_subset.mpr ⟨h.answers, hanswers⟩

theorem padResults_spec (blocks : List ContentBlock) (ids : List (String × String)) :
    ∃ more, padResults blocks ids = blocks ++ more ∧ useIds more = [] ∧
      resultIds more ⊆ ids.map Prod.fst ∧
      ∀ x ∈ ids.map Prod.fst, x ∈ resultIds (padResults blocks ids) := by
  induction ids generalizing blocks with
  | nil =>
    exact ⟨[], (List.append_nil _).symm, rfl, List.nil_subset _,
      fun _ hx => absurd hx List.not_mem_nil⟩
  | cons call rest ih =>
    obtain ⟨id, name⟩ := call
    rw [padResults]
    split_ifs with hin
    · -- the call has a result
      obtain ⟨more, hmore, huses, hresults, hall⟩ := ih blocks
      refine ⟨more, hmore, huses, List.subset_cons_of_subset _ hresults, fun x hx => ?_⟩
      rcases List.mem_cons.mp hx with rfl | hx
      · rw [hmore, resultIds, List.filterMap_append]
        exact List.mem_append_left _ hin
      · exact hall x hx
    · -- the call gets one
      obtain ⟨more, hmore, huses, hresults, hall⟩ := ih (blocks ++ [interruptedResult id name])
      refine ⟨interruptedResult id name :: more, ?_, huses, ?_, fun x hx => ?_⟩
      · rw [hmore, List.append_assoc, List.singleton_append]
      · exact List.cons_subset_cons id hresults
      · rcases List.mem_cons.mp hx with rfl | hx
        · rw [hmore, resultIds, List.filterMap_append, List.filterMap_append]
          exact List.mem_append_left _ (List.mem_append_right _ (List.mem_singleton.mpr rfl))
        · exact hall x hx

theorem StagedToolUseTurn.For.padMissingResults (h : st.For response) :
    st.padMissingResults.For response := by
  obtain ⟨more, hmore, huses, hresults, -⟩ := padResults_spec st.toolResultBlocks st.toolCallIds
  have hpadded : st.padMissingResults =
      { st with toolResultBlocks := st.toolResultBlocks ++ more } := by
    rw [StagedToolUseTurn.padMissingResults, hmore]
  rw [hpadded]
  exact h.results huses (h.calls ▸ hresults)

theorem StagedToolUseTurn.For.answered (h : st.For response) :
    response.toolCalls.map ToolCall.id ⊆ resultIds st.padMissingResults.toolResultBlocks := by
  obtain ⟨more, -, -, -, hall⟩ := padResults_spec st.toolResultBlocks st.toolCallIds
  rw [← h.calls]
  exact hall

theorem StagedToolUseTurn.For.ids (h : st.For response) (hlisted : response.Listed) :
    toolUseIds st.assistantMsg = response.toolCalls.map ToolCall.id ∧
      toolResultIds st.assistantMsg = [] := by
  rw [toolUseIds, toolResultIds, Message.blocks, h.assistant.2]
  exact ⟨hlisted.calls_eq, hlisted.results_eq⟩

/-- **What a commit adds is a whole exchange**: the calls of the response, all answered by the
message behind them. -/
theorem servable_committed (h : st.For response) (hlisted : response.Listed) :
    Servable (st.padMissingResults.committedMessages budget now) := by
  have hp := h.padMissingResults
  set st' := st.padMissingResults with hst
  obtain ⟨huses, hresults⟩ := hp.ids hlisted
  have hanswered := h.answered
  rw [← hst] at hanswered
  rw [StagedToolUseTurn.committedMessages, if_neg (by rw [hp.pending]; exact Bool.false_ne_true)]
  split_ifs with hnil
  · -- no result at all: there was no call
    refine servable_singleton ?_ hresults
    rw [hnil] at hanswered
    rw [huses]
    exact List.subset_nil.mp hanswered
  · have huser : toolUseIds (toolResultsMsg budget st'.toolResultBlocks now) = [] :=
      (toolUseIds_toolResultsMsg now).trans hp.noUses
    have hids := @toolResultIds_toolResultsMsg budget st'.toolResultBlocks now
    have hcalls : calls [st'.assistantMsg, toolResultsMsg budget st'.toolResultBlocks now] =
        response.toolCalls.map ToolCall.id := by
      rw [calls_cons, calls_cons, idsNeeded, if_pos hp.assistant.1, huses, idsNeeded,
        if_neg Role.noConfusion]
      exact List.append_nil _
    refine ⟨⟨?_, ?_, ?_⟩, ?_⟩
    · refine List.forall_mem_cons.mpr ⟨fun _ => hp.assistant.1, ?_⟩
      exact List.forall_mem_singleton.mpr fun hne => absurd huser hne
    · refine List.forall_mem_cons.mpr ⟨fun hne => absurd hresults hne, ?_⟩
      exact List.forall_mem_singleton.mpr fun _ => rfl
    · refine paired_cons.mpr ⟨fun x hx => ?_, paired_concat paired_nil huser⟩
      rw [idsNeeded, if_pos hp.assistant.1, huses] at hx
      exact mem_adjacentResults.mpr ⟨_, rfl, rfl, hids ▸ hanswered hx⟩
    · rw [hcalls]
      refine List.forall_mem_cons.mpr ⟨fun x hx => ?_, ?_⟩
      · rw [hresults] at hx
        exact absurd hx List.not_mem_nil
      · exact List.forall_mem_singleton.mpr fun x hx => hp.answers (hids ▸ hx)

theorem grown_commit {listed : Prop} (h : Histories) (hst : st.For response)
    (hlisted : listed → response.Listed) :
    h.Grown listed (st.padMissingResults.commit budget h now).2.1 :=
  h.grown_push fun hl => servable_committed hst (hlisted hl)

end Staging

/-! ## Signals keep the tools -/

section Signals

variable {toolUseId : String} {resolve : ContentBlock → ContentBlock}

/-- What a resolution does to a block: nothing that belongs to a tool. -/
structure KeepsTools (resolve : ContentBlock → ContentBlock) : Prop where
  uses : ∀ b, (resolve b).useId? = b.useId?
  results : ∀ b, (resolve b).resultId? = b.resultId?

theorem keepsTools_resolveBlock (content : String) (isError : Bool)
    (status : ToolExecutionStatus) : KeepsTools (resolveBlock content isError status) where
  uses := fun b => by cases b <;> rfl
  results := fun b => by cases b <;> rfl

theorem filterMap_patchBlocks (hf : ∀ b, f (resolve b) = f b) (blocks : List ContentBlock) :
    (patchBlocks toolUseId resolve blocks).filterMap f = blocks.filterMap f := by
  induction blocks with
  | nil => rfl
  | cons block blocks ih =>
    rw [patchBlocks]
    split_ifs
    · rw [List.filterMap_cons, List.filterMap_cons, hf]
    · rw [List.filterMap_cons, List.filterMap_cons, ih]

theorem relabel_patchBlocks (h : KeepsTools resolve) (m : Message) :
    Relabel m (m.mapBlocks (patchBlocks toolUseId resolve)) where
  role := mapBlocks_role _ _
  uses := by
    rw [toolUseIds, mapBlocks_blocks _ _ rfl]
    exact filterMap_patchBlocks h.uses _
  results := by
    rw [toolResultIds, mapBlocks_blocks _ _ rfl]
    exact filterMap_patchBlocks h.results _

theorem relabel_patchFirst (h : KeepsTools resolve) (ms : List Message) :
    List.Forall₂ Relabel ms (patchFirst toolUseId resolve ms).1 := by
  induction ms with
  | nil => exact List.Forall₂.nil
  | cons m ms ih =>
    rw [patchFirst]
    split_ifs
    · exact List.Forall₂.cons (relabel_patchBlocks h m) (forall₂_relabel_refl ms)
    · exact List.Forall₂.cons (Relabel.refl m) ih

theorem relabel_patchLast (h : KeepsTools resolve) (ms : List Message) :
    List.Forall₂ Relabel ms (patchFirst toolUseId resolve ms.reverse).1.reverse := by
  have hrev := List.rel_reverse (@relabel_patchFirst toolUseId _ h ms.reverse)
  rwa [List.reverse_reverse] at hrev

variable {listed : Prop} {budget : Budget} {response : Response} {st : StagedToolUseTurn} {now : ℤ}

/-- **A resolved approval only changes what a result says.** -/
theorem grown_applyApprovalResolutionSignal (h : Histories) (toolUseId resultContent : String)
    (resultIsError : Bool) (resultStatus : ToolExecutionStatus) :
    h.Grown listed
      (applyApprovalResolutionSignal h toolUseId resultContent resultIsError resultStatus).1 :=
  have hkeeps := keepsTools_resolveBlock resultContent resultIsError resultStatus
  ⟨.of_relabel (relabel_patchLast hkeeps _), .of_relabel (relabel_patchLast hkeeps _)⟩

theorem grown_injectSignal (h : Histories) (now : ℤ) (signal : AgentLoopSignal) :
    h.Grown listed (injectSignal h now signal) := by
  cases signal with
  | message content => exact h.grown_push fun _ => servable_user _ _
  | approvalResolved toolUseId toolName decision resultContent resultIsError resultStatus =>
    rw [injectSignal]
    have hpatched := @grown_applyApprovalResolutionSignal listed h toolUseId resultContent
      resultIsError resultStatus
    split_ifs
    · exact hpatched.trans (Histories.grown_push _ fun _ => servable_user _ _)
    · exact hpatched

end Signals

/-! ## The end of the calls -/

section Calls

variable {budget : Budget} {response : Response} {now : ℤ}

theorem useIds_skipped (remaining : List ToolCall) (reason : String) :
    useIds (remaining.map fun tc => ContentBlock.toolResult tc.id tc.name s!"Skipped: {reason}"
      true .skipped none) = [] := by
  rw [useIds, List.filterMap_map]
  exact List.filterMap_eq_nil_iff.mpr fun _ _ => rfl

theorem resultIds_skipped (remaining : List ToolCall) (reason : String) :
    resultIds (remaining.map fun tc => ContentBlock.toolResult tc.id tc.name
      s!"Skipped: {reason}" true .skipped none) = remaining.map ToolCall.id := by
  rw [resultIds, List.filterMap_map]
  exact congrFun List.filterMap_eq_map remaining

variable {script : ToolScript}

theorem exists_commit_of_runTools {h : Histories} {idx : ℕ}
    {rest : List ToolCall} {st : StagedToolUseTurn} {ended : Histories × ToolResultOutcomeSummary}
    (hst : st.For response)
    (hdone : resultIds st.toolResultBlocks ++ rest.map ToolCall.id =
      response.toolCalls.map ToolCall.id)
    (hended : runTools budget script now h idx rest st = some ended) :
    ∃ st' : StagedToolUseTurn, st'.For response ∧
      resultIds st'.toolResultBlocks <+: response.toolCalls.map ToolCall.id ∧
      (ended.1 = h.push (st'.padMissingResults.committedMessages budget now) ∨
        ∃ signal, ended.1 =
          injectSignal (h.push (st'.padMissingResults.committedMessages budget now)) now signal) := by
  induction rest generalizing idx st with
  | nil =>
    obtain rfl := Option.some.inj hended
    exact ⟨st, hst, ⟨_, hdone⟩, .inl rfl⟩
  | cons call rest ih =>
    rw [runTools] at hended
    cases hexec : script.execution idx with
    | circuitBreak =>
      rw [hexec] at hended
      cases hended
    | finished content finalContent isError status approvalRequestId =>
      rw [hexec] at hended
      dsimp only at hended
      set st' := st.appendResult (executedResult budget call finalContent isError status
        approvalRequestId) with hst'
      have hids : resultIds st'.toolResultBlocks = resultIds st.toolResultBlocks ++ [call.id] :=
        List.filterMap_append
      have hdone' : resultIds st'.toolResultBlocks ++ rest.map ToolCall.id =
          response.toolCalls.map ToolCall.id := by
        rw [hids, List.append_assoc]
        exact hdone
      have hfor : st'.For response := by
        refine hst.results rfl (List.cons_subset.mpr ⟨?_, List.nil_subset _⟩)
        rw [← hdone]
        exact List.mem_append_right _ List.mem_cons_self
      split_ifs at hended
      · -- a hard error: the calls behind it are skipped
        obtain rfl := Option.some.inj hended
        have hskipped := resultIds_skipped rest
          "previous tool call in the same batch failed with a hard error"
        refine ⟨_, hfor.results (useIds_skipped rest _) ?_, ⟨[], ?_⟩, .inl rfl⟩
        · rw [hskipped, ← hdone']
          exact List.subset_append_right _ _
        · rw [List.append_nil, resultIds, List.filterMap_append]
          exact (congrArg _ hskipped).trans hdone'
      · cases hsignal : handleMidTurnSignal budget h st' now (script.signal idx) with
        | some out =>
          rw [hsignal] at hended
          obtain rfl := Option.some.inj hended
          obtain ⟨signal, -, hsome⟩ := Option.bind_eq_some_iff.mp hsignal
          split_ifs at hsome
          obtain rfl := Option.some.inj hsome
          exact ⟨st', hfor, ⟨_, hdone'⟩, .inr ⟨signal, rfl⟩⟩
        | none =>
          rw [hsignal] at hended
          exact ih hfor hdone' hended

/-- **However the calls of a response end, both histories have grown** by the whole exchange, and
by what a signal adds behind it; only a broken turn leaves them as they were. -/
theorem toolsEnd_runTools {listed : Prop} {h : Histories}
    {ended : Histories × ToolResultOutcomeSummary} (hlisted : listed → response.Listed)
    (hended : runTools budget script now h 0 response.toolCalls
      (stageToolUseTurn response now) = some ended) : h.Grown listed ended.1 := by
  obtain ⟨st, hst, -, hcommit | ⟨signal, hcommit⟩⟩ :=
    exists_commit_of_runTools (for_stageToolUseTurn response now) rfl hended
  · exact hcommit ▸ grown_commit h hst hlisted
  · exact hcommit ▸ (grown_commit h hst hlisted).trans (grown_injectSignal _ _ _)

end Calls

/-! ## One result for each call -/

section Once

variable {budget : Budget} {response : Response} {st : StagedToolUseTurn} {now : ℤ}

theorem resultIds_padResults (blocks : List ContentBlock) (calls : List (String × String))
    (hdistinct : (calls.map Prod.fst).Nodup) :
    resultIds (padResults blocks calls) =
      resultIds blocks ++ (calls.map Prod.fst).filter (· ∉ resultIds blocks) := by
  induction calls generalizing blocks with
  | nil => exact (List.append_nil _).symm
  | cons call calls ih =>
    obtain ⟨id, name⟩ := call
    obtain ⟨hnew, hdistinct⟩ := List.nodup_cons.mp hdistinct
    rw [padResults, List.map_cons]
    split_ifs with hin
    · rw [ih blocks hdistinct, List.filter_cons_of_neg (by simpa using hin)]
    · have hblocks : resultIds (blocks ++ [interruptedResult id name]) = resultIds blocks ++ [id] :=
        List.filterMap_append
      rw [ih _ hdistinct, hblocks, List.filter_cons_of_pos (by simpa using hin), List.append_assoc]
      refine congrArg (resultIds blocks ++ id :: ·) (List.filter_congr fun x hx => ?_)
      have hne : x ≠ id := fun h => hnew (h ▸ hx)
      simp [hne]

theorem flatMap_committed (hst : st.For response) (hlisted : response.Listed)
    (hdistinct : (response.toolCalls.map ToolCall.id).Nodup)
    (hdone : resultIds st.toolResultBlocks <+: response.toolCalls.map ToolCall.id) :
    (st.padMissingResults.committedMessages budget now).flatMap toolUseIds =
        response.toolCalls.map ToolCall.id ∧
      (st.padMissingResults.committedMessages budget now).flatMap toolResultIds =
        response.toolCalls.map ToolCall.id := by
  have hp := hst.padMissingResults
  obtain ⟨rest, hdone⟩ := hdone
  have hids : resultIds st.padMissingResults.toolResultBlocks =
      response.toolCalls.map ToolCall.id := by
    rw [StagedToolUseTurn.padMissingResults, resultIds_padResults _ _ (hst.calls ▸ hdistinct),
      hst.calls, ← hdone, List.filter_append,
      List.filter_eq_nil_iff.mpr fun x hx => by simpa using hx, List.nil_append,
      List.filter_eq_self.mpr fun x hx => ?_]
    rw [← hdone, List.nodup_append'] at hdistinct
    simpa using fun hin => hdistinct.2.2 hin hx
  set st' := st.padMissingResults
  obtain ⟨huses, hresults⟩ := hp.ids hlisted
  rw [StagedToolUseTurn.committedMessages, if_neg (by rw [hp.pending]; exact Bool.false_ne_true)]
  split_ifs with hnil
  · rw [hnil] at hids
    simp [huses, hresults, ← hids]
  · simp [huses, hresults, toolUseIds_toolResultsMsg, toolResultIds_toolResultsMsg, hp.noUses, hids]

/-! ## Calls that the guard breaks -/

variable (budget) in
/-- The result of a call that has ended. -/
def Execution.results (call : ToolCall) : Execution → List ContentBlock
  | .circuitBreak => []
  | .finished _ finalContent isError status approvalRequestId =>
    [executedResult budget call finalContent isError status approvalRequestId]

/-- A call ends without a hard error. -/
def Execution.soft : Execution → Bool
  | .circuitBreak => false
  | .finished content _ isError status _ =>
    !(isError && !(isSoftError status || isSoftErrorContent content))

variable (budget response now) in
/-- What is staged behind the first calls. -/
def ToolScript.staged (script : ToolScript) (calls : List ToolCall) : StagedToolUseTurn :=
  { stageToolUseTurn response now with
    toolResultBlocks :=
      (calls.mapIdx fun i call => (script.execution i).results budget call).flatten }

variable (budget response now) in
/-- The loop goes on behind a call: there is no hard error, and no signal for this session. -/
def ToolScript.GoesOn (script : ToolScript) (h : Histories) (i : ℕ) : Prop :=
  (script.execution i).soft = true ∧ ∀ signal ∈ script.signal i,
    isForeign h (script.staged budget response now (response.toolCalls.take (i + 1))) signal = true

theorem handleMidTurnSignal_eq_none {h : Histories} {signal : Option AgentLoopSignal} :
    handleMidTurnSignal budget h st now signal = none ↔ ∀ s ∈ signal, isForeign h st s = true := by
  unfold handleMidTurnSignal
  cases signal with
  | none => exact iff_of_true rfl fun _ hs => nomatch hs
  | some signal =>
    rw [Option.bind_some]
    cases hforeign : isForeign h st signal with
    | true =>
      refine iff_of_true (if_pos rfl) fun s hs => ?_
      rw [← Option.some.inj hs]
      exact hforeign
    | false =>
      refine iff_of_false (fun hnone => ?_) fun hall => ?_
      · rw [if_neg Bool.false_ne_true] at hnone
        cases hnone
      · exact Bool.false_ne_true (hforeign.symm.trans (hall signal rfl))

theorem staged_concat (script : ToolScript) (done : List ToolCall) (call : ToolCall) :
    script.staged budget response now (done ++ [call]) =
      { script.staged budget response now done with
        toolResultBlocks := (script.staged budget response now done).toolResultBlocks ++
          (script.execution done.length).results budget call } := by
  unfold ToolScript.staged
  rw [List.mapIdx_concat, List.flatten_append, List.flatten_singleton]

/-- The first of some numbers, or a later one behind it. -/
theorem exists_reached_iff {P Q : ℕ → Prop} {k n : ℕ} :
    (∃ i, k ≤ i ∧ i < n ∧ P i ∧ ∀ j, k ≤ j → j < i → Q j) ↔
      (k < n ∧ P k) ∨ Q k ∧ ∃ i, k + 1 ≤ i ∧ i < n ∧ P i ∧ ∀ j, k + 1 ≤ j → j < i → Q j := by
  constructor
  · rintro ⟨i, hle, hlt, hi, hbefore⟩
    rcases Nat.eq_or_lt_of_le hle with rfl | hlt'
    · exact .inl ⟨hlt, hi⟩
    · exact .inr ⟨hbefore k le_rfl hlt', i, hlt', hlt, hi, fun j hj => hbefore j (by omega)⟩
  · rintro (⟨hlt, hk⟩ | ⟨hk, i, hle, hlt, hi, hbefore⟩)
    · exact ⟨k, le_rfl, hlt, hk, fun j hj hjk => absurd hj (Nat.not_le.mpr hjk)⟩
    · refine ⟨i, by omega, hlt, hi, fun j hj hji => ?_⟩
      rcases Nat.eq_or_lt_of_le hj with rfl | hj
      · exact hk
      · exact hbefore j hj hji

theorem goesOn_iff {script : ToolScript} {h : Histories} {done rest : List ToolCall} {call : ToolCall}
    {content finalContent : String} {isError : Bool} {status : ToolExecutionStatus}
    {approvalRequestId : Option String} (hcalls : response.toolCalls = done ++ call :: rest)
    (hexec : script.execution done.length =
      .finished content finalContent isError status approvalRequestId) :
    script.GoesOn budget response now h done.length ↔
      (isError && !(isSoftError status || isSoftErrorContent content)) = false ∧
        handleMidTurnSignal budget h ((script.staged budget response now done).appendResult
          (executedResult budget call finalContent isError status approvalRequestId)) now
            (script.signal done.length) = none := by
  have htake : response.toolCalls.take (done.length + 1) = done ++ [call] := by
    rw [hcalls, List.append_cons, List.take_left' (by simp)]
  rw [ToolScript.GoesOn, htake, staged_concat, hexec, handleMidTurnSignal_eq_none]
  exact and_congr_left' (iff_of_eq (Bool.not_eq_true' _))

theorem runTools_eq_none_from {script : ToolScript} {h : Histories} (done rest : List ToolCall)
    (hcalls : response.toolCalls = done ++ rest) :
    runTools budget script now h done.length rest (script.staged budget response now done) = none ↔
      ∃ i, done.length ≤ i ∧ i < response.toolCalls.length ∧ script.execution i = .circuitBreak ∧
        ∀ j, done.length ≤ j → j < i → script.GoesOn budget response now h j := by
  induction rest generalizing done with
  | nil =>
    refine iff_of_false (Option.some_ne_none _) ?_
    rintro ⟨i, hle, hlt, -⟩
    rw [hcalls, List.append_nil] at hlt
    exact absurd hle (Nat.not_le.mpr hlt)
  | cons call rest ih =>
    have hlen : done.length < response.toolCalls.length := by
      rw [hcalls, List.length_append, List.length_cons]
      omega
    have hnext := ih (done ++ [call]) (by rw [hcalls, List.append_cons])
    rw [staged_concat, List.length_append, List.length_singleton] at hnext
    rw [runTools, exists_reached_iff]
    cases hexec : script.execution done.length with
    | circuitBreak => exact iff_of_true rfl (.inl ⟨hlen, rfl⟩)
    | finished content finalContent isError status approvalRequestId =>
      rw [hexec] at hnext
      rw [goesOn_iff hcalls hexec]
      simp only [reduceCtorEq, and_false, false_or]
      cases hhard : isError && !(isSoftError status || isSoftErrorContent content) with
      | true =>
        rw [if_pos rfl]
        exact iff_of_false (Option.some_ne_none _) fun hright =>
          Bool.false_ne_true hright.1.1.symm
      | false =>
        rw [if_neg Bool.false_ne_true]
        cases hsignal : handleMidTurnSignal budget h
            ((script.staged budget response now done).appendResult
              (executedResult budget call finalContent isError status approvalRequestId)) now
            (script.signal done.length) with
        | some ended =>
          exact iff_of_false (Option.some_ne_none _) fun hright =>
            Option.some_ne_none _ hright.1.2
        | none =>
          exact hnext.trans ⟨fun hright => ⟨⟨rfl, rfl⟩, hright⟩, fun hright => hright.2⟩

/-- **Each call gets one result, in the order of the calls**, however the calls end: what is added to
both histories before a signal calls and answers the ids of the response. Nothing is added exactly
when the guard breaks a call that the loop reaches. -/
theorem once_runTools (script : ToolScript) (h : Histories) (hlisted : response.Listed)
    (hdistinct : (response.toolCalls.map ToolCall.id).Nodup) :
    (runTools budget script now h 0 response.toolCalls (stageToolUseTurn response now) = none ↔
      ∃ i < response.toolCalls.length, script.execution i = .circuitBreak ∧
        ∀ j < i, script.GoesOn budget response now h j) ∧
    ∀ ended, runTools budget script now h 0 response.toolCalls (stageToolUseTurn response now) =
        some ended →
      ∃ added : List Message, added.flatMap toolUseIds = response.toolCalls.map ToolCall.id ∧
        added.flatMap toolResultIds = response.toolCalls.map ToolCall.id ∧
        (ended.1 = h.push added ∨ ∃ signal, ended.1 = injectSignal (h.push added) now signal) := by
  refine ⟨?_, fun ended hended => ?_⟩
  · have hbroken := @runTools_eq_none_from budget response now script h [] _ rfl
    simp only [List.length_nil, Nat.zero_le, true_and, forall_const] at hbroken
    exact hbroken
  · obtain ⟨st, hst, hdone, hcommit⟩ :=
      exists_commit_of_runTools (for_stageToolUseTurn response now) rfl hended
    obtain ⟨huses, hresults⟩ := flatMap_committed hst hlisted hdistinct hdone
    exact ⟨_, huses, hresults, hcommit⟩

/-- Two calls. -/
def reads : Response :=
  .promote ⟨[], .toolUse, [], 0, 0⟩ [⟨"a", "read", ⟨"1"⟩⟩, ⟨"b", "read", ⟨"2"⟩⟩]

/-- The user interrupts after the first call. -/
def interrupting : ToolScript :=
  ⟨fun _ => .finished "ok" "ok" false .completed none, fun _ => some (.message "Stop")⟩

theorem once_interrupting : ∃ ended,
    runTools ⟨⟨50000, 200000, []⟩, fun _ _ => true⟩ interrupting 0 ⟨[], []⟩ 0 reads.toolCalls
      (stageToolUseTurn reads 0) = some ended ∧
    ∃ added : List Message, added.flatMap toolUseIds = ["a", "b"] ∧
      added.flatMap toolResultIds = ["a", "b"] ∧ (ended.1 = Histories.push ⟨[], []⟩ added ∨
        ∃ signal, ended.1 = injectSignal (Histories.push ⟨[], []⟩ added) 0 signal) :=
  ⟨_, rfl, (@once_runTools _ reads _ interrupting _ (listed_promote _ _) (by decide)).2 _ rfl⟩

end Once

end LibreFang.Agent
