import LibreFang.Agent.Assemble
import LibreFang.Replies.Directives
import LibreFang.Session.Markers

/-!
# The agent loop

A turn of an agent: the message of the user, and rounds of requests and answers until the model has
nothing left to do. What happens outside, the answers of models and tools, is given for each round.

* `LoopConfig`, `Round`: the surroundings of a turn, and what happens in a round.
* **`keeps_stepRound`**, **`keeps_runAgentLoop`**: a round keeps them, and so does a turn.
-/

namespace LibreFang.Agent

open Session Text Context

/-! ## The surroundings -/

/-- What a turn is given. The calls that are found in a text are those of any such search. -/
structure LoopConfig where
  window : Window
  /-- `keep_recent` of the context engine, if there is one. -/
  engine : Option ℕ
  casing : Casing
  v2Enabled : Bool
  isFork : Bool
  maxIterations : ℕ
  maxHistory : ℕ
  heartbeatKeepRecent : Option ℕ
  userMessage : String
  effectiveUserMessage : String
  budget : Budget
  recoverTextToolCalls : String → List ToolCall

/-- What happens in a round. -/
structure Round where
  cancelled : Bool
  summaries : Summaries
  response : Except String Response
  script : ToolScript
  /-- The store takes a session that is saved. -/
  stored : Bool

/-- An answer that stops for its calls has them in its content. -/
def Round.Listed (round : Round) : Prop :=
  ∀ response, round.response = .ok response → response.stopReason = .toolUse → response.Listed

/-- The errors of a turn. -/
inductive LoopError
  | driver (message : String)
  | memory
  | loopGuard
  | repeatedToolFailures (iterations errorCount : ℕ)
  | maxIterationsExceeded (iterations : ℕ)
  deriving DecidableEq, Repr

/-- How a turn ends. -/
inductive LoopEnd
  | interrupted
  | silent
  | finished (response : String)
  | cutOff (response : String)
  | failed (error : LoopError)
  deriving DecidableEq, Repr

/-- The variables of the loop, the requests that were made and the sessions that were stored. -/
structure LoopState where
  histories : Histories
  requests : List (List Message)
  saved : List (List Message)
  anyToolsExecuted : Bool
  hallucinationRetried : Bool
  actionNudgeRetried : Bool
  consecutiveMaxTokens : ℕ
  consecutiveAllFailed : ℕ
  lastPromptTokens : ℕ
  accumulatedText : List Char

variable (cfg : LoopConfig)

/-- `save_session_async`. -/
def LoopState.save (stored : Bool) (s : LoopState) : LoopState :=
  { s with saved := if stored then s.saved ++ [s.histories.session] else s.saved }

/-- Forks do not save. -/
def LoopState.saveUnlessFork (stored : Bool) (s : LoopState) : LoopState :=
  s.save (!cfg.isFork && stored)

/-- A message behind the session. -/
def LoopState.pushSession (s : LoopState) (m : Message) : LoopState :=
  { s with histories := ⟨s.histories.session ++ [m], s.histories.messages⟩ }

/-- Messages behind the working copy. -/
def LoopState.pushMessages (s : LoopState) (ms : List Message) : LoopState :=
  { s with histories := ⟨s.histories.session, s.histories.messages ++ ms⟩ }

/-- `repair_session_before_save`. -/
def LoopState.repairSession (s : LoopState) : LoopState :=
  { s with histories := ⟨validateAndRepair s.histories.session, s.histories.messages⟩ }

section Fields

variable (s : LoopState) (m : Message) (ms : List Message) (stored : Bool)

@[simp] theorem repairSession_requests : s.repairSession.requests = s.requests := by
  rw [LoopState.repairSession]

@[simp] theorem repairSession_saved : s.repairSession.saved = s.saved := by
  rw [LoopState.repairSession]

end Fields

/-! ## Texts -/

/-- A text with nothing but blanks. -/
def isBlank (s : List Char) : Bool := (trim s).isEmpty

/-- `is_progress_text_leak`. -/
def isProgressTextLeak (text : List Char) : Bool :=
  let t := trim text
  if t.isEmpty ∨ 120 < t.length then false
  else decide ("...".toList <:+ t) || decide ("…".toList <:+ t)

/-- `ACCUMULATED_TEXT_MAX_BYTES`. -/
def accumulatedTextMaxBytes : ℕ := 64 * 1024

/-- `push_accumulated_text`. -/
def pushAccumulatedText (accumulatedText intermediateText : List Char) : List Char :=
  if accumulatedTextMaxBytes ≤ Slices.byteLen accumulatedText then accumulatedText
  else
    let separator := if accumulatedText = [] then [] else "\n\n".toList
    let projected := Slices.byteLen accumulatedText + Slices.byteLen separator +
      Slices.byteLen intermediateText
    if accumulatedTextMaxBytes < projected then
      let sentinel := " [accumulated_text capped]".toList
      let marked :=
        if Slices.byteLen accumulatedText + Slices.byteLen sentinel ≤ accumulatedTextMaxBytes then
          accumulatedText ++ sentinel
        else accumulatedText
      marked ++ List.replicate (accumulatedTextMaxBytes - Slices.byteLen marked) ' '
    else accumulatedText ++ separator ++ intermediateText

/-- The phrases of `looks_like_hallucinated_action`. -/
def actionPhrases : List String :=
  ["i've created", "i've written", "i've updated", "i've saved", "i've modified", "i've deleted",
    "i've added", "i've removed", "i've edited", "i've fixed", "i've changed", "i've installed",
    "i have created", "i have written", "i have updated", "i have saved", "i have modified",
    "i have deleted", "i have added", "i have removed", "file has been", "changes have been",
    "code has been", "successfully created", "successfully updated", "successfully saved",
    "successfully written", "successfully modified"]

/-- `looks_like_hallucinated_action`. -/
def looksLikeHallucinatedAction (casing : Casing) (text : List Char) : Bool :=
  actionPhrases.any fun phrase => decide (phrase.toList <:+: casing.toLowercase text)

/-- `char::is_ascii_punctuation`. -/
def isAsciiPunctuation (c : Char) : Bool :=
  let n := c.toNat
  decide (33 ≤ n ∧ n ≤ 47 ∨ 58 ≤ n ∧ n ≤ 64 ∨ 91 ≤ n ∧ n ≤ 96 ∨ 123 ≤ n ∧ n ≤ 126)

/-- The keywords of `user_message_has_action_intent`. -/
def actionKeywords : List String :=
  ["send", "execute", "create", "delete", "remove", "write", "publish", "deploy", "install",
    "upload", "download", "forward", "submit", "trigger", "launch", "notify", "schedule", "rename",
    "fetch"]

/-- `user_message_has_action_intent`. -/
def userMessageHasActionIntent (casing : Casing) (userMessage : List Char) : Bool :=
  actionKeywords.any fun kw =>
    (splitWhitespace (casing.toLowercase userMessage)).any fun word =>
      ((word.dropWhile isAsciiPunctuation).rdropWhile isAsciiPunctuation) == kw.toList

/-- `parse_directives`, which never panics: the text without directives, and the silent one. -/
def directives (text : String) : List Char × Bool :=
  ((Replies.parseDirectives text.toList).map fun parsed => (parsed.1, parsed.2.silent)).getD
    (trim text.toList, false)

/-- `max_tokens_response_text`. -/
def maxTokensResponseText (response : Response) : String :=
  if isBlank response.text.toList then
    "[Partial response — token limit reached with no text output.]"
  else response.text

/-! ## Answers that end the turn -/

/-- `EndTurnRetry`. -/
inductive EndTurnRetry
  | emptyResponse (isSilentFailure : Bool)
  | hallucinatedAction
  | actionIntent
  deriving DecidableEq, Repr

/-- `classify_end_turn_retry`. -/
def classifyEndTurnRetry (s : LoopState) (iteration : ℕ) (text : List Char)
    (response : Response) : Option EndTurnRetry :=
  let isSilentFailure := response.inputTokens == 0 && response.outputTokens == 0
  let unused := !isBlank text && response.toolCalls.isEmpty && !cfg.window.tools.isEmpty &&
    !s.anyToolsExecuted
  if (isBlank text && response.toolCalls.isEmpty) && (iteration == 0 || isSilentFailure) then
    some (.emptyResponse isSilentFailure)
  else if unused && !s.hallucinationRetried && looksLikeHallucinatedAction cfg.casing text then
    some .hallucinatedAction
  else if unused && !s.actionNudgeRetried && !s.hallucinationRetried &&
      userMessageHasActionIntent cfg.casing cfg.userMessage.toList then
    some .actionIntent
  else none

/-- The working copy and the flags of another try. -/
def LoopState.retry (s : LoopState) (text : List Char) (now : ℤ) : EndTurnRetry → LoopState
  | .emptyResponse isSilentFailure =>
    let messages := if isSilentFailure then validateAndRepair s.histories.messages
      else s.histories.messages
    { s with histories := ⟨s.histories.session, messages ++
      [Message.assistant "[no response]" now, Message.user "Please provide your response." now]⟩ }
  | .hallucinatedAction =>
    { s with hallucinationRetried := true }.pushMessages [Message.assistant (String.ofList text) now,
      Message.user ("[System: You described performing an action but did not actually call any " ++
        "tools. Please use the provided tools to carry out the action rather than just " ++
        "describing it.]") now]
  | .actionIntent =>
    { s with actionNudgeRetried := true }.pushMessages [Message.assistant (String.ofList text) now,
      Message.user ("[System: You described actions but didn't execute them. " ++
        "Please use the available tools to complete the requested actions.]") now]

/-- `finalize_end_turn_text`. -/
def finalizeEndTurnText (s : LoopState) (text : List Char) : String :=
  if isBlank text then
    if !isBlank s.accumulatedText then String.ofList s.accumulatedText
    else if s.anyToolsExecuted then
      "[Task completed — the agent executed tools but did not produce a text summary.]"
    else "[The model returned an empty response. This usually means the model is overloaded, " ++
      "the context is too large, or the API key lacks credits. Try again or check /status.]"
  else String.ofList text

/-- A silent end, noted in the session. -/
def LoopState.noReply (s : LoopState) (now : ℤ) : LoopState :=
  s.pushSession (Message.assistant "[no reply needed]" now)

/-- The session of `finalize_successful_end_turn`: with the answer, without old silent replies. -/
def finalSession (session : List Message) (finalResponse : String) (now : ℤ) : List Message :=
  pruneHeartbeatTurns cfg.v2Enabled (session ++ [Message.assistant finalResponse now])
    (cfg.heartbeatKeepRecent.getD 10)

/-- An end that needs the session in the store. -/
def LoopEnd.ifSaved (e : LoopEnd) (saved : Bool) : LoopEnd :=
  if saved then e else .failed .memory

/-- A round whose answer ends the turn, or is asked for again. -/
def endRound (iteration : ℕ) (round : Round) (response : Response) (s : LoopState) :
    LoopState × Option LoopEnd :=
  let now := round.summaries.now
  let (text, silent) := directives response.text
  if isSilentResponse cfg.v2Enabled (String.ofList text) || silent then
    ((s.noReply now).saveUnlessFork cfg round.stored,
      some (LoopEnd.silent.ifSaved (cfg.isFork || round.stored)))
  else if response.toolCalls.isEmpty && isProgressTextLeak text then
    -- here a fork saves too
    ((s.noReply now).save round.stored, some (LoopEnd.silent.ifSaved round.stored))
  else
    match classifyEndTurnRetry cfg s iteration text response with
    | some retry => (s.retry text now retry, none)
    | none =>
      let finalResponse := finalizeEndTurnText s text
      let session := finalSession cfg s.histories.session finalResponse now
      let s := { s with histories := ⟨session, s.histories.messages⟩ }
      (s.saveUnlessFork cfg round.stored,
        some ((LoopEnd.finished finalResponse).ifSaved (cfg.isFork || round.stored)))

/-- `MAX_CONSECUTIVE_ALL_FAILED`. -/
def maxConsecutiveAllFailed : ℕ := 3

/-- `update_consecutive_hard_failures`. -/
def updateConsecutiveHardFailures (consecutiveAllFailed : ℕ) (summary : ToolResultOutcomeSummary) :
    ℕ :=
  if summary.successCount = 0 ∧ 0 < summary.hardErrorCount then consecutiveAllFailed + 1 else 0

/-- A round whose answer has tool calls. -/
def toolRound (round : Round) (response : Response) (s : LoopState) :
    LoopState × Option LoopEnd :=
  let now := round.summaries.now
  let text := response.text.toList
  let s := { s with
    consecutiveMaxTokens := 0
    anyToolsExecuted := true
    accumulatedText := if isBlank text then s.accumulatedText
      else pushAccumulatedText s.accumulatedText (trim text) }
  match runTools cfg.budget round.script now s.histories 0 response.toolCalls
      (stageToolUseTurn response now) with
  | none => (s.repairSession.saveUnlessFork cfg round.stored, some (.failed .loopGuard))
  | some (histories, outcomes) =>
    let failures := updateConsecutiveHardFailures s.consecutiveAllFailed outcomes
    let s := { s with histories, consecutiveAllFailed := failures }.saveUnlessFork cfg round.stored
    if 0 < failures ∧ 0 < outcomes.hardErrorCount ∧ maxConsecutiveAllFailed ≤ failures then
      (s, some (.failed (.repeatedToolFailures failures outcomes.hardErrorCount)))
    else (s, none)

/-- `MAX_CONTINUATIONS`. -/
def maxContinuations : ℕ := 5

/-- A round whose answer was cut off. -/
def maxTokensRound (round : Round) (response : Response) (s : LoopState) :
    LoopState × Option LoopEnd :=
  let now := round.summaries.now
  let s := { s with consecutiveMaxTokens := s.consecutiveMaxTokens + 1 }
  if response.toolCalls.isEmpty ∨ maxContinuations ≤ s.consecutiveMaxTokens then
    let text := String.ofList (directives (maxTokensResponseText response)).1
    ((s.pushSession (Message.assistant text now)).saveUnlessFork cfg round.stored,
      some (.cutOff text))
  else
    let more := [Message.assistant response.text now, Message.user "Please continue." now]
    ({ s with histories := s.histories.push more }, none)

/-! ## The loop -/

/-- The answer, with the calls that are found in its text. -/
def promoted (response : Response) : Response :=
  let recovered := cfg.recoverTextToolCalls response.text
  if response.stopReason ∈ [.endTurn, .stopSequence] ∧ response.toolCalls = [] ∧ recovered ≠ [] then
    response.promote recovered
  else response

/-- What every answer does: the tokens of the prompt are noted, and images have been seen. -/
def LoopState.answered (s : LoopState) (response : Response) : LoopState :=
  { s with
    lastPromptTokens := if 0 < response.inputTokens then response.inputTokens
      else cfg.window.estimate s.histories.messages
    histories := ⟨stripProcessedImageData s.histories.session,
      stripProcessedImageData s.histories.messages⟩ }

/-- The state when the request of a round is made. -/
def LoopState.asked (s : LoopState) (round : Round) : LoopState :=
  let histories :=
    assembled cfg.window round.summaries cfg.engine s.lastPromptTokens s.histories
  { s with histories, requests := s.requests ++ [histories.messages] }

/-- A round: the state after it, and how the turn ends if it does. -/
def stepRound (iteration : ℕ) (round : Round) (s : LoopState) : LoopState × Option LoopEnd :=
  if round.cancelled then (s, some .interrupted)
  else
    let s := s.asked cfg round
    match round.response with
    | .error message => (s, some (.failed (.driver message)))
    | .ok response =>
      let s := s.answered cfg response
      let response := promoted cfg response
      match response.stopReason with
      | .endTurn | .stopSequence => endRound cfg iteration round response s
      | .toolUse => toolRound cfg round response s
      | .maxTokens => maxTokensRound cfg round response s

/-- The rounds that are left. -/
def runRounds (rounds : ℕ → Round) : ℕ → ℕ → LoopState → LoopState × LoopEnd
  | iteration, 0, s =>
    (s.repairSession.saveUnlessFork cfg (rounds iteration).stored,
      .failed (.maxIterationsExceeded cfg.maxIterations))
  | iteration, left + 1, s =>
    match stepRound cfg iteration (rounds iteration) s with
    | (s, some ended) => (s, ended)
    | (s, none) => runRounds rounds (iteration + 1) left s

/-- The state before the first round. -/
def startState (prepared : PreparedMessages) (searchResults : Option String) (now : ℤ) :
    LoopState :=
  let found := (searchResults.map fun results => Message.user
    s!"[Web search results — use these to inform your response]\n{results}" now).toList
  let messages := found ++ prepared.messages
  { histories := ⟨prepared.session, messages⟩
    requests := []
    saved := []
    anyToolsExecuted := false
    hallucinationRetried := false
    actionNudgeRetried := false
    consecutiveMaxTokens := 0
    consecutiveAllFailed := 0
    lastPromptTokens := cfg.window.estimate messages
    accumulatedText := [] }

/-- What a turn starts with, besides the session: the message of the user, and what is put in front of
the history. -/
structure TurnStart where
  message : Message
  preamble : Preamble
  now : ℤ

/-- The messages of a turn before its first round. -/
def TurnStart.prepared (t : TurnStart) (session : List Message) : PreparedMessages :=
  prepareLlmMessages (session ++ [t.message]) cfg.effectiveUserMessage t.preamble
    cfg.maxHistory t.now

/-- `run_agent_loop`, with a driver that is configured. -/
def runAgentLoop (session : List Message) (t : TurnStart) (rounds : ℕ → Round) :
    LoopState × LoopEnd :=
  runRounds cfg rounds 0 cfg.maxIterations
    (startState cfg (t.prepared cfg session) t.preamble.searchResults t.now)

theorem listed_promoted {response : Response} (h : response.stopReason = .toolUse → response.Listed)
    (hstop : (promoted cfg response).stopReason = .toolUse) : (promoted cfg response).Listed := by
  unfold promoted at hstop ⊢
  dsimp only at hstop ⊢
  split_ifs at hstop ⊢
  · exact listed_promote _ _
  · exact h hstop

/-! ## What a round keeps -/

/-- A contract that a session keeps when old and silent messages are removed. -/
structure Stored (Q : List Message → Prop) : Prop extends Contract Q where
  drop : ∀ {ms}, Q ms → ∀ n, Q (ms.drop n)
  prune : ∀ {ms}, Q ms → ∀ v2Enabled keepRecent, Q (pruneHeartbeatTurns v2Enabled ms keepRecent)

/-- The contracts of a run: `P` of what is sent, `Q` of what is saved. -/
structure LoopState.Keeps (P Q : List Message → Prop) (s : LoopState) : Prop where
  messages : P s.histories.messages
  requests : ∀ r ∈ s.requests, P r
  session : Q s.histories.session
  saved : ∀ m ∈ s.saved, Q m

section Keeps

variable {P Q : List Message → Prop} (hP : Contract P) (hQ : Stored Q) {s : LoopState}
  (round : Round) (response : Response) (iteration : ℕ)

theorem LoopState.Keeps.save (h : s.Keeps P Q) (stored : Bool) : (s.save stored).Keeps P Q := by
  refine ⟨h.messages, h.requests, h.session, ?_⟩
  unfold LoopState.save
  dsimp only
  split_ifs
  · exact List.forall_mem_append.mpr ⟨h.saved, List.forall_mem_singleton.mpr h.session⟩
  · exact h.saved

theorem LoopState.Keeps.of_eq (h : s.Keeps P Q) {s' : LoopState}
    (hhistories : s'.histories = s.histories) (hrequests : s'.requests = s.requests)
    (hsaved : s'.saved = s.saved) : s'.Keeps P Q :=
  ⟨hhistories ▸ h.messages, hrequests ▸ h.requests, hhistories ▸ h.session, hsaved ▸ h.saved⟩

include hQ in
theorem LoopState.Keeps.pushSession (h : s.Keeps P Q) (text : String) (now : ℤ) :
    (s.pushSession (Message.assistant text now)).Keeps P Q :=
  ⟨h.messages, h.requests, hQ.append h.session (servable_assistant text now), h.saved⟩

include hQ in
theorem LoopState.Keeps.repairSession (h : s.Keeps P Q) : s.repairSession.Keeps P Q := by
  have hrepaired := hQ.repaired (hQ.wellPlaced h.session)
  unfold LoopState.repairSession
  refine ⟨h.messages, h.requests, ?_, h.saved⟩
  dsimp only
  exact hrepaired

theorem servable_exchange (answer note : String) (now : ℤ) :
    Servable [Message.assistant answer now, Message.user note now] :=
  (servable_assistant answer now).append (servable_user note now)

include hP in
theorem LoopState.Keeps.retry (h : s.Keeps P Q) (text : List Char) (now : ℤ)
    (retry : EndTurnRetry) : (s.retry text now retry).Keeps P Q := by
  cases retry with
  | emptyResponse isSilentFailure =>
    refine ⟨hP.append ?_ (servable_exchange _ _ _), h.requests, h.session, h.saved⟩
    cases isSilentFailure with
    | true => exact hP.repaired (hP.wellPlaced h.messages)
    | false => exact h.messages
  | hallucinatedAction | actionIntent =>
    exact ⟨hP.append h.messages (servable_exchange _ _ _), h.requests, h.session, h.saved⟩

include hP hQ in
theorem LoopState.Keeps.answered (h : s.Keeps P Q) : (s.answered cfg response).Keeps P Q :=
  ⟨hP.relabel h.messages (relabel_stripProcessedImageData _), h.requests,
    hQ.relabel h.session (relabel_stripProcessedImageData _), h.saved⟩

variable (hcut : cfg.engine ≠ none → ∀ a b n, Servable a → P b → P (a ++ b.drop n))

include hP hQ hcut in
theorem LoopState.Keeps.asked (h : s.Keeps P Q) : (s.asked cfg round).Keeps P Q := by
  have hmessages := hP.assembled cfg.window round.summaries hcut s.lastPromptTokens h.messages
  refine ⟨hmessages, ?_, ?_, h.saved⟩
  · exact List.forall_mem_append.mpr ⟨h.requests, List.forall_mem_singleton.mpr hmessages⟩
  · exact hQ.assembled_session _ _ _ _ (hP.wellPlaced h.messages) h.session

end Keeps

end LibreFang.Agent
