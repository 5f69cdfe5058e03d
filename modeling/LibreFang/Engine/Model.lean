import LibreFang.Lib.Text

/-!
# Workflows

The data of the workflow engine, and its functions on text.

* `Workflow`, `WorkflowStep`: the definitions; `WorkflowRun`: a run with what a pause saves of it.
* `Env`: the agents a run talks to, and the functions of the standard library with large tables.
* `evaluateCondition`, `splitOutsideQuotes`: the conditions of conditional steps.
-/

namespace LibreFang.Engine

open Text

/-! ## Definitions -/

/-- `StepAgent`. -/
inductive StepAgent
  | byId (id : String)
  | byName (name : String)
  deriving DecidableEq, Repr

/-- `StepMode`. -/
inductive StepMode
  | sequential
  | fanOut
  | collect
  | conditional (condition : String)
  | loop (maxIterations : ℕ) (until_ : String)
  deriving DecidableEq, Repr

/-- `ErrorMode`. -/
inductive ErrorMode
  | fail
  | skip
  | retry (maxRetries : ℕ)
  deriving DecidableEq, Repr

/-- `WorkflowStep`. -/
structure WorkflowStep where
  name : String
  agent : StepAgent
  promptTemplate : String
  mode : StepMode := .sequential
  timeoutSecs : ℕ := 120
  errorMode : ErrorMode := .fail
  outputVar : Option String := none
  inheritContext : Option Bool := none
  dependsOn : List String := []
  deriving DecidableEq, Repr

/-- `Workflow`. -/
structure Workflow where
  id : String
  name : String
  steps : List WorkflowStep
  deriving DecidableEq, Repr

/-! ## Runs -/

/-- A finite map with text keys: its entries in the order of their keys. -/
abbrev VarMap := List (String × String)

/-- `insert` of the maps of the standard library. -/
def VarMap.insert (key value : String) : VarMap → VarMap
  | [] => [(key, value)]
  | (k, v) :: rest =>
    if key < k then (key, value) :: (k, v) :: rest
    else if key = k then (key, value) :: rest
    else (k, v) :: VarMap.insert key value rest

/-- What the entries of a map are: in the order of their keys, and no key twice. -/
def VarMap.Keyed (vars : VarMap) : Prop := vars.Pairwise fun e e' => e.1 < e'.1

variable {vars : VarMap} {key value : String} {e : String × String}

theorem VarMap.mem_insert (h : e ∈ vars.insert key value) : e.1 = key ∨ e ∈ vars := by
  induction vars with
  | nil => exact .inl (congrArg Prod.fst (List.mem_singleton.mp h))
  | cons entry rest ih =>
    unfold VarMap.insert at h
    split_ifs at h
    · exact (List.mem_cons.mp h).imp_left fun he => congrArg Prod.fst he
    · exact (List.mem_cons.mp h).imp (congrArg Prod.fst) (List.mem_cons_of_mem _)
    · rcases List.mem_cons.mp h with rfl | h
      · exact .inr List.mem_cons_self
      · exact (ih h).imp_right (List.mem_cons_of_mem _)

theorem VarMap.Keyed.insert (h : vars.Keyed) (key value : String) :
    (vars.insert key value).Keyed := by
  induction vars with
  | nil => exact List.pairwise_singleton _ _
  | cons entry rest ih =>
    obtain ⟨hfirst, hrest⟩ := List.pairwise_cons.mp h
    unfold VarMap.insert
    split_ifs with hlt heq
    · refine List.pairwise_cons.mpr ⟨fun e he => ?_, h⟩
      rcases List.mem_cons.mp he with rfl | he
      · exact hlt
      · exact String.lt_trans hlt (hfirst e he)
    · exact List.pairwise_cons.mpr ⟨heq ▸ hfirst, hrest⟩
    · refine List.pairwise_cons.mpr ⟨fun e he => ?_, ih hrest⟩
      rcases mem_insert he with hkey | he
      · rw [hkey]
        exact String.not_le.mp fun hle => heq (String.le_antisymm hle (String.not_lt.mp hlt))
      · exact hfirst e he

theorem VarMap.Keyed.nodup (h : vars.Keyed) : (vars.map (·.1)).Nodup :=
  List.pairwise_map.mpr (List.Pairwise.imp String.ne_of_lt h)

/-- `PauseRequest`. -/
structure PauseRequest where
  reason : String
  resumeToken : String
  deriving DecidableEq, Repr

/-- `WorkflowRunState`. -/
inductive WorkflowRunState
  | pending
  | running
  | paused (resumeToken reason : String)
  | completed
  | failed
  deriving DecidableEq, Repr

/-- `is_paused`. -/
def WorkflowRunState.isPaused : WorkflowRunState → Bool
  | .paused .. => true
  | _ => false

/-- `StepResult`. -/
structure StepResult where
  stepName : String
  agentId : String
  agentName : String
  prompt : String
  output : String
  inputTokens : ℕ
  outputTokens : ℕ
  deriving DecidableEq, Repr

/-- `WorkflowRun`. -/
structure WorkflowRun where
  id : String
  workflowId : String
  workflowName : String
  input : String
  state : WorkflowRunState
  stepResults : List StepResult
  output : Option String
  error : Option String
  pauseRequest : Option PauseRequest
  pausedStepIndex : Option ℕ
  pausedVariables : VarMap
  pausedCurrentInput : Option String
  deriving DecidableEq, Repr

/-- The run `create_run` makes. -/
def createRun (wf : Workflow) (id input : String) : WorkflowRun where
  id
  workflowId := wf.id
  workflowName := wf.name
  input
  state := .pending
  stepResults := []
  output := none
  error := none
  pauseRequest := none
  pausedStepIndex := none
  pausedVariables := []
  pausedCurrentInput := none

/-- `clear_pause_state`. -/
def WorkflowRun.clearPauseState (r : WorkflowRun) : WorkflowRun :=
  { r with
    pauseRequest := none
    pausedStepIndex := none
    pausedVariables := []
    pausedCurrentInput := none }

/-- What comes of a message to an agent. -/
inductive Reply
  | completed (output : String) (inputTokens outputTokens : ℕ)
  | failed (error : String)
  | timedOut
  deriving DecidableEq, Repr

/-- A message that was sent. -/
structure Call where
  agentId : String
  prompt : String
  deriving DecidableEq, Repr

/-- What surrounds a run: the resolver with the agent's id, its name and whether it inherits context;
the reply to the `k`-th message sent; lower case; the order in which the map of the variables is
iterated when it has these entries. -/
structure Env where
  agentResolver : StepAgent → Option (String × String × Bool)
  reply : ℕ → Reply
  toLowercase : String → String
  varOrder : VarMap → VarMap

/-- One message: its reply, and all messages sent so far. -/
def Env.sendMessage (env : Env) (calls : List Call) (agentId prompt : String) :
    Reply × List Call :=
  (env.reply calls.length, calls ++ [⟨agentId, prompt⟩])

/-- The order in which one map is iterated, which its entries determine as no key is removed; every
map that is made has its own. -/
structure MapOrder where
  order : VarMap → VarMap
  perm : ∀ vars, (order vars).Perm vars

/-- The same with a map that is iterated in this order. -/
def MapOrder.env (o : MapOrder) (env : Env) : Env := { env with varOrder := o.order }

@[simp] theorem MapOrder.env_varOrder (o : MapOrder) (env : Env) :
    (o.env env).varOrder = o.order := rfl

@[simp] theorem MapOrder.env_agentResolver (o : MapOrder) (env : Env) :
    (o.env env).agentResolver = env.agentResolver := rfl

@[simp] theorem MapOrder.env_toLowercase (o : MapOrder) (env : Env) :
    (o.env env).toLowercase = env.toLowercase := rfl

/-- One agent that answers every message. -/
def sampleEnv : Env where
  agentResolver _ := some ("a-1", "writer", true)
  reply k := .completed ("answer " ++ toString k) 1 1
  toLowercase s := s.map Char.toLower
  varOrder vars := vars

/-! ## Conditions -/

/-- The quote `split_outside_quotes` is inside of after a quotation mark. -/
def toggleQuote (c : Char) : Option Char → Option Char
  | some q => if q = c then none else some q
  | none => some c

/-- The scan of `split_outside_quotes`: the quote it is inside of, and the part read so far. -/
def splitScan (delimiter : List Char) : ℕ → Option Char → List Char → List Char → List (List Char)
  | _, _, current, [] => [current.reverse]
  | skip + 1, inQuote, current, _ :: s => splitScan delimiter skip inQuote current s
  | 0, inQuote, current, c :: s =>
    if c.toNat = 0x22 ∨ c.toNat = 0x27 then
      splitScan delimiter 0 (toggleQuote c inQuote) (c :: current) s
    else if inQuote = none ∧ delimiter.isPrefixOf (c :: s) then
      current.reverse :: splitScan delimiter (delimiter.length - 1) inQuote [] s
    else splitScan delimiter 0 inQuote (c :: current) s

/-- `split_outside_quotes`. -/
def splitOutsideQuotes (s delimiter : List Char) : Option (List (List Char)) :=
  let parts := splitScan delimiter 0 none [] s
  if parts.length > 1 then some parts else none

theorem length_of_mem_splitScan {delimiter : List Char} {skip : ℕ} {inQuote : Option Char}
    {current s p : List Char} (hp : p ∈ splitScan delimiter skip inQuote current s) :
    p.length ≤ current.length + s.length ∧
      ((splitScan delimiter skip inQuote current s).length > 1 →
        p.length < current.length + s.length) := by
  induction s generalizing skip inQuote current with
  | nil =>
    have hone : ∀ k, splitScan delimiter k inQuote current [] = [current.reverse] := by
      intro k
      cases k <;> rfl
    rw [hone, List.mem_singleton] at hp
    rw [hone, hp]
    simp
  | cons c s ih =>
    cases skip with
    | succ skip =>
      rw [splitScan] at hp ⊢
      have := ih hp
      simp only [List.length_cons]
      omega
    | zero =>
      rw [splitScan] at hp ⊢
      split_ifs at hp ⊢ with hquote hdelim
      · have := ih hp
        simp only [List.length_cons] at this ⊢
        omega
      · simp only [List.length_cons]
        rcases List.mem_cons.mp hp with rfl | hp
        · rw [List.length_reverse]
          omega
        · have := (ih hp).1
          rw [List.length_nil] at this
          omega
      · have := ih hp
        simp only [List.length_cons] at this ⊢
        omega

/-- The parts of a condition between its delimiters, without blanks around them, and only if there
are at least two. -/
def branches (delimiter condition : List Char) : List (List Char) :=
  match splitOutsideQuotes condition delimiter with
  | some parts => (parts.map trim).filter fun p => decide (p ≠ [])
  | none => []

theorem length_trim_le (s : List Char) : (trim s).length ≤ s.length :=
  ((List.rdropWhile_prefix _ _).length_le).trans (List.dropWhile_suffix _).length_le

theorem length_of_mem_branches {delimiter condition p : List Char}
    (hp : p ∈ branches delimiter condition) : p.length < condition.length := by
  unfold branches splitOutsideQuotes at hp
  split at hp
  · rename_i parts hparts
    dsimp only at hparts
    split_ifs at hparts with hlen
    cases hparts
    obtain ⟨q, hq, rfl⟩ := List.mem_map.mp (List.mem_filter.mp hp).1
    have := (length_of_mem_splitScan hq).2 hlen
    exact lt_of_le_of_lt (length_trim_le q) (by simpa using this)
  · cases hp

/-- `evaluate_condition`. -/
def evaluateCondition (env : Env) (input : String) (condition : List Char) : Bool :=
  if (branches "||".toList (trim condition)).length > 1 then
    (branches "||".toList (trim condition)).attach.any fun p => evaluateCondition env input p.1
  else if (branches "&&".toList (trim condition)).length > 1 then
    (branches "&&".toList (trim condition)).attach.all fun p => evaluateCondition env input p.1
  else
    match trim condition with
    | '!' :: inner => !containsStr input (env.toLowercase (String.ofList (trim inner)))
    | keyword => containsStr input (env.toLowercase (String.ofList keyword))
termination_by condition.length
decreasing_by
  all_goals
    have hshort := length_of_mem_branches p.2
    exact lt_of_lt_of_le hshort (length_trim_le condition)

/-- `expand_variables`. -/
def expandVariables (env : Env) (template input : String) (vars : VarMap) : String :=
  (env.varOrder vars).foldl (fun result e => replaceStr result ("\x7b\x7b" ++ e.1 ++ "\x7d\x7d") e.2)
    (replaceStr template "\x7b\x7binput\x7d\x7d" input)

/-- `MAX_OUTPUT_PREVIEW_BYTES`. -/
def maxOutputPreviewBytes : ℕ := 500

/-- `truncate_output_preview`. -/
def truncateOutputPreview (output : String) : String :=
  let trimmed := String.ofList (trim output.toList)
  if (utf8 trimmed).length ≤ maxOutputPreviewBytes then trimmed
  else truncateStr trimmed maxOutputPreviewBytes ++ "..."

/-- `format_preamble` of a context with a workflow name and no summary. -/
def formatPreamble (workflowName : String) (previousOutputs : List (String × String)) :
    Option String :=
  if previousOutputs = [] then none
  else some ("\n".intercalate (["[Parent workflow context]", "Workflow: " ++ workflowName,
    "Previous steps completed:"] ++ previousOutputs.map (fun e => "- " ++ e.1 ++ ": " ++ e.2) ++
    [""]))

/-- `build_context_prompt`. -/
def buildContextPrompt (prompt : String) (step : WorkflowStep) (workflowName : String)
    (stepResults : List StepResult) (agentInherit : Bool) : String :=
  if step.inheritContext.getD agentInherit then
    match formatPreamble workflowName
        (stepResults.map fun r => (r.stepName, truncateOutputPreview r.output)) with
    | some preamble => preamble ++ prompt
    | none => prompt
  else prompt

/-- A character inside a JSON string. -/
def jsonChar (c : Char) : String :=
  if c.toNat = 0x22 then "\\\""
  else if c.toNat = 0x5C then "\\\\"
  else if c.toNat = 0x08 then "\\b"
  else if c.toNat = 0x0C then "\\f"
  else if c.toNat = 0x0A then "\\n"
  else if c.toNat = 0x0D then "\\r"
  else if c.toNat = 0x09 then "\\t"
  else if c.toNat < 0x20 then
    "\\u00" ++ String.ofList [hexDigit (c.toNat / 16), hexDigit (c.toNat % 16)]
  else String.ofList [c]

/-- A JSON string. -/
def jsonString (s : String) : String := "\"" ++ String.join (s.toList.map jsonChar) ++ "\""

/-- The JSON text of the results a collect step reports. -/
def collectJson (relevant : List StepResult) : String :=
  "\x7b\"results\":[" ++ ",".intercalate (relevant.map fun r =>
    "\x7b\"agent\":" ++ jsonString r.agentName ++ ",\"output\":" ++ jsonString r.output ++ "\x7d") ++
    "]\x7d"

end LibreFang.Engine
