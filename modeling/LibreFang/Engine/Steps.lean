import LibreFang.Engine.Model

/-!
# The steps of a workflow

One pass of the loop of `execute_run_sequential`, after the check for a pause.

* `executeStepWithErrorMode`: a message to an agent under the error mode of the step.
* **`lt_of_iterate`**: a pass that goes on moves to a later step.
* **`run_of_iterate`**: of the run, a pass that goes on changes the step results only.
* **`iterate_stop`**: a pass that stops fails the run, or an agent is not found.
-/

namespace LibreFang.Engine

open Text

/-! ## One step, one agent -/

/-- The error of an attempt that took too long. -/
def timedOutAfter (step : WorkflowStep) : String :=
  "timed out after " ++ toString step.timeoutSecs ++ "s"

/-- One attempt: the answer with its tokens, or why there is none. -/
def attempt (env : Env) (step : WorkflowStep) (agentId prompt : String) (calls : List Call) :
    Except String (String × ℕ × ℕ) × List Call :=
  match env.sendMessage calls agentId prompt with
  | (.completed output inputTokens outputTokens, calls) =>
    (.ok (output, inputTokens, outputTokens), calls)
  | (.failed e, calls) => (.error e, calls)
  | (.timedOut, calls) => (.error (timedOutAfter step), calls)

/-- The attempts of a step that retries: one, and up to `retries` more. -/
def attempts (env : Env) (step : WorkflowStep) (agentId prompt : String) :
    ℕ → List Call → Except String (String × ℕ × ℕ) × List Call
  | 0, calls => attempt env step agentId prompt calls
  | retries + 1, calls =>
    match attempt env step agentId prompt calls with
    | (.ok answer, calls) => (.ok answer, calls)
    | (.error _, calls) => attempts env step agentId prompt retries calls

/-- `execute_step_with_error_mode`. -/
def executeStepWithErrorMode (env : Env) (step : WorkflowStep) (agentId prompt : String)
    (calls : List Call) : Except String (Option (String × ℕ × ℕ)) × List Call :=
  match step.errorMode with
  | .fail =>
    match env.sendMessage calls agentId prompt with
    | (.completed output inputTokens outputTokens, calls) =>
      (.ok (some (output, inputTokens, outputTokens)), calls)
    | (.failed e, calls) => (.error ("Step '" ++ step.name ++ "' failed: " ++ e), calls)
    | (.timedOut, calls) => (.error ("Step '" ++ step.name ++ "' " ++ timedOutAfter step), calls)
  | .skip =>
    match attempt env step agentId prompt calls with
    | (.ok answer, calls) => (.ok (some answer), calls)
    | (.error _, calls) => (.ok none, calls)
  | .retry maxRetries =>
    match attempts env step agentId prompt maxRetries calls with
    | (.ok answer, calls) => (.ok (some answer), calls)
    | (.error lastErr, calls) =>
      (.error ("Step '" ++ step.name ++ "' failed after " ++ toString maxRetries ++ " retries: " ++
        lastErr), calls)

/-! ## The state of the loop -/

/-- The variables of the loop of `execute_run_sequential`, with the run as it is stored and the
messages sent so far. -/
structure Exec where
  index : ℕ
  currentInput : String
  vars : VarMap
  allOutputs : List String
  run : WorkflowRun
  calls : List Call
  deriving DecidableEq, Repr

/-- What comes of a pass: the loop goes on, or the executor returns. -/
inductive Flow
  | next (s : Exec)
  | stop (result : Except String String) (s : Exec)

/-- What follows, if the loop goes on. -/
def Flow.andThen (flow : Flow) (f : Exec → Flow) : Flow :=
  match flow with
  | .next s => f s
  | .stop result s => .stop result s

/-- The stored run is marked as failed, and the executor returns the error. -/
def Exec.fail (s : Exec) (e : String) : Flow :=
  .stop (.error e) { s with run := { s.run with state := .failed, error := some e } }

/-- The executor returns with `?`: the stored run stays as it is. -/
def Exec.agentNotFound (s : Exec) (step : WorkflowStep) : Flow :=
  .stop (.error ("Agent not found for step '" ++ step.name ++ "'")) s

/-- `variables.insert`, if the step names a variable. -/
def Exec.assign (s : Exec) (outputVar : Option String) (value : String) : Exec :=
  match outputVar with
  | some var => { s with vars := s.vars.insert var value }
  | none => s

/-- `step_results.push`. -/
def Exec.record (s : Exec) (r : StepResult) : Exec :=
  { s with run := { s.run with stepResults := s.run.stepResults ++ [r] } }

/-- `all_outputs.push` of an answer, which is the next input. -/
def Exec.produce (s : Exec) (output : String) : Exec :=
  { s with allOutputs := s.allOutputs ++ [output], currentInput := output }

/-- The prompt of a step. -/
def Exec.prompt (env : Env) (wf : Workflow) (s : Exec) (step : WorkflowStep)
    (agentInherit : Bool) : String :=
  buildContextPrompt (expandVariables env step.promptTemplate s.currentInput s.vars) step
    wf.name s.run.stepResults agentInherit

/-- The agent is asked: the step result under the given name, or `none` for a step that is
skipped. -/
def Exec.ask (env : Env) (wf : Workflow) (s : Exec) (step : WorkflowStep) (stepName : String)
    (agent : String × String × Bool) : Except String (Option StepResult) × List Call :=
  let prompt := s.prompt env wf step agent.2.2
  match executeStepWithErrorMode env step agent.1 prompt s.calls with
  | (.ok (some (output, inputTokens, outputTokens)), calls) =>
    (.ok (some { stepName, agentId := agent.1, agentName := agent.2.1, prompt, output,
                 inputTokens, outputTokens }), calls)
  | (.ok none, calls) => (.ok none, calls)
  | (.error e, calls) => (.error e, calls)

/-! ## The step modes -/

variable (env : Env) (wf : Workflow)

/-- A sequential step; a conditional step whose condition is met runs the same way. -/
def runAgentStep (s : Exec) (step : WorkflowStep) : Flow :=
  match env.agentResolver step.agent with
  | none => s.agentNotFound step
  | some agent =>
    match s.ask env wf step step.name agent with
    | (.ok (some r), calls) =>
      .next ((({ s with index := s.index + 1, calls } : Exec).record r).assign step.outputVar
        r.output |>.produce r.output)
    | (.ok none, calls) => .next { s with index := s.index + 1, calls }
    | (.error e, calls) => Exec.fail { s with calls } e

/-- A conditional step. -/
def runConditional (s : Exec) (step : WorkflowStep) (condition : String) : Flow :=
  if evaluateCondition env (env.toLowercase s.currentInput) condition.toList then
    runAgentStep env wf s step
  else .next { s with index := s.index + 1 }

/-- The iterations of a loop step: `left` more, after `iter`. -/
def loopIterations (step : WorkflowStep) (agent : String × String × Bool) (untilLower : String) :
    ℕ → ℕ → Exec → Flow
  | 0, _, s => .next s
  | left + 1, iter, s =>
    match s.ask env wf step (step.name ++ " (iter " ++ toString (iter + 1) ++ ")") agent with
    | (.ok (some r), calls) =>
      let s := { ({ s with calls } : Exec).record r with currentInput := r.output }
      if containsStr (env.toLowercase r.output) untilLower then .next s
      else loopIterations step agent untilLower left (iter + 1) s
    | (.ok none, calls) => .next { s with calls }
    | (.error e, calls) => Exec.fail { s with calls } e

/-- A loop step. -/
def runLoop (s : Exec) (step : WorkflowStep) (maxIterations : ℕ) (until_ : String) : Flow :=
  match env.agentResolver step.agent with
  | none => s.agentNotFound step
  | some agent =>
    (loopIterations env wf step agent (env.toLowercase until_) maxIterations 0 s).andThen fun s =>
      .next (({ s with index := s.index + 1 } : Exec).assign step.outputVar s.currentInput
        |>.produce s.currentInput)

/-- The step results a collect step reports: the last ones, as many as there are outputs. -/
def Exec.relevant (s : Exec) : List StepResult :=
  let results := s.run.stepResults
  let n := s.allOutputs.length
  if results.length ≥ n then results.drop (results.length - n) else results

/-- A collect step. -/
def runCollect (s : Exec) (step : WorkflowStep) : Flow :=
  let merged := collectJson s.relevant
  .next (({ s with index := s.index + 1, allOutputs := [] } : Exec).assign step.outputVar merged
    |>.produce merged)

/-! ### Fan-out -/

/-- The consecutive fan-out steps from the current one. -/
def fanOutSteps (s : Exec) : List WorkflowStep :=
  (wf.steps.drop s.index).takeWhile fun step => decide (step.mode = .fanOut)

/-- A message of a fan-out, with the step it is for. -/
structure FanOutCall where
  step : WorkflowStep
  agentId : String
  agentName : String
  prompt : String
  deriving DecidableEq, Repr

/-- The messages of the fan-out steps, or the first of them whose agent is not found. -/
def fanOutCalls (s : Exec) : List WorkflowStep → Except WorkflowStep (List FanOutCall)
  | [] => .ok []
  | step :: rest =>
    match env.agentResolver step.agent with
    | none => .error step
    | some agent =>
      match fanOutCalls s rest with
      | .ok fs => .ok (⟨step, agent.1, agent.2.1, s.prompt env wf step agent.2.2⟩ :: fs)
      | .error missing => .error missing

/-- `join_all`: all messages are sent, in order, before the first reply is looked at. -/
def joinAll : List FanOutCall → List Call → List (FanOutCall × Reply) × List Call
  | [], calls => ([], calls)
  | f :: fs, calls =>
    let sent := env.sendMessage calls f.agentId f.prompt
    let rest := joinAll fs sent.2
    ((f, sent.1) :: rest.1, rest.2)

/-- The replies of a fan-out, in order; the error mode of the step is not looked at. -/
def fanOutReplies : List (FanOutCall × Reply) → Exec → Flow
  | [], s => .next s
  | (f, .completed output inputTokens outputTokens) :: rest, s =>
    fanOutReplies rest ((s.record
      { stepName := f.step.name, agentId := f.agentId, agentName := f.agentName,
        prompt := f.prompt, output, inputTokens, outputTokens }).assign f.step.outputVar output
      |>.produce output)
  | (f, .failed e) :: _, s => s.fail ("FanOut step '" ++ f.step.name ++ "' failed: " ++ e)
  | (f, .timedOut) :: _, s =>
    s.fail ("FanOut step '" ++ f.step.name ++ "' " ++ timedOutAfter f.step)

/-- The consecutive fan-out steps, together. -/
def runFanOut (s : Exec) : Flow :=
  match fanOutCalls env wf s (fanOutSteps wf s) with
  | .error missing => s.agentNotFound missing
  | .ok fs =>
    let sent := joinAll env fs s.calls
    (fanOutReplies sent.1 { s with calls := sent.2 }).andThen fun t =>
      .next { t with index := s.index + (fanOutSteps wf s).length }

/-- One pass of the loop. -/
def iterate (s : Exec) (step : WorkflowStep) : Flow :=
  match step.mode with
  | .sequential => runAgentStep env wf s step
  | .fanOut => runFanOut env wf s
  | .collect => runCollect s step
  | .conditional condition => runConditional env wf s step condition
  | .loop maxIterations until_ => runLoop env wf s step maxIterations until_

/-! ## What a pass leaves alone -/

variable {env wf} {s s' : Exec} {step : WorkflowStep}

@[simp] theorem Exec.assign_index (s : Exec) (v : Option String) (x : String) :
    (s.assign v x).index = s.index := by
  cases v <;> rfl

@[simp] theorem Exec.assign_run (s : Exec) (v : Option String) (x : String) :
    (s.assign v x).run = s.run := by
  cases v <;> rfl

/-- The same run up to its step results. -/
def SameRun (s s' : Exec) : Prop :=
  s'.run = { s.run with stepResults := s'.run.stepResults }

theorem SameRun.trans {t u : Exec} (h : SameRun s t) (h' : SameRun t u) : SameRun s u := by
  unfold SameRun at h h' ⊢
  rw [h', h]

theorem sameRun_of_eq (h : s'.run = s.run) : SameRun s s' := by
  rw [SameRun, h]

theorem sameRun_record {r : StepResult} (h : s'.run = (s.record r).run) : SameRun s s' := by
  rw [SameRun, h]
  rfl

theorem runAgentStep_next (h : runAgentStep env wf s step = .next s') :
    s'.index = s.index + 1 ∧ SameRun s s' := by
  unfold runAgentStep at h
  split at h
  · cases h
  · split at h
    · cases h
      exact ⟨by simp [Exec.produce, Exec.record], sameRun_record (Exec.assign_run _ _ _)⟩
    · cases h
      exact ⟨rfl, sameRun_of_eq rfl⟩
    · cases h

theorem loopIterations_next {agent : String × String × Bool} {untilLower : String}
    {left iter : ℕ} (h : loopIterations env wf step agent untilLower left iter s = .next s') :
    s'.index = s.index ∧ SameRun s s' := by
  induction left generalizing iter s with
  | zero =>
    cases h
    exact ⟨rfl, sameRun_of_eq rfl⟩
  | succ left ih =>
    unfold loopIterations at h
    split at h
    · dsimp only at h
      split_ifs at h
      · cases h
        exact ⟨rfl, sameRun_record rfl⟩
      · obtain ⟨hindex, hrun⟩ := ih h
        exact ⟨hindex, (sameRun_record rfl).trans hrun⟩
    · cases h
      exact ⟨rfl, sameRun_of_eq rfl⟩
    · cases h

theorem Flow.andThen_next {flow : Flow} {f : Exec → Flow} (h : flow.andThen f = .next s') :
    ∃ t, flow = .next t ∧ f t = .next s' := by
  cases flow with
  | next t => exact ⟨t, rfl, h⟩
  | stop result t => cases h

theorem runLoop_next {maxIterations : ℕ} {until_ : String}
    (h : runLoop env wf s step maxIterations until_ = .next s') :
    s'.index = s.index + 1 ∧ SameRun s s' := by
  unfold runLoop at h
  split at h
  · cases h
  · obtain ⟨t, ht, h⟩ := Flow.andThen_next h
    obtain ⟨hindex, hrun⟩ := loopIterations_next ht
    cases h
    refine ⟨?_, hrun.trans (sameRun_of_eq (Exec.assign_run _ _ _))⟩
    rw [Exec.produce, Exec.assign_index, hindex]

theorem runCollect_next (h : runCollect s step = .next s') :
    s'.index = s.index + 1 ∧ SameRun s s' := by
  cases h
  exact ⟨Exec.assign_index _ _ _, sameRun_of_eq (Exec.assign_run _ _ _)⟩

theorem fanOutReplies_next {fs : List (FanOutCall × Reply)} (h : fanOutReplies fs s = .next s') :
    SameRun s s' := by
  induction fs generalizing s with
  | nil =>
    cases h
    exact sameRun_of_eq rfl
  | cons f fs ih =>
    obtain ⟨f, reply⟩ := f
    cases reply with
    | completed output inputTokens outputTokens =>
      rw [fanOutReplies] at h
      refine SameRun.trans ?_ (ih h)
      exact sameRun_record (Exec.assign_run _ _ _)
    | failed e => cases h
    | timedOut => cases h

theorem fanOutSteps_ne_nil (hstep : wf.steps[s.index]? = some step) (hmode : step.mode = .fanOut) :
    fanOutSteps wf s ≠ [] := by
  obtain ⟨hlt, hget⟩ := List.getElem?_eq_some_iff.mp hstep
  rw [fanOutSteps, List.drop_eq_getElem_cons hlt, hget, List.takeWhile_cons_of_pos (by simpa)]
  exact List.cons_ne_nil _ _

theorem runFanOut_next (hstep : wf.steps[s.index]? = some step) (hmode : step.mode = .fanOut)
    (h : runFanOut env wf s = .next s') : s.index < s'.index ∧ SameRun s s' := by
  have hpos := List.length_pos_iff.mpr (fanOutSteps_ne_nil hstep hmode)
  unfold runFanOut at h
  split at h
  · cases h
  · obtain ⟨t, ht, h⟩ := Flow.andThen_next h
    cases h
    exact ⟨by dsimp only; omega, (fanOutReplies_next ht).trans (sameRun_of_eq rfl)⟩

theorem iterate_next (hstep : wf.steps[s.index]? = some step)
    (h : iterate env wf s step = .next s') : s.index < s'.index ∧ SameRun s s' := by
  unfold iterate at h
  split at h
  · obtain ⟨hindex, hrun⟩ := runAgentStep_next h
    exact ⟨by omega, hrun⟩
  · rename_i hmode
    exact runFanOut_next hstep hmode h
  · obtain ⟨hindex, hrun⟩ := runCollect_next h
    exact ⟨by omega, hrun⟩
  · unfold runConditional at h
    split_ifs at h
    · obtain ⟨hindex, hrun⟩ := runAgentStep_next h
      exact ⟨by omega, hrun⟩
    · cases h
      exact ⟨by dsimp only; omega, sameRun_of_eq rfl⟩
  · obtain ⟨hindex, hrun⟩ := runLoop_next h
    exact ⟨by omega, hrun⟩

/-- **A pass that goes on moves to a later step.** -/
theorem lt_of_iterate (hstep : wf.steps[s.index]? = some step)
    (h : iterate env wf s step = .next s') : s.index < s'.index := (iterate_next hstep h).1

/-- **Of the run, a pass that goes on changes the step results only.** -/
theorem run_of_iterate (hstep : wf.steps[s.index]? = some step)
    (h : iterate env wf s step = .next s') :
    s'.run = { s.run with stepResults := s'.run.stepResults } := (iterate_next hstep h).2

theorem keyed_assign (h : s.vars.Keyed) (v : Option String) (x : String) :
    (s.assign v x).vars.Keyed := by
  cases v with
  | none => exact h
  | some v => exact h.insert v x

theorem keyed_runAgentStep (h : s.vars.Keyed) (hflow : runAgentStep env wf s step = .next s') :
    s'.vars.Keyed := by
  unfold runAgentStep at hflow
  split at hflow
  · cases hflow
  · split at hflow
    · cases hflow
      refine keyed_assign ?_ _ _
      exact h
    · cases hflow
      exact h
    · cases hflow

theorem vars_loopIterations {agent : String × String × Bool} {untilLower : String}
    {left iter : ℕ} (h : loopIterations env wf step agent untilLower left iter s = .next s') :
    s'.vars = s.vars := by
  induction left generalizing iter s with
  | zero =>
    cases h
    rfl
  | succ left ih =>
    unfold loopIterations at h
    split at h
    · dsimp only at h
      split_ifs at h
      · cases h
        rfl
      · exact (ih h).trans rfl
    · cases h
      rfl
    · cases h

theorem keyed_fanOutReplies {fs : List (FanOutCall × Reply)} (h : s.vars.Keyed)
    (hflow : fanOutReplies fs s = .next s') : s'.vars.Keyed := by
  induction fs generalizing s with
  | nil =>
    cases hflow
    exact h
  | cons f fs ih =>
    obtain ⟨f, reply⟩ := f
    cases reply with
    | completed output inputTokens outputTokens =>
      rw [fanOutReplies] at hflow
      refine ih ?_ hflow
      refine keyed_assign ?_ _ _
      exact h
    | failed e => cases hflow
    | timedOut => cases hflow

/-- **A pass keeps the variables a map.** -/
theorem keyed_of_iterate (h : s.vars.Keyed) (hflow : iterate env wf s step = .next s') :
    s'.vars.Keyed := by
  unfold iterate at hflow
  split at hflow
  · exact keyed_runAgentStep h hflow
  · unfold runFanOut at hflow
    split at hflow
    · cases hflow
    · obtain ⟨t, ht, hflow⟩ := Flow.andThen_next hflow
      have hkeyed : t.vars.Keyed := by
        refine keyed_fanOutReplies ?_ ht
        exact h
      cases hflow
      exact hkeyed
  · cases hflow
    refine keyed_assign ?_ _ _
    exact h
  · unfold runConditional at hflow
    split_ifs at hflow
    · exact keyed_runAgentStep h hflow
    · cases hflow
      exact h
  · unfold runLoop at hflow
    split at hflow
    · cases hflow
    · obtain ⟨t, ht, hflow⟩ := Flow.andThen_next hflow
      cases hflow
      refine keyed_assign ?_ _ _
      exact (vars_loopIterations ht).symm ▸ h

/-! ## How a pass stops -/

variable {result : Except String String}

/-- The error is returned, and the stored run is marked as failed with it. -/
def Failed (result : Except String String) (s' : Exec) : Prop :=
  ∃ e, result = .error e ∧ s'.run.state = .failed ∧ s'.run.error = some e

theorem failed_of_fail {e : String} (h : s.fail e = .stop result s') : Failed result s' := by
  cases h
  exact ⟨e, rfl, rfl, rfl⟩

theorem runAgentStep_stop (h : runAgentStep env wf s step = .stop result s') :
    Failed result s' ∨ s.agentNotFound step = .stop result s' := by
  unfold runAgentStep at h
  split at h
  · exact .inr h
  · split at h
    · cases h
    · cases h
    · exact .inl (failed_of_fail h)

theorem loopIterations_stop {agent : String × String × Bool} {untilLower : String}
    {left iter : ℕ} (h : loopIterations env wf step agent untilLower left iter s = .stop result s') :
    Failed result s' := by
  induction left generalizing iter s with
  | zero => cases h
  | succ left ih =>
    unfold loopIterations at h
    split at h
    · dsimp only at h
      split_ifs at h
      exact ih h
    · cases h
    · exact failed_of_fail h

theorem Flow.andThen_stop {flow : Flow} {f : Exec → Flow} (h : flow.andThen f = .stop result s')
    (hf : ∀ t, ∃ t', f t = .next t') : flow = .stop result s' := by
  cases flow with
  | next t =>
    obtain ⟨t', ht'⟩ := hf t
    rw [Flow.andThen, ht'] at h
    cases h
  | stop result t => exact h

theorem runLoop_stop {maxIterations : ℕ} {until_ : String}
    (h : runLoop env wf s step maxIterations until_ = .stop result s') :
    Failed result s' ∨ s.agentNotFound step = .stop result s' := by
  unfold runLoop at h
  split at h
  · exact .inr h
  · exact .inl (loopIterations_stop (Flow.andThen_stop h fun _ => ⟨_, rfl⟩))

theorem fanOutReplies_stop {fs : List (FanOutCall × Reply)}
    (h : fanOutReplies fs s = .stop result s') : Failed result s' := by
  induction fs generalizing s with
  | nil => cases h
  | cons f fs ih =>
    obtain ⟨f, reply⟩ := f
    cases reply with
    | completed output inputTokens outputTokens =>
      rw [fanOutReplies] at h
      exact ih h
    | failed e => exact failed_of_fail h
    | timedOut => exact failed_of_fail h

theorem runFanOut_stop (h : runFanOut env wf s = .stop result s') :
    Failed result s' ∨ ∃ missing, s.agentNotFound missing = .stop result s' := by
  unfold runFanOut at h
  split at h
  · exact .inr ⟨_, h⟩
  · exact .inl (fanOutReplies_stop (Flow.andThen_stop h fun _ => ⟨_, rfl⟩))

/-- **A pass that stops fails the run, or an agent is not found and the run stays as it is.** -/
theorem iterate_stop (h : iterate env wf s step = .stop result s') :
    Failed result s' ∨ ∃ missing, s.agentNotFound missing = .stop result s' := by
  unfold iterate at h
  split at h
  · exact (runAgentStep_stop h).imp_right fun hm => ⟨step, hm⟩
  · exact runFanOut_stop h
  · cases h
  · unfold runConditional at h
    split_ifs at h
    exact (runAgentStep_stop h).imp_right fun hm => ⟨step, hm⟩
  · exact (runLoop_stop h).imp_right fun hm => ⟨step, hm⟩

end LibreFang.Engine
