import LibreFang.Engine.Steps

/-!
# The sequential executor

* `pauseRun`: the request for a pause; `Lodging`: the requests made while the executor runs.
* `sequentialLoop`, `executeRunSequential`: the loop with its check for a pause before each step.
* `executeRun`, `resumeRun`: the two ways into it.
* **`sequentialLoop_cases`**: up to a pause, the loop does what it does when it is never paused.
-/

namespace LibreFang.Engine

/-! ## Pausing -/

/-- `pause_run`: the token, and the run after it; the request is the one made if there is none. -/
def pauseRun (run : WorkflowRun) (request : PauseRequest) : Except String String × WorkflowRun :=
  match run.state with
  | .pending | .running =>
    match run.pauseRequest with
    | some existing => (.ok existing.resumeToken, run)
    | none => (.ok request.resumeToken, { run with pauseRequest := some request })
  | .paused resumeToken _ => (.ok resumeToken, run)
  | .completed | .failed =>
    (.error ("Cannot pause workflow run " ++ run.id ++ ": state is terminal"), run)

/-- The request that `pause_run` makes, if any, since the step boundary before each one. -/
abbrev Lodging := ℕ → Option PauseRequest

/-- No request. -/
def undisturbed : Lodging := fun _ => none

/-- The request is made. -/
def Exec.lodge (s : Exec) : Option PauseRequest → Exec
  | none => s
  | some request => { s with run := (pauseRun s.run request).2 }

theorem Exec.lodge_index (s : Exec) (request : Option PauseRequest) :
    (s.lodge request).index = s.index := by
  cases request <;> rfl

/-- The executor pauses: all of the loop that the run keeps, and the result. -/
def Exec.pause (s : Exec) (request : PauseRequest) : Except String String × Exec :=
  (.ok s.currentInput, { s with run := { s.run with
    pausedStepIndex := some s.index
    pausedVariables := s.vars
    pausedCurrentInput := some s.currentInput
    pauseRequest := none
    state := .paused request.resumeToken request.reason } })

/-- The run is completed. -/
def Exec.complete (s : Exec) : Except String String × Exec :=
  (.ok s.currentInput, { s with run := { s.run.clearPauseState with
    state := .completed
    output := some s.currentInput } })

variable (env : Env) (wf : Workflow)

/-- The loop of `execute_run_sequential`: what it returns, and its variables at the end. -/
def sequentialLoop (lodged : Lodging) (s : Exec) : Except String String × Exec :=
  match _ : wf.steps[s.index]? with
  | none => (s.lodge (lodged s.index)).complete
  | some step =>
    match (s.lodge (lodged s.index)).run.pauseRequest with
    | some request => (s.lodge (lodged s.index)).pause request
    | none =>
      match _ : iterate env wf (s.lodge (lodged s.index)) step with
      | .next s' => sequentialLoop lodged s'
      | .stop result s' => (result, s')
termination_by wf.steps.length - s.index
decreasing_by
  rename_i hstep hflow
  have hlen := (List.getElem?_eq_some_iff.mp hstep).1
  rw [← s.lodge_index (lodged s.index)] at hstep
  have hlt := lt_of_iterate hstep hflow
  rw [s.lodge_index] at hlt
  omega

/-- The variables of the loop at its start: from what a pause saved, else afresh. -/
def startExec (run : WorkflowRun) (input : String) (calls : List Call) : Exec :=
  match run.pausedStepIndex with
  | some savedIdx =>
    { index := savedIdx, currentInput := run.pausedCurrentInput.getD "",
      vars := run.pausedVariables, allOutputs := [], run, calls }
  | none => { index := 0, currentInput := input, vars := [], allOutputs := [], run, calls }

theorem startExec_run (run : WorkflowRun) (input : String) (calls : List Call) :
    (startExec run input calls).run = run := by
  unfold startExec
  split
  · rfl
  · rfl

/-! ## Entering the executor -/

/-- What a call of the engine returns, the run it leaves and the messages sent so far. -/
structure Outcome where
  result : Except String String
  run : WorkflowRun
  calls : List Call

/-- `execute_run_sequential`. -/
def executeRunSequential (lodged : Lodging) (run : WorkflowRun) (input : String)
    (calls : List Call) : Outcome :=
  let ended := sequentialLoop env wf lodged (startExec run input calls)
  ⟨ended.1, ended.2.run, ended.2.calls⟩

/-- `cleanup_terminal_pause_state`. -/
def WorkflowRun.cleanupTerminalPauseState (run : WorkflowRun) : WorkflowRun :=
  match run.state with
  | .completed | .failed => run.clearPauseState
  | _ => run

/-- What the callers of an executor do after it. -/
def Outcome.cleanup (out : Outcome) : Outcome :=
  { out with run := out.run.cleanupTerminalPauseState }

/-- Some step depends on others. -/
def Workflow.hasDagDeps (wf : Workflow) : Bool := wf.steps.any fun step => decide (step.dependsOn ≠ [])

/-- An executor: from the workflow, the run, its input and the messages sent so far. -/
abbrev Executor := Workflow → WorkflowRun → String → List Call → Outcome

/-- `execute_run` of a run with the definition that was found for it; `executeRunDag` is for
workflows with dependencies. -/
def executeRun (executeRunDag : Executor) (definition : Option Workflow) (lodged : Lodging)
    (run : WorkflowRun) (calls : List Call) : Outcome :=
  let run := { run with state := .running }
  match definition with
  | none => ⟨.error "Workflow definition not found", run, calls⟩
  | some wf =>
    if wf.hasDagDeps then (executeRunDag wf run run.input calls).cleanup
    else (executeRunSequential env wf lodged run run.input calls).cleanup

/-- The run when it is resumed. -/
def WorkflowRun.resumed (run : WorkflowRun) : WorkflowRun :=
  { run with state := .running, pauseRequest := none }

/-- A run that is not paused is not resumed. -/
def refuseResume (run : WorkflowRun) (state : String) (calls : List Call) : Outcome :=
  ⟨.error ("Cannot resume workflow run " ++ run.id ++ ": state is " ++ state ++
    ", expected Paused"), run, calls⟩

/-- `resume_run` of a run with the definition that was found for it. -/
def resumeRun (definition : Option Workflow) (lodged : Lodging) (resumeToken : String)
    (run : WorkflowRun) (calls : List Call) : Outcome :=
  match run.state with
  | .paused stored _ =>
    if stored ≠ resumeToken then
      ⟨.error ("Resume token mismatch for run " ++ run.id ++
        ": presented token does not match stored token"), run, calls⟩
    else
      match definition with
      | none => ⟨.error ("Workflow definition " ++ run.workflowId ++ " not found"), run.resumed,
        calls⟩
      | some wf =>
        if wf.hasDagDeps then
          Outcome.cleanup ⟨.error ("Resuming a workflow with DAG dependencies is not yet " ++
            "supported (#3335 follow-up)"), run.resumed, calls⟩
        else (executeRunSequential env wf lodged run.resumed "" calls).cleanup
  | .pending => refuseResume run "Pending" calls
  | .running => refuseResume run "Running" calls
  | .completed => refuseResume run "Completed" calls
  | .failed => refuseResume run "Failed" calls

/-! ## The loop and its pauses -/

variable {env wf} {lodged : Lodging} {s s' : Exec} {step : WorkflowStep}

/-- The run is running, and no pause is requested. -/
structure Live (s : Exec) : Prop where
  state : s.run.state = .running
  pauseRequest : s.run.pauseRequest = none

theorem Live.lodge_some (h : Live s) (request : PauseRequest) :
    s.lodge (some request) = { s with run := { s.run with pauseRequest := some request } } := by
  simp only [Exec.lodge, pauseRun, h.state, h.pauseRequest]

theorem Live.lodge_complete (h : Live s) (request : Option PauseRequest) :
    (s.lodge request).complete = s.complete := by
  cases request with
  | none => rfl
  | some request =>
    rw [h.lodge_some]
    rfl

theorem Live.of_iterate (h : Live s) (hstep : wf.steps[s.index]? = some step)
    (hflow : iterate env wf s step = .next s') : Live s' := by
  have hrun := run_of_iterate hstep hflow
  constructor
  · rw [hrun]
    exact h.state
  · rw [hrun]
    exact h.pauseRequest

theorem sequentialLoop_eq (lodged : Lodging) (s : Exec) : sequentialLoop env wf lodged s =
    match wf.steps[s.index]? with
    | none => (s.lodge (lodged s.index)).complete
    | some step =>
      match (s.lodge (lodged s.index)).run.pauseRequest with
      | some request => (s.lodge (lodged s.index)).pause request
      | none =>
        match iterate env wf (s.lodge (lodged s.index)) step with
        | .next s' => sequentialLoop env wf lodged s'
        | .stop result s' => (result, s') := by
  rw [sequentialLoop]
  split
  · rename_i h
    rw [h]
  · rename_i step h
    rw [h]
    dsimp only
    split
    · rfl
    · split
      · rename_i h
        rw [h]
      · rename_i h
        rw [h]

theorem Live.sequentialLoop_pass (h : Live s) (lodged : Lodging) (hstep : wf.steps[s.index]? = some step)
    (hreq : lodged s.index = none) : sequentialLoop env wf lodged s =
      match iterate env wf s step with
      | .next s' => sequentialLoop env wf lodged s'
      | .stop result s' => (result, s') := by
  rw [sequentialLoop_eq, hstep, hreq]
  dsimp only [Exec.lodge]
  rw [h.pauseRequest]

@[elab_as_elim]
theorem passes_induction (env : Env) (wf : Workflow) {motive : Exec → Prop}
    (pass : ∀ s, (∀ step s', wf.steps[s.index]? = some step →
      iterate env wf s step = .next s' → motive s') → motive s) (s : Exec) : motive s := by
  induction hm : wf.steps.length - s.index using Nat.strong_induction_on generalizing s with
  | h m ih =>
    refine pass s fun step s' hstep hflow => ih (wf.steps.length - s'.index) ?_ s' rfl
    have hlt := lt_of_iterate hstep hflow
    have hlen := (List.getElem?_eq_some_iff.mp hstep).1
    omega

/-- **Up to a pause, the loop does what it does when it is never paused.** -/
theorem sequentialLoop_cases (lodged : Lodging) (h : Live s) :
    sequentialLoop env wf lodged s = sequentialLoop env wf undisturbed s ∨
      ∃ t request, Live t ∧ (s.vars.Keyed → t.vars.Keyed) ∧
        sequentialLoop env wf lodged s = t.pause request ∧
        sequentialLoop env wf undisturbed s = sequentialLoop env wf undisturbed t := by
  induction s using passes_induction env wf with
  | pass s ih =>
    cases hstep : wf.steps[s.index]? with
    | none =>
      left
      rw [sequentialLoop_eq, sequentialLoop_eq undisturbed, hstep]
      dsimp only
      rw [h.lodge_complete, h.lodge_complete]
    | some step =>
      cases hreq : lodged s.index with
      | some request =>
        right
        refine ⟨s, request, h, id, ?_, rfl⟩
        rw [sequentialLoop_eq, hstep, hreq, h.lodge_some]
        rfl
      | none =>
        rw [h.sequentialLoop_pass lodged hstep hreq, h.sequentialLoop_pass undisturbed hstep rfl]
        cases hflow : iterate env wf s step with
        | next s' =>
          refine (ih step s' hstep hflow (h.of_iterate hstep hflow)).imp_right ?_
          rintro ⟨t, request, ht, hkeyed, hrest⟩
          exact ⟨t, request, ht, fun hs => hkeyed (keyed_of_iterate hs hflow), hrest⟩
        | stop result s' => exact .inl rfl

theorem sequentialLoop_undisturbed_state (env : Env) (wf : Workflow) (h : Live s) :
    (sequentialLoop env wf undisturbed s).2.run.state = .completed ∨
      (sequentialLoop env wf undisturbed s).2.run.state = .failed ∨
      (sequentialLoop env wf undisturbed s).2.run.state = .running := by
  induction s using passes_induction env wf with
  | pass s ih =>
    cases hstep : wf.steps[s.index]? with
    | none =>
      left
      rw [sequentialLoop_eq, hstep]
      rfl
    | some step =>
      rw [h.sequentialLoop_pass undisturbed hstep rfl]
      cases hflow : iterate env wf s step with
      | next s' => exact ih step s' hstep hflow (h.of_iterate hstep hflow)
      | stop result s' =>
        rcases iterate_stop hflow with ⟨e, -, hfailed, -⟩ | ⟨missing, hmissing⟩
        · exact .inr (.inl hfailed)
        · cases hmissing
          exact .inr (.inr h.state)

end LibreFang.Engine
