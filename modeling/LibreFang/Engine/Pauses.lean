import LibreFang.Engine.Resume
import LibreFang.Lib.Tokens

/-!
# Pausing a run that others resume

A run in the shared map, and the calls of `pause_run`, `execute_run` and `resume_run` on it, which
take its lock again and again.

* `Caller`: where a call of `execute_run` or `resume_run` is; `Caller.step`: what it does under the
  next lock.
* `resumeStart`: the first lock of `resume_run`.
* `alone`: a call that nobody disturbs; **`alone_entering`**, **`alone_resumeStart`**: it does what
  `executeRun` and `resumeRun` say.
-/

namespace LibreFang.Engine.Pauses

open Tokens

/-! ## One call -/

/-- Where a call of `execute_run` or `resume_run` is. -/
inductive Caller
  /-- `execute_run` has not begun: the definition that it will find, without dependencies -/
  | entering (definition : Option Workflow)
  /-- `execute_run_sequential` reads what a pause has saved -/
  | starting (wf : Workflow) (input : String)
  /-- the top of the loop, where the request for a pause is read -/
  | gate (wf : Workflow) (s : Exec)
  /-- a request was read, and the run is to be paused -/
  | honor (s : Exec) (request : PauseRequest)
  /-- none was read, and the step is run -/
  | work (wf : Workflow) (s : Exec) (step : WorkflowStep)
  /-- the executor has returned, `cleanup_terminal_pause_state` is next -/
  | ending (result : Except String String)
  | returned (result : Except String String)

/-- The variables of the loop, with the run as it is stored now. -/
def onRun (s : Exec) (run : WorkflowRun) : Exec := { s with run }

/-- What a call does under the next lock: the run after it, and where the call is then. The agents
answer as `env` says; while they do, nobody else writes what the step reads or writes, so that a
step is taken as a whole. -/
def Caller.step (env : Env) (run : WorkflowRun) : Caller → WorkflowRun × Caller
  | .entering none =>
    ({ run with state := .running }, .returned (.error "Workflow definition not found"))
  | .entering (some wf) => ({ run with state := .running }, .starting wf run.input)
  | .starting wf input => (run, .gate wf (startExec run input []))
  | .gate wf s =>
    match wf.steps[s.index]? with
    | none => ((onRun s run).complete.2.run, .ending (.ok s.currentInput))
    | some step =>
      match run.pauseRequest with
      | some request => (run, .honor s request)
      | none => (run, .work wf s step)
  | .honor s request => (((onRun s run).pause request).2.run, .ending (.ok s.currentInput))
  | .work wf s step =>
    match iterate env wf (onRun s run) step with
    | .next s' => (s'.run, .gate wf s')
    | .stop result s' => (s'.run, .ending result)
  | .ending result => (run.cleanupTerminalPauseState, .returned result)
  | .returned result => (run, .returned result)

/-- What is seen of it: the token that the run is paused with. -/
def Caller.marks : Caller → List (Mark String)
  | .honor _ request => [.armed request.resumeToken]
  | _ => []

/-- How `resume_run` goes on with the definition that it finds. -/
def resumeNext (run : WorkflowRun) : Option Workflow → Caller
  | none => .returned (.error ("Workflow definition " ++ run.workflowId ++ " not found"))
  | some wf =>
    if wf.hasDagDeps then
      .ending (.error ("Resuming a workflow with DAG dependencies is not yet " ++
        "supported (#3335 follow-up)"))
    else .starting wf ""

/-- `resume_run` up to its executor: the run after it, and where the call is then. -/
def resumeStart (run : WorkflowRun) (resumeToken : String) (definition : Option Workflow) :
    WorkflowRun × Caller :=
  match run.state with
  | .paused stored _ =>
    if stored ≠ resumeToken then
      (run, .returned (.error ("Resume token mismatch for run " ++ run.id ++
        ": presented token does not match stored token")))
    else (run.resumed, resumeNext run definition)
  | .pending => (run, .returned (refuseResume run "Pending" []).result)
  | .running => (run, .returned (refuseResume run "Running" []).result)
  | .completed => (run, .returned (refuseResume run "Completed" []).result)
  | .failed => (run, .returned (refuseResume run "Failed" []).result)

/-! ## A call alone -/

theorem onRun_self (s : Exec) : onRun s s.run = s := rfl

/-- The call, step after step, with nobody else at work on the run. -/
def alone (env : Env) (c : WorkflowRun × Caller) : WorkflowRun × Caller := c.2.step env c.1

theorem alone_gate (env : Env) (wf : Workflow) (s : Exec) (h : Live s) :
    ∃ n, (alone env)^[n] (s.run, .gate wf s) =
      ((sequentialLoop env wf undisturbed s).2.run.cleanupTerminalPauseState,
        .returned (sequentialLoop env wf undisturbed s).1) := by
  induction s using passes_induction env wf with
  | pass s ih =>
    cases hstep : wf.steps[s.index]? with
    | none =>
      refine ⟨2, ?_⟩
      rw [sequentialLoop_eq, hstep]
      simp only [Function.iterate_succ_apply, Function.iterate_zero_apply, alone, Caller.step,
        hstep, onRun_self]
      rfl
    | some step =>
      have hwork : (alone env)^[1] (s.run, .gate wf s) = (s.run, .work wf s step) := by
        simp only [Function.iterate_one, alone, Caller.step, hstep, h.pauseRequest]
      rw [h.sequentialLoop_pass undisturbed hstep rfl]
      cases hflow : iterate env wf s step with
      | next s' =>
        have hnext : (alone env)^[1] (s.run, .work wf s step) = (s'.run, .gate wf s') := by
          simp only [Function.iterate_one, alone, Caller.step, onRun_self, hflow]
        obtain ⟨n, hn⟩ := ih step s' hstep hflow (h.of_iterate hstep hflow)
        refine ⟨n + 1 + 1, ?_⟩
        rw [Function.iterate_add_apply, hwork, Function.iterate_add_apply, hnext]
        exact hn
      | stop result s' =>
        have hstop : (alone env)^[1] (s.run, .work wf s step) = (s'.run, .ending result) := by
          simp only [Function.iterate_one, alone, Caller.step, onRun_self, hflow]
        refine ⟨1 + 1 + 1, ?_⟩
        rw [Function.iterate_add_apply, hwork, Function.iterate_add_apply, hstop]
        rfl

theorem alone_starting (env : Env) (wf : Workflow) (input : String) (run : WorkflowRun)
    (hstate : run.state = .running) (hrequest : run.pauseRequest = none) :
    ∃ n, (alone env)^[n] (run, .starting wf input) =
      ((executeRunSequential env wf undisturbed run input []).cleanup.run,
        .returned (executeRunSequential env wf undisturbed run input []).cleanup.result) := by
  have hrun := startExec_run run input []
  have hlive : Live (startExec run input []) := by
    constructor
    · rw [hrun]
      exact hstate
    · rw [hrun]
      exact hrequest
  obtain ⟨n, hn⟩ := alone_gate env wf (startExec run input []) hlive
  rw [hrun] at hn
  exact ⟨n + 1, hn⟩

/-- **A call of `execute_run` that nobody disturbs** does what `executeRun` says. -/
theorem alone_entering (env : Env) (executeRunDag : Executor) (definition : Option Workflow)
    (hdag : ∀ wf, definition = some wf → wf.hasDagDeps = false) (run : WorkflowRun)
    (hrequest : run.pauseRequest = none) :
    ∃ n, (alone env)^[n] (run, .entering definition) =
      ((executeRun env executeRunDag definition undisturbed run []).run,
        .returned (executeRun env executeRunDag definition undisturbed run []).result) := by
  cases definition with
  | none => exact ⟨1, rfl⟩
  | some wf =>
    obtain ⟨n, hn⟩ := alone_starting env wf run.input { run with state := .running } rfl hrequest
    refine ⟨n + 1, ?_⟩
    dsimp only [executeRun]
    rw [if_neg (Bool.eq_false_iff.mp (hdag wf rfl))]
    exact hn

/-- A run of two steps. -/
def sampleRun : WorkflowRun := createRun (sampleWorkflow .fanOut .sequential) "run-1" "go"

theorem alone_sampleRun : ∃ n, (alone sampleEnv)^[n]
    (sampleRun, .entering (some (sampleWorkflow .fanOut .sequential))) =
      ((executeRun sampleEnv sampleDag (some (sampleWorkflow .fanOut .sequential)) undisturbed
        sampleRun []).run,
      .returned (executeRun sampleEnv sampleDag (some (sampleWorkflow .fanOut .sequential))
        undisturbed sampleRun []).result) :=
  alone_entering sampleEnv sampleDag _ (fun _ h => Option.some.inj h ▸ rfl) sampleRun rfl

/-- **A call of `resume_run` that nobody disturbs** does what `resumeRun` says. -/
theorem alone_resumeStart (env : Env) (definition : Option Workflow) (resumeToken : String)
    (run : WorkflowRun) :
    ∃ n, (alone env)^[n] (resumeStart run resumeToken definition) =
      ((resumeRun env definition undisturbed resumeToken run []).run,
        .returned (resumeRun env definition undisturbed resumeToken run []).result) := by
  cases hstate : run.state with
  | paused stored reason =>
    simp only [resumeStart, resumeRun, hstate]
    split_ifs with hmismatch
    · exact ⟨0, rfl⟩
    · cases definition with
      | none => exact ⟨0, rfl⟩
      | some wf =>
        dsimp only [resumeNext]
        split_ifs with hdag
        · exact ⟨1, rfl⟩
        · exact alone_starting env wf "" run.resumed rfl rfl
  | _ =>
    simp only [resumeStart, resumeRun, hstate]
    exact ⟨0, rfl⟩

/-! ## All calls -/

/-- The run as it is stored, and the calls that execute it. -/
structure World where
  run : WorkflowRun
  callers : List Caller

/-- What can happen: a call of `pause_run` with the request that it would make, a call of
`resume_run` with the definition that it will find, or the next step of a call. -/
inductive Event
  | pauseRun (request : PauseRequest)
  | resumeRun (resumeToken : String) (definition : Option Workflow)
  | step (i : ℕ) (env : Env)

/-- The world after an event. -/
def World.handle (w : World) : Event → World
  | .pauseRun request => { w with run := (pauseRun w.run request).2 }
  | .resumeRun resumeToken definition =>
    ⟨(resumeStart w.run resumeToken definition).1,
      w.callers ++ [(resumeStart w.run resumeToken definition).2]⟩
  | .step i env =>
    match w.callers[i]? with
    | some p => ⟨(p.step env w.run).1, w.callers.set i (p.step env w.run).2⟩
    | none => w

/-- What is seen of an event: the token that `pause_run` returns, the token that a run is paused
with, the token that `resume_run` has resumed a run with. -/
def World.marks (w : World) : Event → List (Mark String)
  | .pauseRun request =>
    match (pauseRun w.run request).1 with
    | .ok resumeToken => [.told resumeToken]
    | .error _ => []
  | .resumeRun resumeToken _ =>
    match w.run.state with
    | .paused stored _ => if stored ≠ resumeToken then [] else [.fired resumeToken]
    | _ => []
  | .step i _ =>
    match w.callers[i]? with
    | some p => p.marks
    | none => []

/-- A run that `create_run` has made and `execute_run` will run with the sequential executor, or a
run that `load_runs` has read. -/
inductive World.Initial : World → Prop
  | created (wf : Workflow) (id input : String) (definition : Option Workflow)
      (hdag : ∀ found, definition = some found → found.hasDagDeps = false) :
      Initial ⟨createRun wf id input, [.entering definition]⟩
  | loaded (run : WorkflowRun) (hpending : run.state ≠ .pending) (hrunning : run.state ≠ .running) :
      Initial ⟨run, []⟩

end LibreFang.Engine.Pauses
