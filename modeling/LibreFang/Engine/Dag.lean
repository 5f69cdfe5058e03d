import LibreFang.Engine.Sequential

/-!
# The executor of workflows with dependencies

* `buildDependencyGraph`, `topologicalSort`: the layers of steps that run together.
* `runSingle`, `runTogether`: a layer of one step, and a layer of several.
* `executeRunDag`: the layers one after the other.
* `callEngine`: `execute_run` and `resume_run` with both executors.
-/

namespace LibreFang.Engine

/-! ## The layers -/

/-- `name_to_idx`, or the error for a name that two steps have. -/
def nameToIdx (i : ℕ) (seen : List (String × ℕ)) :
    List WorkflowStep → Except String (List (String × ℕ))
  | [] => .ok seen
  | step :: steps =>
    match seen.lookup step.name with
    | some prev =>
      .error (s!"Duplicate step name '{step.name}' at positions {prev} and {i}")
    | none => nameToIdx (i + 1) ((step.name, i) :: seen) steps

/-- The indices of the steps that a step depends on. -/
def dependencyIndices (names : List (String × ℕ)) (step : WorkflowStep) :
    List String → Except String (List ℕ)
  | [] => .ok []
  | depName :: rest =>
    match names.lookup depName with
    | none =>
      .error (s!"Step '{step.name}' depends on '{depName}' which does not exist")
    | some depIdx =>
      match dependencyIndices names step rest with
      | .ok deps => .ok (depIdx :: deps)
      | .error e => .error e

/-- The loop of `build_dependency_graph` over the steps. -/
def dependencyRows (names : List (String × ℕ)) :
    List WorkflowStep → Except String (List (List ℕ))
  | [] => .ok []
  | step :: steps =>
    match dependencyIndices names step step.dependsOn with
    | .error e => .error e
    | .ok deps =>
      match dependencyRows names steps with
      | .ok rows => .ok (deps :: rows)
      | .error e => .error e

/-- `build_dependency_graph`: for each step the indices of the steps it depends on. -/
def buildDependencyGraph (steps : List WorkflowStep) : Except String (List (List ℕ)) :=
  match nameToIdx 0 [] steps with
  | .ok names => dependencyRows names steps
  | .error e => .error e

/-- The dependencies of a node. -/
def depsOf (graph : List (List ℕ)) (node : ℕ) : List ℕ := graph.getD node []

/-- `dependents`: for each node the nodes that depend on it, once for every time they name it. The
graph is iterated in the given order. -/
def dependentsOf (graph : List (List ℕ)) (order : List ℕ) (node : ℕ) : List ℕ :=
  order.flatMap fun dependent => List.replicate ((depsOf graph dependent).count node) dependent

/-- `-= 1` of `usize`, which wraps around. -/
def decrement (n : ℕ) : ℕ := if n = 0 then 2 ^ 64 - 1 else n - 1

/-- The counters of the loop of `topological_sort`. -/
structure Kahn where
  inDegree : ℕ → ℕ
  queue : List ℕ
  layers : List (List ℕ)
  processed : ℕ

/-- One dependent of a node that has been taken. -/
def Kahn.release (k : Kahn) (dependent : ℕ) : Kahn :=
  let k := { k with
    inDegree := Function.update k.inDegree dependent (decrement (k.inDegree dependent)) }
  if k.inDegree dependent = 0 then { k with queue := k.queue ++ [dependent] } else k

/-- One node of the current layer. -/
def Kahn.take (dependents : ℕ → List ℕ) (k : Kahn) (node : ℕ) : Kahn :=
  (dependents node).foldl Kahn.release { k with processed := k.processed + 1 }

/-- The passes of the loop; every pass takes a node, so as many as there are nodes suffice. -/
def Kahn.passes (dependents : ℕ → List ℕ) : ℕ → Kahn → Kahn
  | 0, k => k
  | n + 1, k =>
    if k.queue = [] then k
    else
      let k' := k.queue.foldl (Kahn.take dependents) { k with queue := [] }
      Kahn.passes dependents n { k' with layers := k'.layers ++ [k.queue] }

/-- The counters at the start. -/
def Kahn.start (graph : List (List ℕ)) : Kahn where
  inDegree node := (depsOf graph node).length
  queue := (List.range graph.length).filter fun node => (depsOf graph node).length = 0
  layers := []
  processed := 0

/-- `topological_sort`; `order` is the order in which the graph is iterated. -/
def topologicalSort (order : List ℕ) (steps : List WorkflowStep) :
    Except String (List (List ℕ)) :=
  match buildDependencyGraph steps with
  | .error e => .error e
  | .ok graph =>
    let ended := Kahn.passes (dependentsOf graph order) (graph.length + 1) (.start graph)
    if ended.processed ≠ steps.length then .error "Cycle detected in workflow step dependencies"
    else .ok ended.layers

/-! ## The state of the executor -/

/-- The variables of `execute_run_dag`, with the run as it is stored and the messages sent. -/
structure DagExec where
  vars : VarMap
  failedSteps : List String
  lastOutput : String
  run : WorkflowRun
  calls : List Call
  deriving DecidableEq, Repr

/-- What comes of a layer: the executor goes on, or returns an error. -/
abbrev DagFlow := Except (String × DagExec) DagExec

/-- The stored run is marked as failed, and the executor returns the error. -/
def DagExec.fail (s : DagExec) (e : String) : DagFlow :=
  .error (e, { s with run := { s.run with state := .failed, error := some e } })

/-- The executor returns with `?`: the stored run stays as it is. -/
def DagExec.agentNotFound (s : DagExec) (step : WorkflowStep) : DagFlow :=
  .error ("Agent not found for step '" ++ step.name ++ "'", s)

/-- Some dependency of the step has failed. -/
def DagExec.depFailed (s : DagExec) (step : WorkflowStep) : Bool :=
  step.dependsOn.any fun dep => decide (dep ∈ s.failedSteps)

/-- `failed_steps.insert`. -/
def DagExec.markFailed (s : DagExec) (step : WorkflowStep) : DagExec :=
  { s with failedSteps := step.name :: s.failedSteps }

/-- An answer is recorded. -/
def DagExec.record (s : DagExec) (step : WorkflowStep) (r : StepResult) : DagExec :=
  { s with
    run := { s.run with stepResults := s.run.stepResults ++ [r] }
    vars := step.outputVar.elim s.vars fun var => s.vars.insert var r.output
    lastOutput := r.output }

/-- The error of a step whose dependency has failed. -/
def dependencyFailed (step : WorkflowStep) : String :=
  "Step '" ++ step.name ++ "' skipped: dependency failed"

variable (env : Env) (input : String)

/-- The prompt of a step. -/
def DagExec.prompt (s : DagExec) (step : WorkflowStep) : String :=
  expandVariables env step.promptTemplate input s.vars

/-! ## One layer -/

/-- A layer of one step. -/
def runSingle (s : DagExec) (step : WorkflowStep) : DagFlow :=
  if s.depFailed step then
    if step.errorMode = .fail then s.fail (dependencyFailed step)
    else .ok (s.markFailed step)
  else
    match env.agentResolver step.agent with
    | none => s.agentNotFound step
    | some agent =>
      let prompt := s.prompt env input step
      match executeStepWithErrorMode env step agent.1 prompt s.calls with
      | (.ok (some (output, inputTokens, outputTokens)), calls) =>
        .ok (({ s with calls } : DagExec).record step
          { stepName := step.name, agentId := agent.1, agentName := agent.2.1, prompt, output,
            inputTokens, outputTokens })
      | (.ok none, calls) => .ok (({ s with calls } : DagExec).markFailed step)
      | (.error e, calls) =>
        let s := ({ s with calls } : DagExec).markFailed step
        if step.errorMode = .fail then s.fail e else .ok s

/-- A future of a layer of several steps. -/
structure LayerCall where
  step : WorkflowStep
  agentId : String
  agentName : String
  prompt : String
  depFailed : Bool
  deriving DecidableEq, Repr

/-- The futures of a layer, or the first step whose agent is not found. -/
def layerCalls (s : DagExec) : List WorkflowStep → Except WorkflowStep (List LayerCall)
  | [] => .ok []
  | step :: rest =>
    match env.agentResolver step.agent with
    | none => .error step
    | some agent =>
      match layerCalls s rest with
      | .ok fs =>
        let prompt := if s.depFailed step then "" else s.prompt env input step
        .ok (⟨step, agent.1, agent.2.1, prompt, s.depFailed step⟩ :: fs)
      | .error missing => .error missing

/-- The result of a future: an answer, nothing for a step that is skipped, or an error. -/
def LayerCall.result (f : LayerCall) (reply : Reply) :
    Except String (Option (String × ℕ × ℕ)) :=
  match reply with
  | .completed output inputTokens outputTokens => .ok (some (output, inputTokens, outputTokens))
  | .failed e =>
    if f.step.errorMode = .fail then .error ("Step '" ++ f.step.name ++ "' failed: " ++ e)
    else .ok none
  | .timedOut =>
    if f.step.errorMode = .fail then .error ("Step '" ++ f.step.name ++ "' timed out")
    else .ok none

/-- `join_all`: all messages are sent, in order, before the first result is looked at. -/
def joinLayer : List LayerCall → List Call →
    List (LayerCall × Except String (Option (String × ℕ × ℕ))) × List Call
  | [], calls => ([], calls)
  | f :: fs, calls =>
    if f.depFailed then
      let rest := joinLayer fs calls
      let result :=
        if f.step.errorMode = .fail then .error (dependencyFailed f.step) else .ok none
      ((f, result) :: rest.1, rest.2)
    else
      let sent := env.sendMessage calls f.agentId f.prompt
      let rest := joinLayer fs sent.2
      ((f, f.result sent.1) :: rest.1, rest.2)

/-- The results of a layer, in order. -/
def layerResults : List (LayerCall × Except String (Option (String × ℕ × ℕ))) → DagExec → DagFlow
  | [], s => .ok s
  | (f, .ok (some (output, inputTokens, outputTokens))) :: rest, s =>
    layerResults rest (s.record f.step
      { stepName := f.step.name, agentId := f.agentId, agentName := f.agentName,
        prompt := f.prompt, output, inputTokens, outputTokens })
  | (f, .ok none) :: rest, s => layerResults rest (s.markFailed f.step)
  | (f, .error e) :: _, s => (s.markFailed f.step).fail e

/-- A layer of several steps. -/
def runTogether (s : DagExec) (steps : List WorkflowStep) : DagFlow :=
  match layerCalls env input s steps with
  | .error missing => s.agentNotFound missing
  | .ok fs =>
    let sent := joinLayer env fs s.calls
    layerResults sent.1 { s with calls := sent.2 }

/-- A layer. -/
def runLayer (s : DagExec) (steps : List WorkflowStep) : DagFlow :=
  match steps with
  | [step] => runSingle env input s step
  | steps => runTogether env input s steps

/-! ## The executor -/

/-- A pause that is requested while the executor runs. -/
def DagExec.lodge (s : DagExec) (request : Option PauseRequest) : DagExec :=
  request.elim s fun request => { s with run := (pauseRun s.run request).2 }

/-- The layers one after the other; a pause may be requested before each of them. -/
def runLayers (lodged : Lodging) (k : ℕ) : DagExec → List (List WorkflowStep) → DagFlow
  | s, [] => .ok (s.lodge (lodged k))
  | s, steps :: rest =>
    match runLayer env input (s.lodge (lodged k)) steps with
    | .ok s' => runLayers lodged (k + 1) s' rest
    | .error stopped => .error stopped

/-- What the caller is told when a pause was requested for a workflow with dependencies. -/
def pauseRefused (reason : String) : String :=
  "Pause requested (" ++ reason ++ ") but the workflow uses DAG dependencies; " ++
    "pause/resume is supported on the sequential path only (#3335 follow-up)"

/-- What the run records of it. -/
def refusedToStart (reason : String) : String :=
  "DAG workflow refused to start: pause requested (" ++ reason ++ ") " ++
    "but pause/resume is supported on the sequential path only (#3335 follow-up)"

/-- The run after the requests made before the executor starts. -/
def WorkflowRun.lodge (run : WorkflowRun) (request : Option PauseRequest) : WorkflowRun :=
  request.elim run fun request => (pauseRun run request).2

/-- The variables of the executor at its start. -/
def dagStart (run : WorkflowRun) (input : String) (calls : List Call) : DagExec :=
  ⟨[], [], input, run, calls⟩

/-- `execute_run_dag`. -/
def executeRunDag (order : List ℕ) (lodged : Lodging) : Executor := fun wf run input calls =>
  let run := run.lodge (lodged 0)
  match run.pauseRequest with
  | some request =>
    ⟨.error (pauseRefused request.reason),
      { run with state := .failed, error := some (refusedToStart request.reason) }, calls⟩
  | none =>
    match topologicalSort order wf.steps with
    | .error e => ⟨.error e, run, calls⟩
    | .ok layers =>
      match runLayers env input lodged 1 (dagStart run input calls)
          (layers.map fun layer => layer.filterMap (wf.steps[·]?)) with
      | .error (e, s) => ⟨.error e, s.run, s.calls⟩
      | .ok s =>
        ⟨.ok s.lastOutput, { s.run with state := .completed, output := some s.lastOutput }, s.calls⟩

/-- A call of the engine on a run. -/
inductive EngineCall
  | executeRun
  | resumeRun (resumeToken : String)
  deriving DecidableEq, Repr

/-- A call, with the definition that is found for the run. -/
def callEngine (order : List ℕ) (definition : Option Workflow) (lodged : Lodging)
    (run : WorkflowRun) (calls : List Call) : EngineCall → Outcome
  | .executeRun => executeRun env (executeRunDag env order lodged) definition lodged run calls
  | .resumeRun resumeToken => resumeRun env definition lodged resumeToken run calls

end LibreFang.Engine
