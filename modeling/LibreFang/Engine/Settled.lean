import LibreFang.Engine.Dag
import LibreFang.Engine.Resume

/-!
# The stored state after a call

Every failure that an executor handles is stored in the run. The exits with `?` leave the run as it
is, in state `Running`.

* `Settled`: the stored state agrees with what a call returns.
* **`settled_iff_handled`**: after a call that has set the run to `Running`, its stored state agrees
  with the result exactly when the call takes none of these exits.
-/

namespace LibreFang.Engine

/-- An error is stored: the one that is returned, or the refusal to start in its own words. -/
def Recorded (e : String) (run : WorkflowRun) : Prop :=
  run.error = some e ∨
    ∃ reason, e = pauseRefused reason ∧ run.error = some (refusedToStart reason)

/-- The stored state agrees with the result. -/
def Settled (result : Except String String) (run : WorkflowRun) : Prop :=
  match result with
  | .ok _ => run.state = .completed ∨ run.state.isPaused = true
  | .error e => run.state = .failed ∧ Recorded e run

theorem not_settled_of_running {result : Except String String} {run : WorkflowRun}
    (h : run.state = .running) : ¬ Settled result run := by
  cases result with
  | ok output =>
    rintro (hs | hs)
    · rw [h] at hs
      cases hs
    · rw [h] at hs
      cases hs
  | error e =>
    rintro ⟨hs, -⟩
    rw [h] at hs
    cases hs

theorem settled_cleanup {result : Except String String} {run : WorkflowRun} :
    Settled result run.cleanupTerminalPauseState ↔ Settled result run := by
  have hstate : run.cleanupTerminalPauseState.state = run.state := by
    unfold WorkflowRun.cleanupTerminalPauseState
    split <;> rfl
  have herror : run.cleanupTerminalPauseState.error = run.error := by
    unfold WorkflowRun.cleanupTerminalPauseState
    split <;> rfl
  unfold Settled Recorded
  rw [hstate, herror]

/-! ## The sequential executor -/

variable (env : Env) (wf : Workflow)

/-- A pass over the step asks for an agent that is not found. -/
def StepMisses (s : Exec) (step : WorkflowStep) : Prop :=
  match step.mode with
  | .sequential | .loop _ _ => env.agentResolver step.agent = none
  | .conditional condition =>
    evaluateCondition env (env.toLowercase s.currentInput) condition.toList = true ∧
      env.agentResolver step.agent = none
  | .fanOut => ∃ f ∈ fanOutSteps wf s, env.agentResolver f.agent = none
  | .collect => False

/-- No pause is requested before the current step. -/
def GoesOn (lodged : Lodging) (s : Exec) : Prop :=
  s.run.pauseRequest = none ∧ lodged s.index = none

/-- The loop comes to a step that asks for an agent that is not found. -/
inductive Misses (lodged : Lodging) : Exec → Prop
  | here {s : Exec} {step : WorkflowStep} (hstep : wf.steps[s.index]? = some step)
      (hgoes : GoesOn lodged s) (hmisses : StepMisses env wf s step) : Misses lodged s
  | later {s s' : Exec} {step : WorkflowStep} (hstep : wf.steps[s.index]? = some step)
      (hgoes : GoesOn lodged s) (hnext : iterate env wf s step = .next s')
      (hmisses : Misses lodged s') : Misses lodged s

variable {env wf} {s s' : Exec} {step : WorkflowStep} {result : Except String String}
  {lodged : Lodging}

theorem runAgentStep_failed {agent : String × String × Bool}
    (hagent : env.agentResolver step.agent = some agent)
    (h : runAgentStep env wf s step = .stop result s') : Failed result s' := by
  unfold runAgentStep at h
  rw [hagent] at h
  dsimp only at h
  split at h
  · cases h
  · cases h
  · exact failed_of_fail h

theorem runLoop_failed {agent : String × String × Bool} {maxIterations : ℕ} {until_ : String}
    (hagent : env.agentResolver step.agent = some agent)
    (h : runLoop env wf s step maxIterations until_ = .stop result s') : Failed result s' := by
  unfold runLoop at h
  rw [hagent] at h
  exact loopIterations_stop (Flow.andThen_stop h fun _ => ⟨_, rfl⟩)

theorem fanOutCalls_ok (wf : Workflow) (s : Exec) {steps : List WorkflowStep}
    (h : ∀ f ∈ steps, env.agentResolver f.agent ≠ none) :
    ∃ fs, fanOutCalls env wf s steps = .ok fs := by
  induction steps with
  | nil => exact ⟨[], rfl⟩
  | cons f steps ih =>
    obtain ⟨agent, hagent⟩ := Option.ne_none_iff_exists'.mp (h f List.mem_cons_self)
    obtain ⟨fs, hfs⟩ := ih fun f hf => h f (List.mem_cons_of_mem _ hf)
    unfold fanOutCalls
    rw [hagent, hfs]
    exact ⟨_, rfl⟩

theorem fanOutCalls_error (wf : Workflow) (s : Exec) {steps : List WorkflowStep}
    (h : ∃ f ∈ steps, env.agentResolver f.agent = none) :
    ∃ missing, fanOutCalls env wf s steps = .error missing := by
  induction steps with
  | nil =>
    obtain ⟨f, hf, -⟩ := h
    cases hf
  | cons f steps ih =>
    unfold fanOutCalls
    cases hagent : env.agentResolver f.agent with
    | none => exact ⟨f, rfl⟩
    | some agent =>
      obtain ⟨g, hg, hnone⟩ := h
      rcases List.mem_cons.mp hg with rfl | hg
      · rw [hagent] at hnone
        cases hnone
      · obtain ⟨missing, hmissing⟩ := ih ⟨g, hg, hnone⟩
        rw [hmissing]
        exact ⟨missing, rfl⟩

theorem failed_of_not_misses (hfound : ¬ StepMisses env wf s step)
    (h : iterate env wf s step = .stop result s') : Failed result s' := by
  unfold StepMisses at hfound
  unfold iterate at h
  cases hmode : step.mode with
  | sequential =>
    rw [hmode] at h hfound
    obtain ⟨agent, hagent⟩ := Option.ne_none_iff_exists'.mp hfound
    exact runAgentStep_failed hagent h
  | fanOut =>
    rw [hmode] at h hfound
    obtain ⟨fs, hfs⟩ := fanOutCalls_ok wf s fun f hf hnone => hfound ⟨f, hf, hnone⟩
    dsimp only [runFanOut] at h
    rw [hfs] at h
    exact fanOutReplies_stop (Flow.andThen_stop h fun _ => ⟨_, rfl⟩)
  | collect =>
    rw [hmode] at h
    cases h
  | conditional condition =>
    rw [hmode] at h hfound
    dsimp only [runConditional] at h
    split_ifs at h with hmet
    cases hagent : env.agentResolver step.agent with
    | none => exact absurd ⟨hmet, hagent⟩ hfound
    | some agent => exact runAgentStep_failed hagent h
  | loop maxIterations until_ =>
    rw [hmode] at h hfound
    obtain ⟨agent, hagent⟩ := Option.ne_none_iff_exists'.mp hfound
    exact runLoop_failed hagent h

theorem iterate_of_misses (hmisses : StepMisses env wf s step) :
    ∃ missing, iterate env wf s step = s.agentNotFound missing := by
  unfold StepMisses at hmisses
  unfold iterate
  cases hmode : step.mode with
  | sequential =>
    rw [hmode] at hmisses
    refine ⟨step, ?_⟩
    dsimp only [runAgentStep]
    rw [show env.agentResolver step.agent = none from hmisses]
  | fanOut =>
    rw [hmode] at hmisses
    obtain ⟨missing, hmissing⟩ := fanOutCalls_error wf s hmisses
    refine ⟨missing, ?_⟩
    dsimp only [runFanOut]
    rw [hmissing]
  | collect =>
    rw [hmode] at hmisses
    cases hmisses
  | conditional condition =>
    rw [hmode] at hmisses
    refine ⟨step, ?_⟩
    dsimp only [runConditional, runAgentStep]
    rw [if_pos hmisses.1, hmisses.2]
  | loop maxIterations until_ =>
    rw [hmode] at hmisses
    refine ⟨step, ?_⟩
    dsimp only [runLoop]
    rw [show env.agentResolver step.agent = none from hmisses]

theorem goesOn_or_paused (lodged : Lodging) (h : s.run.state = .running) :
    GoesOn lodged s ∨ ∃ request, (s.lodge (lodged s.index)).run.pauseRequest = some request := by
  unfold GoesOn
  cases hreq : lodged s.index with
  | none =>
    cases hpause : s.run.pauseRequest with
    | none => exact .inl ⟨rfl, rfl⟩
    | some request => exact .inr ⟨request, hpause⟩
  | some request =>
    right
    simp only [Exec.lodge, pauseRun, h]
    cases hpause : s.run.pauseRequest with
    | none => exact ⟨request, rfl⟩
    | some existing => exact ⟨existing, hpause⟩

theorem lodge_of_goesOn (h : GoesOn lodged s) : s.lodge (lodged s.index) = s := by
  rw [h.2]
  rfl

theorem sequentialLoop_of_goesOn (h : GoesOn lodged s) (hstep : wf.steps[s.index]? = some step) :
    sequentialLoop env wf lodged s =
      match iterate env wf s step with
      | .next s' => sequentialLoop env wf lodged s'
      | .stop result s' => (result, s') := by
  rw [sequentialLoop_eq, hstep, lodge_of_goesOn h]
  dsimp only
  cases hpause : s.run.pauseRequest with
  | none => rfl
  | some request =>
    rw [h.1] at hpause
    cases hpause

theorem sequentialLoop_of_paused {request : PauseRequest}
    (h : (s.lodge (lodged s.index)).run.pauseRequest = some request)
    (hstep : wf.steps[s.index]? = some step) :
    sequentialLoop env wf lodged s = (s.lodge (lodged s.index)).pause request := by
  rw [sequentialLoop_eq, hstep]
  dsimp only
  rw [h]

theorem Misses.goesOn (h : Misses env wf lodged s) : GoesOn lodged s := by
  cases h with
  | here _ hgoes => exact hgoes
  | later _ hgoes => exact hgoes

theorem misses_iff (hstep : wf.steps[s.index]? = some step) (hgoes : GoesOn lodged s) :
    Misses env wf lodged s ↔ StepMisses env wf s step ∨
      ∃ s', iterate env wf s step = .next s' ∧ Misses env wf lodged s' := by
  constructor
  · intro h
    cases h with
    | here hstep' _ hmisses =>
      obtain rfl := Option.some.inj (hstep.symm.trans hstep')
      exact .inl hmisses
    | later hstep' _ hnext hmisses =>
      obtain rfl := Option.some.inj (hstep.symm.trans hstep')
      exact .inr ⟨_, hnext, hmisses⟩
  · rintro (hmisses | ⟨s', hnext, hmisses⟩)
    · exact .here hstep hgoes hmisses
    · exact .later hstep hgoes hnext hmisses

theorem settled_loop_iff (lodged : Lodging) (h : s.run.state = .running) :
    Settled (sequentialLoop env wf lodged s).1 (sequentialLoop env wf lodged s).2.run ↔
      ¬ Misses env wf lodged s := by
  induction s using passes_induction env wf with
  | pass s ih =>
    cases hstep : wf.steps[s.index]? with
    | none =>
      rw [sequentialLoop_eq, hstep]
      refine ⟨fun _ hmisses => ?_, fun _ => .inl rfl⟩
      cases hmisses with
      | here hstep' =>
        rw [hstep] at hstep'
        cases hstep'
      | later hstep' =>
        rw [hstep] at hstep'
        cases hstep'
    | some step =>
      obtain hgoes | ⟨request, hreq⟩ := goesOn_or_paused lodged h
      · rw [sequentialLoop_of_goesOn hgoes hstep, misses_iff hstep hgoes]
        by_cases hmisses : StepMisses env wf s step
        · obtain ⟨missing, hmissing⟩ := iterate_of_misses hmisses
          rw [hmissing]
          exact iff_of_false (not_settled_of_running h) fun hnot => hnot (.inl hmisses)
        · cases hflow : iterate env wf s step with
          | next s' =>
            have hrun : s'.run.state = .running := by
              rw [run_of_iterate hstep hflow]
              exact h
            dsimp only
            rw [ih step s' hstep hflow hrun, not_iff_not]
            constructor
            · exact fun hlater => .inr ⟨s', rfl, hlater⟩
            · rintro (hnow | ⟨s'', hnext, hlater⟩)
              · exact absurd hnow hmisses
              · rwa [← Flow.next.inj hnext] at hlater
          | stop result s' =>
            obtain ⟨e, rfl, hstate, herror⟩ := failed_of_not_misses hmisses hflow
            refine iff_of_true ⟨hstate, .inl herror⟩ ?_
            rintro (hnow | ⟨s'', hnext, -⟩)
            · exact hmisses hnow
            · cases hnext
      · rw [sequentialLoop_of_paused hreq hstep]
        refine iff_of_true (.inr rfl) fun hmisses => ?_
        rw [lodge_of_goesOn hmisses.goesOn, hmisses.goesOn.1] at hreq
        cases hreq

/-! ## The executor of workflows with dependencies -/

section Dag

variable {input : String} {d d' : DagExec} {e : String} {steps : List WorkflowStep}

/-- A layer asks for an agent that is not found: a single step whose dependencies have failed asks
for none, one of several steps is always asked for. -/
def LayerMisses (env : Env) (d : DagExec) (steps : List WorkflowStep) : Prop :=
  match steps with
  | [step] => d.depFailed step = false ∧ env.agentResolver step.agent = none
  | steps => ∃ step ∈ steps, env.agentResolver step.agent = none

/-- The executor comes to a layer that asks for an agent that is not found. -/
inductive LayersMiss (env : Env) (input : String) (lodged : Lodging) :
    ℕ → DagExec → List (List WorkflowStep) → Prop
  | here {k : ℕ} {d : DagExec} {steps : List WorkflowStep} {rest : List (List WorkflowStep)}
      (hmisses : LayerMisses env (d.lodge (lodged k)) steps) :
      LayersMiss env input lodged k d (steps :: rest)
  | later {k : ℕ} {d d' : DagExec} {steps : List WorkflowStep} {rest : List (List WorkflowStep)}
      (hnext : runLayer env input (d.lodge (lodged k)) steps = .ok d')
      (hmisses : LayersMiss env input lodged (k + 1) d' rest) :
      LayersMiss env input lodged k d (steps :: rest)

/-- The run is marked as failed with the error that is returned. -/
def DagFailed (e : String) (d : DagExec) : Prop := d.run.state = .failed ∧ d.run.error = some e

theorem dagFailed_of_fail {e' : String} (h : d.fail e = .error (e', d')) : DagFailed e' d' := by
  cases h
  exact ⟨rfl, rfl⟩

theorem layerResults_error
    {results : List (LayerCall × Except String (Option (String × ℕ × ℕ)))}
    (h : layerResults results d = .error (e, d')) : DagFailed e d' := by
  induction results generalizing d with
  | nil => cases h
  | cons r results ih =>
    obtain ⟨f, result⟩ := r
    rcases result with e' | ⟨_ | ⟨output, inputTokens, outputTokens⟩⟩
    · exact dagFailed_of_fail h
    · exact ih h
    · exact ih h

theorem layerResults_state
    {results : List (LayerCall × Except String (Option (String × ℕ × ℕ)))}
    (h : layerResults results d = .ok d') : d'.run.state = d.run.state := by
  induction results generalizing d with
  | nil =>
    cases h
    rfl
  | cons r results ih =>
    obtain ⟨f, result⟩ := r
    rcases result with e' | ⟨_ | ⟨output, inputTokens, outputTokens⟩⟩
    · cases h
    · rw [layerResults] at h
      exact (ih h).trans rfl
    · rw [layerResults] at h
      exact (ih h).trans rfl

theorem layerCalls_ok (input : String) (d : DagExec)
    (h : ∀ step ∈ steps, env.agentResolver step.agent ≠ none) :
    ∃ fs, layerCalls env input d steps = .ok fs := by
  induction steps with
  | nil => exact ⟨[], rfl⟩
  | cons step steps ih =>
    obtain ⟨agent, hagent⟩ := Option.ne_none_iff_exists'.mp (h step List.mem_cons_self)
    obtain ⟨fs, hfs⟩ := ih fun step hs => h step (List.mem_cons_of_mem _ hs)
    unfold layerCalls
    rw [hagent, hfs]
    exact ⟨_, rfl⟩

theorem layerCalls_error (input : String) (d : DagExec)
    (h : ∃ step ∈ steps, env.agentResolver step.agent = none) :
    ∃ missing, layerCalls env input d steps = .error missing := by
  induction steps with
  | nil =>
    obtain ⟨step, hs, -⟩ := h
    cases hs
  | cons step steps ih =>
    unfold layerCalls
    cases hagent : env.agentResolver step.agent with
    | none => exact ⟨step, rfl⟩
    | some agent =>
      obtain ⟨missing, hs, hnone⟩ := h
      rcases List.mem_cons.mp hs with rfl | hs
      · rw [hagent] at hnone
        cases hnone
      · obtain ⟨missing, hmissing⟩ := ih ⟨missing, hs, hnone⟩
        rw [hmissing]
        exact ⟨missing, rfl⟩

theorem runSingle_state (h : runSingle env input d step = .ok d') : d'.run.state = d.run.state := by
  unfold runSingle at h
  split at h
  · split at h
    · cases h
    · cases h
      rfl
  · split at h
    · cases h
    · dsimp only at h
      split at h
      · cases h
        rfl
      · cases h
        rfl
      · split at h
        · cases h
        · cases h
          rfl

theorem runSingle_failed (hfound : d.depFailed step = false → env.agentResolver step.agent ≠ none)
    (h : runSingle env input d step = .error (e, d')) : DagFailed e d' := by
  unfold runSingle at h
  split at h
  · split at h
    · exact dagFailed_of_fail h
    · cases h
  · next hdep =>
    split at h
    · next hnone => exact absurd hnone (hfound (Bool.not_eq_true _ ▸ hdep))
    · dsimp only at h
      split at h
      · cases h
      · cases h
      · split at h
        · exact dagFailed_of_fail h
        · cases h

theorem runTogether_state (h : runTogether env input d steps = .ok d') :
    d'.run.state = d.run.state := by
  unfold runTogether at h
  split at h
  · cases h
  · dsimp only at h
    exact (layerResults_state h).trans rfl

theorem runTogether_failed (hfound : ∀ step ∈ steps, env.agentResolver step.agent ≠ none)
    (h : runTogether env input d steps = .error (e, d')) : DagFailed e d' := by
  obtain ⟨fs, hfs⟩ := layerCalls_ok input d hfound
  unfold runTogether at h
  rw [hfs] at h
  exact layerResults_error h

theorem runLayer_state (h : runLayer env input d steps = .ok d') : d'.run.state = d.run.state := by
  unfold runLayer at h
  split at h
  · exact runSingle_state h
  · exact runTogether_state h

theorem runLayer_failed (hfound : ¬ LayerMisses env d steps)
    (h : runLayer env input d steps = .error (e, d')) : DagFailed e d' := by
  unfold runLayer at h
  unfold LayerMisses at hfound
  split at h
  · exact runSingle_failed (fun hdep hnone => hfound ⟨hdep, hnone⟩) h
  · next hmany =>
    refine runTogether_failed (fun step hs hnone => ?_) h
    split at hfound
    · exact hmany _ rfl
    · exact hfound ⟨step, hs, hnone⟩

theorem runTogether_of_misses (input : String)
    (hmisses : ∃ step ∈ steps, env.agentResolver step.agent = none) :
    ∃ missing, runTogether env input d steps = d.agentNotFound missing := by
  obtain ⟨missing, hmissing⟩ := layerCalls_error input d hmisses
  refine ⟨missing, ?_⟩
  unfold runTogether
  rw [hmissing]

theorem runLayer_of_misses (input : String) (hmisses : LayerMisses env d steps) :
    ∃ missing, runLayer env input d steps = d.agentNotFound missing := by
  rcases steps with _ | ⟨step, _ | ⟨step', rest⟩⟩
  · exact runTogether_of_misses input hmisses
  · refine ⟨step, ?_⟩
    have hsingle : runSingle env input d step = d.agentNotFound step := by
      unfold runSingle
      rw [hmisses.1, hmisses.2]
      rfl
    exact hsingle
  · exact runTogether_of_misses input hmisses

theorem dagLodge_state (h : d.run.state = .running) (request : Option PauseRequest) :
    (d.lodge request).run.state = .running := by
  cases request with
  | none => exact h
  | some request =>
    simp only [DagExec.lodge, Option.elim_some, pauseRun, h]
    split
    · exact h
    · rfl

theorem runLayers_cases (env : Env) (input : String) (lodged : Lodging) (k : ℕ) (layers : List (List WorkflowStep))
    (h : d.run.state = .running) :
    (∃ d', runLayers env input lodged k d layers = .ok d' ∧
        ¬ LayersMiss env input lodged k d layers) ∨
      (∃ e d', runLayers env input lodged k d layers = .error (e, d') ∧ DagFailed e d' ∧
        ¬ LayersMiss env input lodged k d layers) ∨
      ∃ e d', runLayers env input lodged k d layers = .error (e, d') ∧ d'.run.state = .running ∧
        LayersMiss env input lodged k d layers := by
  induction layers generalizing k d with
  | nil => exact .inl ⟨_, rfl, fun hmisses => nomatch hmisses⟩
  | cons steps rest ih =>
    have hrunning := dagLodge_state h (lodged k)
    unfold runLayers
    by_cases hmisses : LayerMisses env (d.lodge (lodged k)) steps
    · obtain ⟨missing, hmissing⟩ := runLayer_of_misses input hmisses
      rw [hmissing]
      exact .inr (.inr ⟨_, _, rfl, hrunning, .here hmisses⟩)
    cases hlayer : runLayer env input (d.lodge (lodged k)) steps with
    | error stopped =>
      obtain ⟨e, d'⟩ := stopped
      refine .inr (.inl ⟨e, d', rfl, runLayer_failed hmisses hlayer, fun hlater => ?_⟩)
      cases hlater with
      | here hmisses' => exact hmisses hmisses'
      | later hnext =>
        rw [hlayer] at hnext
        cases hnext
    | ok d' =>
      have hlater_iff : LayersMiss env input lodged k d (steps :: rest) ↔
          LayersMiss env input lodged (k + 1) d' rest := by
        constructor
        · intro hlater
          cases hlater with
          | here hmisses' => exact absurd hmisses' hmisses
          | later hnext hlater =>
            obtain rfl := Except.ok.inj (hlayer.symm.trans hnext)
            exact hlater
        · exact fun hlater => .later hlayer hlater
      simp only [hlater_iff]
      exact ih (k + 1) ((runLayer_state hlayer).trans hrunning)

end Dag

/-! ## A call of the engine -/

/-- The call sets the run to `Running`. -/
def SetsRunning (run : WorkflowRun) : EngineCall → Prop
  | .executeRun => True
  | .resumeRun resumeToken => ∃ reason, run.state = .paused resumeToken reason

/-- The sequential executor, started on the run, finds every agent that it asks for. -/
def SequentialHandled (env : Env) (wf : Workflow) (lodged : Lodging) (run : WorkflowRun)
    (input : String) (calls : List Call) : Prop :=
  ¬ Misses env wf lodged (startExec run input calls)

/-- The executor of workflows with dependencies refuses to start because of a pause, or it can sort
the steps and finds every agent that it asks for. -/
def DagHandled (env : Env) (order : List ℕ) (wf : Workflow) (lodged : Lodging) (run : WorkflowRun)
    (input : String) (calls : List Call) : Prop :=
  (run.lodge (lodged 0)).pauseRequest ≠ none ∨
    ∃ layers, topologicalSort order wf.steps = .ok layers ∧
      ¬ LayersMiss env input lodged 1 (dagStart (run.lodge (lodged 0)) input calls)
        (layers.map fun layer => layer.filterMap (wf.steps[·]?))

/-- The call takes none of the exits with `?`: the definition is found, a workflow that is resumed
has no dependencies, and its executor takes none of them. -/
def Handled (env : Env) (order : List ℕ) (definition : Option Workflow) (lodged : Lodging)
    (run : WorkflowRun) (calls : List Call) (call : EngineCall) : Prop :=
  ∃ wf, definition = some wf ∧
    match call with
    | .executeRun =>
      if wf.hasDagDeps then
        DagHandled env order wf lodged { run with state := .running } run.input calls
      else SequentialHandled env wf lodged { run with state := .running } run.input calls
    | .resumeRun _ => wf.hasDagDeps = false ∧ SequentialHandled env wf lodged run.resumed "" calls

section Calls

variable {run : WorkflowRun} {input : String} {calls : List Call} {order : List ℕ}

theorem settled_sequential_iff (h : run.state = .running) :
    Settled (executeRunSequential env wf lodged run input calls).result
        (executeRunSequential env wf lodged run input calls).run ↔
      SequentialHandled env wf lodged run input calls :=
  settled_loop_iff lodged (by rwa [startExec_run])

theorem runLodge_state (h : run.state = .running) (request : Option PauseRequest) :
    (run.lodge request).state = .running := by
  cases request with
  | none => exact h
  | some request =>
    simp only [WorkflowRun.lodge, Option.elim_some, pauseRun, h]
    split
    · exact h
    · rfl

theorem settled_dag_iff (h : run.state = .running) :
    Settled (executeRunDag env order lodged wf run input calls).result
        (executeRunDag env order lodged wf run input calls).run ↔
      DagHandled env order wf lodged run input calls := by
  have hrunning := runLodge_state h (lodged 0)
  unfold executeRunDag DagHandled
  dsimp only
  cases hpause : (run.lodge (lodged 0)).pauseRequest with
  | some request =>
    exact iff_of_true ⟨rfl, .inr ⟨request.reason, rfl, rfl⟩⟩ (.inl nofun)
  | none =>
    simp only [ne_eq, not_true_eq_false, false_or]
    cases hsort : topologicalSort order wf.steps with
    | error e =>
      refine iff_of_false (not_settled_of_running hrunning) ?_
      rintro ⟨layers, hlayers, -⟩
      cases hlayers
    | ok layers =>
      have hcases := runLayers_cases env input lodged 1
        (layers.map fun layer => layer.filterMap (wf.steps[·]?))
        (d := dagStart (run.lodge (lodged 0)) input calls) hrunning
      dsimp only
      obtain ⟨d', hrun, hnot⟩ | ⟨e, d', hrun, hfailed, hnot⟩ | ⟨e, d', hrun, hstate, hmisses⟩ :=
        hcases
      · rw [hrun]
        exact iff_of_true (.inl rfl) ⟨layers, rfl, hnot⟩
      · rw [hrun]
        exact iff_of_true ⟨hfailed.1, .inl hfailed.2⟩ ⟨layers, rfl, hnot⟩
      · rw [hrun]
        refine iff_of_false (not_settled_of_running hstate) ?_
        rintro ⟨layers', hlayers, hnot⟩
        obtain rfl := Except.ok.inj hlayers
        exact hnot hmisses

/-- **The stored state agrees with the result exactly when the call takes none of the exits with
`?`.** -/
theorem settled_iff_handled (env : Env) (order : List ℕ) (definition : Option Workflow)
    (lodged : Lodging) (run : WorkflowRun) (calls : List Call) (call : EngineCall)
    (hset : SetsRunning run call) :
    Settled (callEngine env order definition lodged run calls call).result
        (callEngine env order definition lodged run calls call).run ↔
      Handled env order definition lodged run calls call := by
  unfold Handled
  cases call with
  | executeRun =>
    unfold callEngine executeRun
    cases definition with
    | none => exact iff_of_false (not_settled_of_running rfl) (by simp)
    | some wf =>
      simp only [Option.some.injEq, exists_eq_left']
      split
      · exact settled_cleanup.trans (settled_dag_iff rfl)
      · exact settled_cleanup.trans (settled_sequential_iff rfl)
  | resumeRun resumeToken =>
    obtain ⟨reason, hpaused⟩ := hset
    unfold callEngine resumeRun
    rw [hpaused]
    dsimp only
    rw [if_neg fun hne => hne rfl]
    cases definition with
    | none => exact iff_of_false (not_settled_of_running rfl) (by simp)
    | some wf =>
      simp only [Option.some.injEq, exists_eq_left']
      cases hdag : wf.hasDagDeps with
      | true =>
        rw [if_pos rfl]
        refine iff_of_false (not_settled_of_running rfl) ?_
        rintro ⟨hfalse, -⟩
        cases hfalse
      | false =>
        rw [if_neg Bool.false_ne_true]
        simp only [true_and]
        exact settled_cleanup.trans (settled_sequential_iff rfl)

end Calls

/-- A run of the sample workflow that has paused after its first step. -/
def samplePaused : WorkflowRun :=
  { createRun (sampleWorkflow .sequential .sequential) "run-1" "go" with
    state := .paused "token-1" "approval"
    pausedStepIndex := some 1
    pausedCurrentInput := some "answer 0" }

theorem settled_samplePaused :
    Settled (callEngine sampleEnv [] (some (sampleWorkflow .sequential .sequential)) undisturbed
        samplePaused [⟨"a-1", "Go on: go"⟩] (.resumeRun "token-1")).result
      (callEngine sampleEnv [] (some (sampleWorkflow .sequential .sequential)) undisturbed
        samplePaused [⟨"a-1", "Go on: go"⟩] (.resumeRun "token-1")).run ↔
    Handled sampleEnv [] (some (sampleWorkflow .sequential .sequential)) undisturbed samplePaused
      [⟨"a-1", "Go on: go"⟩] (.resumeRun "token-1") :=
  settled_iff_handled sampleEnv [] _ undisturbed samplePaused _ _ ⟨"approval", rfl⟩

/-- No agent is found. -/
def emptyEnv : Env := { sampleEnv with agentResolver := fun _ => none }

/-- A workflow whose agent is not found: the call returns an error, and the run is still running. -/
theorem unknownAgent_not_settled :
    ¬ Settled (callEngine emptyEnv [] (some (sampleWorkflow .sequential .sequential)) undisturbed
        (createRun (sampleWorkflow .sequential .sequential) "run-1" "go") [] .executeRun).result
      (callEngine emptyEnv [] (some (sampleWorkflow .sequential .sequential)) undisturbed
        (createRun (sampleWorkflow .sequential .sequential) "run-1" "go") [] .executeRun).run := by
  intro hsettled
  have hloop : Settled
      (sequentialLoop emptyEnv (sampleWorkflow .sequential .sequential) undisturbed
        (sampleStart .sequential .sequential)).1
      (sequentialLoop emptyEnv (sampleWorkflow .sequential .sequential) undisturbed
        (sampleStart .sequential .sequential)).2.run := settled_cleanup.mp hsettled
  exact (settled_loop_iff undisturbed rfl).mp hloop (.here rfl ⟨rfl, rfl⟩ rfl)

end LibreFang.Engine
