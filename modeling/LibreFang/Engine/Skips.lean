import LibreFang.Engine.Settled

/-!
# Steps that may be skipped

* `Reply.fails`: a failure, or a message that took too long.
* `Reaches`: the loop comes to a pass at which something holds; `LayersReach`: to such a layer.
* `FailsOtherwise`, `LayerFails`: a step fails whose error mode is not `Skip`.
* **`spared_iff`**: of the calls in which no other step fails, those that return a result and do not
  fail the run are the ones that come to no such fan-out.
-/

namespace LibreFang.Engine

variable (env : Env) (wf : Workflow)

/-- The agent does not answer, or not in time. -/
def Reply.fails : Reply → Bool
  | .completed .. => false
  | .failed _ => true
  | .timedOut => true

/-! ## Passes that are reached -/

/-- The loop comes to a pass at which the predicate holds. -/
inductive Reaches (lodged : Lodging) (P : Exec → WorkflowStep → Prop) : Exec → Prop
  | here {s : Exec} {step : WorkflowStep} (hstep : wf.steps[s.index]? = some step)
      (hgoes : GoesOn lodged s) (hholds : P s step) : Reaches lodged P s
  | later {s s' : Exec} {step : WorkflowStep} (hstep : wf.steps[s.index]? = some step)
      (hgoes : GoesOn lodged s) (hnext : iterate env wf s step = .next s')
      (hreaches : Reaches lodged P s') : Reaches lodged P s

variable {env wf} {s s' : Exec} {step : WorkflowStep} {lodged : Lodging}
  {P : Exec → WorkflowStep → Prop}

theorem Reaches.goesOn (h : Reaches env wf lodged P s) : GoesOn lodged s := by
  cases h with
  | here _ hgoes => exact hgoes
  | later _ hgoes => exact hgoes

theorem reaches_iff (hstep : wf.steps[s.index]? = some step) (hgoes : GoesOn lodged s) :
    Reaches env wf lodged P s ↔ P s step ∨
      ∃ s', iterate env wf s step = .next s' ∧ Reaches env wf lodged P s' := by
  constructor
  · intro h
    cases h with
    | here hstep' _ hholds =>
      obtain rfl := Option.some.inj (hstep.symm.trans hstep')
      exact .inl hholds
    | later hstep' _ hnext hreaches =>
      obtain rfl := Option.some.inj (hstep.symm.trans hstep')
      exact .inr ⟨_, hnext, hreaches⟩
  · rintro (hholds | ⟨s', hnext, hreaches⟩)
    · exact .here hstep hgoes hholds
    · exact .later hstep hgoes hnext hreaches

theorem not_reaches_of_end (h : wf.steps[s.index]? = none) : ¬ Reaches env wf lodged P s := by
  intro hreaches
  cases hreaches with
  | here hstep =>
    rw [h] at hstep
    cases hstep
  | later hstep =>
    rw [h] at hstep
    cases hstep

/-! ## Steps that fail -/

variable (env wf)

/-- The reply to a step of the fan-out is a failure, and the step has an error mode of this kind. -/
def FanOutFails (kind : ErrorMode → Prop) (s : Exec) : Prop :=
  ∃ i f, (fanOutSteps wf s)[i]? = some f ∧ kind f.errorMode ∧
    (env.reply (s.calls.length + i)).fails = true

/-- A step fails whose error mode is not `Skip`: one of a fan-out, or the step of the pass. -/
def FailsOtherwise (s : Exec) (step : WorkflowStep) : Prop :=
  if step.mode = .fanOut then FanOutFails env wf (· ≠ .skip) s
  else step.errorMode ≠ .skip ∧ ∃ e s', iterate env wf s step = .stop (.error e) s'

/-- A step of a fan-out fails whose error mode is `Skip`. -/
def SkipFails (s : Exec) (step : WorkflowStep) : Prop :=
  step.mode = .fanOut ∧ FanOutFails env wf (· = .skip) s

variable {env wf}

theorem execute_skip (h : step.errorMode = .skip) (agentId prompt : String) (calls : List Call) :
    ∃ answer, (executeStepWithErrorMode env step agentId prompt calls).1 = .ok answer := by
  unfold executeStepWithErrorMode
  rw [h]
  dsimp only
  rcases attempt env step agentId prompt calls with ⟨_ | answer, calls'⟩
  · exact ⟨none, rfl⟩
  · exact ⟨some answer, rfl⟩

theorem ask_skip (h : step.errorMode = .skip) (stepName : String) (agent : String × String × Bool) :
    ∃ answer, (s.ask env wf step stepName agent).1 = .ok answer := by
  obtain ⟨answer, hanswer⟩ := @execute_skip env step h agent.1 (s.prompt env wf step agent.2.2)
    s.calls
  unfold Exec.ask
  dsimp only
  generalize executeStepWithErrorMode env step agent.1 (s.prompt env wf step agent.2.2) s.calls =
    executed at hanswer ⊢
  obtain ⟨result, calls⟩ := executed
  obtain rfl : result = .ok answer := hanswer
  rcases answer with _ | ⟨output, inputTokens, outputTokens⟩
  · exact ⟨_, rfl⟩
  · exact ⟨_, rfl⟩

/-- The loop goes on after the pass. -/
def Flow.GoesOn (flow : Flow) : Prop := ∃ s, flow = .next s

variable {result : Except String String}

theorem not_goesOn_stop {t : Exec} : ¬ (Flow.stop result t).GoesOn := by
  rintro ⟨_, h⟩
  cases h

theorem runAgentStep_skip (hskip : step.errorMode = .skip)
    (hfound : env.agentResolver step.agent ≠ none) : (runAgentStep env wf s step).GoesOn := by
  obtain ⟨agent, hagent⟩ := Option.ne_none_iff_exists'.mp hfound
  obtain ⟨answer, hanswer⟩ := @ask_skip env wf s step hskip step.name agent
  unfold runAgentStep
  rw [hagent]
  dsimp only
  generalize s.ask env wf step step.name agent = asked at hanswer ⊢
  obtain ⟨result, calls⟩ := asked
  obtain rfl : result = .ok answer := hanswer
  rcases answer with _ | r
  · exact ⟨_, rfl⟩
  · exact ⟨_, rfl⟩

theorem loopIterations_skip (hskip : step.errorMode = .skip) (agent : String × String × Bool)
    (untilLower : String) (left iter : ℕ) (s : Exec) :
    (loopIterations env wf step agent untilLower left iter s).GoesOn := by
  induction left generalizing iter s with
  | zero => exact ⟨_, rfl⟩
  | succ left ih =>
    obtain ⟨answer, hanswer⟩ := @ask_skip env wf s step hskip
      (step.name ++ " (iter " ++ toString (iter + 1) ++ ")") agent
    unfold loopIterations
    generalize s.ask env wf step (step.name ++ " (iter " ++ toString (iter + 1) ++ ")") agent =
      asked at hanswer ⊢
    obtain ⟨result, calls⟩ := asked
    obtain rfl : result = .ok answer := hanswer
    rcases answer with _ | r
    · exact ⟨_, rfl⟩
    · dsimp only
      split_ifs
      · exact ⟨_, rfl⟩
      · exact ih _ _

theorem iterate_skip (hmode : step.mode ≠ .fanOut) (hskip : step.errorMode = .skip)
    (hfound : ¬ StepMisses env wf s step) : (iterate env wf s step).GoesOn := by
  unfold StepMisses at hfound
  unfold iterate
  cases h : step.mode with
  | sequential =>
    rw [h] at hfound
    exact runAgentStep_skip hskip hfound
  | fanOut => exact absurd h hmode
  | collect => exact ⟨_, rfl⟩
  | conditional condition =>
    rw [h] at hfound
    dsimp only [runConditional]
    split_ifs with hmet
    · exact runAgentStep_skip hskip fun hnone => hfound ⟨hmet, hnone⟩
    · exact ⟨_, rfl⟩
  | loop maxIterations until_ =>
    rw [h] at hfound
    obtain ⟨agent, hagent⟩ := Option.ne_none_iff_exists'.mp hfound
    obtain ⟨t, ht⟩ := @loopIterations_skip env wf step hskip agent (env.toLowercase until_)
      maxIterations 0 s
    dsimp only [runLoop]
    rw [hagent]
    dsimp only
    rw [ht]
    exact ⟨_, rfl⟩

/-! ### Fan-out -/

theorem length_fanOutCalls {fs : List FanOutCall} {steps : List WorkflowStep}
    (h : fanOutCalls env wf s steps = .ok fs) : fs.length = steps.length := by
  induction steps generalizing fs with
  | nil =>
    cases h
    rfl
  | cons f steps ih =>
    unfold fanOutCalls at h
    split at h
    · cases h
    · split at h
      · cases h
        exact congrArg (· + 1) (ih ‹_›)
      · cases h

theorem fanOutReplies_goesOn (fs : List FanOutCall) (calls : List Call) (s : Exec) :
    (fanOutReplies (joinAll env fs calls).1 s).GoesOn ↔
      ∀ i < fs.length, (env.reply (calls.length + i)).fails = false := by
  induction fs generalizing calls s with
  | nil =>
    have hnext : (fanOutReplies [] s).GoesOn := ⟨s, rfl⟩
    exact iff_of_true hnext fun i hi => absurd hi (Nat.not_lt_zero i)
  | cons f fs ih =>
    have hlater : (∀ i < (f :: fs).length, (env.reply (calls.length + i)).fails = false) ↔
        (env.reply calls.length).fails = false ∧
          ∀ i < fs.length,
            (env.reply ((calls ++ [(⟨f.agentId, f.prompt⟩ : Call)]).length + i)).fails = false := by
      rw [List.length_append, List.length_singleton, List.length_cons]
      constructor
      · intro h
        exact ⟨h 0 (Nat.succ_pos _), fun i hi => by
          rw [Nat.add_right_comm, Nat.add_assoc]
          exact h (i + 1) (Nat.succ_lt_succ hi)⟩
      · rintro ⟨hfirst, hrest⟩ (_ | i) hi
        · exact hfirst
        · rw [← Nat.add_assoc, Nat.add_right_comm]
          exact hrest i (Nat.lt_of_succ_lt_succ hi)
    rw [hlater, joinAll]
    dsimp only [Env.sendMessage]
    cases hreply : env.reply calls.length with
    | completed output inputTokens outputTokens =>
      rw [fanOutReplies, ih]
      exact (and_iff_right rfl).symm
    | failed e => exact iff_of_false not_goesOn_stop fun h => Bool.false_ne_true h.1.symm
    | timedOut => exact iff_of_false not_goesOn_stop fun h => Bool.false_ne_true h.1.symm

theorem runFanOut_goesOn (hfound : ∀ f ∈ fanOutSteps wf s, env.agentResolver f.agent ≠ none) :
    (runFanOut env wf s).GoesOn ↔ ¬ FanOutFails env wf (fun _ => True) s := by
  obtain ⟨fs, hfs⟩ := fanOutCalls_ok wf s hfound
  have hreplies := @fanOutReplies_goesOn env fs s.calls
    { s with calls := (joinAll env fs s.calls).2 }
  have hflow : (runFanOut env wf s).GoesOn ↔
      (fanOutReplies (joinAll env fs s.calls).1
        { s with calls := (joinAll env fs s.calls).2 }).GoesOn := by
    unfold runFanOut
    rw [hfs]
    dsimp only
    cases fanOutReplies (joinAll env fs s.calls).1
        { s with calls := (joinAll env fs s.calls).2 } with
    | next t => exact iff_of_true ⟨_, rfl⟩ ⟨_, rfl⟩
    | stop result t => exact iff_of_false not_goesOn_stop not_goesOn_stop
  rw [hflow, hreplies, length_fanOutCalls hfs]
  unfold FanOutFails
  constructor
  · rintro hall ⟨i, f, hf, -, hfails⟩
    rw [hall i (List.getElem?_eq_some_iff.mp hf).1] at hfails
    cases hfails
  · intro hnone i hi
    by_contra hfails
    exact hnone ⟨i, _, List.getElem?_eq_getElem hi, trivial, Bool.not_eq_false _ ▸ hfails⟩

/-- **A pass whose agents are found, and in which no other step fails, stops exactly if a step of a
fan-out fails that may be skipped.** -/
theorem iterate_goesOn (hfound : ¬ StepMisses env wf s step)
    (hothers : ¬ FailsOtherwise env wf s step) :
    (iterate env wf s step).GoesOn ↔ ¬ SkipFails env wf s step := by
  unfold FailsOtherwise at hothers
  by_cases hmode : step.mode = .fanOut
  · rw [if_pos hmode] at hothers
    have hflow : iterate env wf s step = runFanOut env wf s := by
      unfold iterate
      rw [hmode]
    have hagents : ∀ f ∈ fanOutSteps wf s, env.agentResolver f.agent ≠ none := by
      intro f hf hnone
      unfold StepMisses at hfound
      rw [hmode] at hfound
      exact hfound ⟨f, hf, hnone⟩
    rw [hflow, runFanOut_goesOn hagents, not_iff_not]
    constructor
    · rintro ⟨i, f, hf, -, hfails⟩
      refine ⟨hmode, i, f, hf, ?_, hfails⟩
      by_contra hskip
      exact hothers ⟨i, f, hf, hskip, hfails⟩
    · rintro ⟨-, i, f, hf, -, hfails⟩
      exact ⟨i, f, hf, trivial, hfails⟩
  · rw [if_neg hmode] at hothers
    refine iff_of_true ?_ fun hskips => hmode hskips.1
    by_cases hskip : step.errorMode = .skip
    · exact iterate_skip hmode hskip hfound
    · cases hflow : iterate env wf s step with
      | next t => exact ⟨t, rfl⟩
      | stop result t =>
        obtain ⟨e, rfl, -⟩ := failed_of_not_misses hfound hflow
        exact absurd ⟨hskip, e, t, hflow⟩ hothers

theorem loop_ok_iff (h : s.run.state = .running) (hfound : ¬ Misses env wf lodged s)
    (hothers : ¬ Reaches env wf lodged (FailsOtherwise env wf) s) :
    (∃ output, (sequentialLoop env wf lodged s).1 = .ok output) ↔
      ¬ Reaches env wf lodged (SkipFails env wf) s := by
  induction s using passes_induction env wf with
  | pass s ih =>
    cases hstep : wf.steps[s.index]? with
    | none =>
      rw [sequentialLoop_eq, hstep]
      exact iff_of_true ⟨_, rfl⟩ (not_reaches_of_end hstep)
    | some step =>
      obtain hgoes | ⟨request, hreq⟩ := goesOn_or_paused lodged h
      · rw [misses_iff hstep hgoes, not_or] at hfound
        rw [reaches_iff hstep hgoes, not_or] at hothers
        have hpass := iterate_goesOn hfound.1 hothers.1
        rw [sequentialLoop_of_goesOn hgoes hstep, reaches_iff hstep hgoes, not_or]
        cases hflow : iterate env wf s step with
        | next s' =>
          rw [hflow] at hpass
          have hrun : s'.run.state = .running := by
            rw [run_of_iterate hstep hflow]
            exact h
          dsimp only
          rw [ih step s' hstep hflow hrun (fun hlater => hfound.2 ⟨s', hflow, hlater⟩)
            fun hlater => hothers.2 ⟨s', hflow, hlater⟩, not_iff_not.mpr]
          · exact ⟨fun hnot => ⟨hpass.mp ⟨s', rfl⟩, fun ⟨t, ht, hlater⟩ =>
              hnot (by rwa [Flow.next.inj ht])⟩, fun hnot hlater => hnot.2 ⟨s', rfl, hlater⟩⟩
          · exact Iff.rfl
        | stop result s' =>
          rw [hflow] at hpass
          obtain ⟨e, rfl, -⟩ := failed_of_not_misses hfound.1 hflow
          refine iff_of_false (fun ⟨_, hok⟩ => nomatch hok) fun hnot => ?_
          obtain ⟨t, ht⟩ := hpass.mpr hnot.1
          cases ht
      · rw [sequentialLoop_of_paused hreq hstep]
        refine iff_of_true ⟨_, rfl⟩ fun hreaches => ?_
        rw [lodge_of_goesOn hreaches.goesOn, hreaches.goesOn.1] at hreq
        cases hreq

/-! ## Workflows with dependencies -/

section Dag

variable {input : String} {d d' : DagExec} {e : String} {steps : List WorkflowStep}

/-- A step of the layer fails the run: its error mode is `Fail`, and a dependency has failed or the
reply to it is a failure. -/
def LayerFails (env : Env) (d : DagExec) (steps : List WorkflowStep) : Prop :=
  ∃ front step rest, steps = front ++ step :: rest ∧ step.errorMode = .fail ∧
    (d.depFailed step = true ∨
      (env.reply (d.calls.length + (front.filter fun f => !d.depFailed f).length)).fails = true)

/-- The executor comes to such a layer. -/
inductive LayersFail (env : Env) (input : String) (lodged : Lodging) :
    ℕ → DagExec → List (List WorkflowStep) → Prop
  | here {k : ℕ} {d : DagExec} {steps : List WorkflowStep} {rest : List (List WorkflowStep)}
      (hfails : LayerFails env (d.lodge (lodged k)) steps) :
      LayersFail env input lodged k d (steps :: rest)
  | later {k : ℕ} {d d' : DagExec} {steps : List WorkflowStep} {rest : List (List WorkflowStep)}
      (hnext : runLayer env input (d.lodge (lodged k)) steps = .ok d')
      (hfails : LayersFail env input lodged (k + 1) d' rest) :
      LayersFail env input lodged k d (steps :: rest)

theorem execute_fail {agentId prompt : String} {calls calls' : List Call}
    (h : step.errorMode = .fail)
    (hexecute : executeStepWithErrorMode env step agentId prompt calls = (.error e, calls')) :
    (env.reply calls.length).fails = true := by
  unfold executeStepWithErrorMode at hexecute
  rw [h] at hexecute
  dsimp only [Env.sendMessage] at hexecute
  cases hreply : env.reply calls.length with
  | completed output inputTokens outputTokens =>
    rw [hreply] at hexecute
    cases hexecute
  | failed e => rfl
  | timedOut => rfl

theorem runSingle_ok (hfound : d.depFailed step = false → env.agentResolver step.agent ≠ none)
    (hfails : ¬ LayerFails env d [step]) : ∃ d', runSingle env input d step = .ok d' := by
  have hnot : step.errorMode = .fail →
      ¬ (d.depFailed step = true ∨ (env.reply d.calls.length).fails = true) :=
    fun hmode hor => hfails ⟨[], step, [], rfl, hmode, hor⟩
  unfold runSingle
  cases hdep : d.depFailed step with
  | true =>
    rw [if_pos rfl, if_neg fun hmode => hnot hmode (.inl hdep)]
    exact ⟨_, rfl⟩
  | false =>
    obtain ⟨agent, hagent⟩ := Option.ne_none_iff_exists'.mp (hfound hdep)
    rw [if_neg Bool.false_ne_true, hagent]
    dsimp only
    split
    · exact ⟨_, rfl⟩
    · exact ⟨_, rfl⟩
    · rename_i hexecute
      rw [if_neg fun hmode => hnot hmode (.inr (execute_fail hmode hexecute))]
      exact ⟨_, rfl⟩

theorem joinLayer_error {fs : List LayerCall} {f : LayerCall} {calls : List Call}
    (h : layerCalls env input d steps = .ok fs) (hf : (f, .error e) ∈ (joinLayer env fs calls).1) :
    ∃ front step rest, steps = front ++ step :: rest ∧ step.errorMode = .fail ∧
      (d.depFailed step = true ∨ (env.reply
        (calls.length + (front.filter fun f => !d.depFailed f).length)).fails = true) := by
  induction steps generalizing fs calls with
  | nil =>
    cases h
    cases hf
  | cons step steps ih =>
    unfold layerCalls at h
    split at h
    · cases h
    · rename_i agent _
      split at h
      · rename_i gs hgs
        cases h
        rw [joinLayer] at hf
        dsimp only at hf
        split_ifs at hf with hdep hmode
        · exact ⟨[], step, steps, rfl, hmode, .inl hdep⟩
        · obtain ⟨front, step', rest, rfl, hmode', hor⟩ := ih hgs
            ((List.mem_cons.mp hf).resolve_left fun h => by
              have hresult := congrArg Prod.snd h
              cases hresult)
          refine ⟨step :: front, step', rest, rfl, hmode', ?_⟩
          rwa [List.filter_cons_of_neg (by rw [hdep]; exact Bool.false_ne_true)]
        · rcases List.mem_cons.mp hf with hfirst | hf
          · have hresult := (congrArg Prod.snd hfirst).symm
            unfold LayerCall.result at hresult
            dsimp only [Env.sendMessage] at hresult
            split at hresult
            · cases hresult
            · split_ifs at hresult with hmode
              exact ⟨[], step, steps, rfl, hmode, .inr (by
                rw [List.filter_nil, List.length_nil, Nat.add_zero, ‹env.reply _ = _›]
                rfl)⟩
            · split_ifs at hresult with hmode
              exact ⟨[], step, steps, rfl, hmode, .inr (by
                rw [List.filter_nil, List.length_nil, Nat.add_zero, ‹env.reply _ = _›]
                rfl)⟩
          · obtain ⟨front, step', rest, rfl, hmode', hor⟩ := ih hgs hf
            refine ⟨step :: front, step', rest, rfl, hmode', ?_⟩
            dsimp only [Env.sendMessage] at hor
            rw [List.length_append, List.length_singleton, Nat.add_assoc, Nat.add_comm 1] at hor
            have hasked : d.depFailed step = false := Bool.eq_false_iff.mpr hdep
            rwa [List.filter_cons_of_pos (by rw [hasked]; rfl), List.length_cons]
      · cases h

theorem layerResults_ok
    {results : List (LayerCall × Except String (Option (String × ℕ × ℕ)))}
    (h : ∀ f e, (f, .error e) ∉ results) (d : DagExec) : ∃ d', layerResults results d = .ok d' := by
  induction results generalizing d with
  | nil => exact ⟨d, rfl⟩
  | cons r results ih =>
    have hrest : ∀ f e, (f, .error e) ∉ results :=
      fun f e hf => h f e (List.mem_cons_of_mem _ hf)
    obtain ⟨f, e | _ | ⟨output, inputTokens, outputTokens⟩⟩ := r
    · exact absurd List.mem_cons_self (h f e)
    · exact ih hrest _
    · exact ih hrest _

theorem runLayer_ok (input : String) (hfound : ¬ LayerMisses env d steps)
    (hfails : ¬ LayerFails env d steps) : ∃ d', runLayer env input d steps = .ok d' := by
  have htogether (hagents : ∀ step ∈ steps, env.agentResolver step.agent ≠ none) :
      ∃ d', runTogether env input d steps = .ok d' := by
    obtain ⟨fs, hfs⟩ := layerCalls_ok input d hagents
    unfold runTogether
    rw [hfs]
    exact layerResults_ok (fun f e hf => hfails (joinLayer_error hfs hf)) _
  unfold LayerMisses at hfound
  rcases steps with _ | ⟨step, _ | ⟨step', rest⟩⟩
  · exact htogether nofun
  · exact runSingle_ok (fun hdep hnone => hfound ⟨hdep, hnone⟩) hfails
  · exact htogether fun f hf hnone => hfound ⟨f, hf, hnone⟩

theorem runLayers_ok (input : String) (lodged : Lodging) (k : ℕ) (layers : List (List WorkflowStep))
    (d : DagExec) (hfound : ¬ LayersMiss env input lodged k d layers)
    (hfails : ¬ LayersFail env input lodged k d layers) :
    ∃ d', runLayers env input lodged k d layers = .ok d' := by
  induction layers generalizing k d with
  | nil => exact ⟨_, rfl⟩
  | cons steps rest ih =>
    obtain ⟨d', hnext⟩ := runLayer_ok input (fun h => hfound (.here h)) fun h => hfails (.here h)
    unfold runLayers
    rw [hnext]
    exact ih (k + 1) d' (fun h => hfound (.later hnext h)) fun h => hfails (.later hnext h)

end Dag

/-! ## A call of the engine -/

/-- The call returns a result, and the run has not failed. -/
def Spared (result : Except String String) (run : WorkflowRun) : Prop :=
  (∃ output, result = .ok output) ∧ run.state ≠ .failed

/-- The layers as `execute_run_dag` comes to them. -/
def layersOf (wf : Workflow) (layers : List (List ℕ)) : List (List WorkflowStep) :=
  layers.map fun layer => layer.filterMap (wf.steps[·]?)

/-- Something other than a step that may be skipped fails: another step, or a workflow with
dependencies is asked to pause. -/
def OthersFail (env : Env) (order : List ℕ) (wf : Workflow) (lodged : Lodging) (run : WorkflowRun)
    (calls : List Call) : EngineCall → Prop
  | .executeRun =>
    let run := { run with state := .running }
    if wf.hasDagDeps then
      (run.lodge (lodged 0)).pauseRequest ≠ none ∨
        ∃ layers, topologicalSort order wf.steps = .ok layers ∧
          LayersFail env run.input lodged 1 (dagStart (run.lodge (lodged 0)) run.input calls)
            (layersOf wf layers)
    else Reaches env wf lodged (FailsOtherwise env wf) (startExec run run.input calls)
  | .resumeRun _ => Reaches env wf lodged (FailsOtherwise env wf) (startExec run.resumed "" calls)

/-- The sequential executor comes to a fan-out in which a step fails that may be skipped. -/
def SkipsFail (env : Env) (wf : Workflow) (lodged : Lodging) (run : WorkflowRun)
    (calls : List Call) : EngineCall → Prop
  | .executeRun =>
    wf.hasDagDeps = false ∧ Reaches env wf lodged (SkipFails env wf)
      (startExec { run with state := .running } run.input calls)
  | .resumeRun _ => Reaches env wf lodged (SkipFails env wf) (startExec run.resumed "" calls)

section Calls

variable {run : WorkflowRun} {input : String} {calls : List Call} {order : List ℕ}

theorem spared_iff_of_settled (h : Settled result run) :
    Spared result run ↔ ∃ output, result = .ok output := by
  refine ⟨And.left, fun hok => ⟨hok, fun hfailed => ?_⟩⟩
  obtain ⟨output, rfl⟩ := hok
  rcases h with hs | hs
  · rw [hs] at hfailed
    cases hfailed
  · rw [hfailed] at hs
    cases hs

theorem spared_cleanup : Spared result run.cleanupTerminalPauseState ↔ Spared result run := by
  have hstate : run.cleanupTerminalPauseState.state = run.state := by
    unfold WorkflowRun.cleanupTerminalPauseState
    split <;> rfl
  unfold Spared
  rw [hstate]

theorem spared_sequential_iff (h : run.state = .running)
    (hhandled : SequentialHandled env wf lodged run input calls)
    (hothers : ¬ Reaches env wf lodged (FailsOtherwise env wf) (startExec run input calls)) :
    Spared (executeRunSequential env wf lodged run input calls).result
        (executeRunSequential env wf lodged run input calls).run ↔
      ¬ Reaches env wf lodged (SkipFails env wf) (startExec run input calls) :=
  (spared_iff_of_settled ((settled_sequential_iff h).mpr hhandled)).trans
    (loop_ok_iff (by rwa [startExec_run]) hhandled hothers)

theorem spared_dag (hpause : (run.lodge (lodged 0)).pauseRequest = none) {layers : List (List ℕ)}
    (hsort : topologicalSort order wf.steps = .ok layers)
    (hfound : ¬ LayersMiss env input lodged 1 (dagStart (run.lodge (lodged 0)) input calls)
      (layersOf wf layers))
    (hothers : ¬ LayersFail env input lodged 1 (dagStart (run.lodge (lodged 0)) input calls)
      (layersOf wf layers)) :
    Spared (executeRunDag env order lodged wf run input calls).result
      (executeRunDag env order lodged wf run input calls).run := by
  obtain ⟨d', hrun⟩ := runLayers_ok input lodged 1 _ _ hfound hothers
  unfold layersOf at hrun
  unfold executeRunDag
  dsimp only
  rw [hpause, hsort]
  dsimp only
  rw [hrun]
  exact ⟨⟨_, rfl⟩, nofun⟩

/-- **Steps that may be skipped do not fail the run outside a fan-out.** Of the calls that come to
no exit with `?`, and in which nothing else fails, those that return a result and do not fail the
run are the ones that come to no fan-out in which a step fails that may be skipped. -/
theorem spared_iff (env : Env) (order : List ℕ) (wf : Workflow) (lodged : Lodging)
    (run : WorkflowRun) (calls : List Call) (call : EngineCall) (hset : SetsRunning run call)
    (hhandled : Handled env order (some wf) lodged run calls call)
    (hothers : ¬ OthersFail env order wf lodged run calls call) :
    Spared (callEngine env order (some wf) lodged run calls call).result
        (callEngine env order (some wf) lodged run calls call).run ↔
      ¬ SkipsFail env wf lodged run calls call := by
  obtain ⟨_, ⟨⟩, hhandled⟩ := hhandled
  cases call with
  | executeRun =>
    unfold OthersFail at hothers
    unfold callEngine executeRun SkipsFail
    dsimp only at hhandled hothers ⊢
    cases hdag : wf.hasDagDeps with
    | true =>
      rw [hdag, if_pos rfl] at hhandled hothers
      rw [if_pos rfl]
      rw [not_or, not_not] at hothers
      obtain ⟨layers, hsort, hfound⟩ := hhandled.resolve_left fun h => h hothers.1
      exact iff_of_true (spared_cleanup.mpr (spared_dag hothers.1 hsort hfound fun hfails =>
        hothers.2 ⟨layers, hsort, hfails⟩)) fun h => nomatch h.1
    | false =>
      rw [hdag, if_neg Bool.false_ne_true] at hhandled hothers
      rw [if_neg Bool.false_ne_true]
      simp only [true_and]
      exact spared_cleanup.trans (spared_sequential_iff rfl hhandled hothers)
  | resumeRun resumeToken =>
    obtain ⟨reason, hpaused⟩ := hset
    unfold callEngine resumeRun SkipsFail
    rw [hpaused]
    dsimp only at hhandled ⊢
    rw [if_neg fun hne => hne rfl, hhandled.1, if_neg Bool.false_ne_true]
    exact spared_cleanup.trans (spared_sequential_iff rfl hhandled.2 hothers)

end Calls

/-- No agent answers. -/
def busyEnv : Env := { sampleEnv with reply := fun _ => .failed "busy" }

/-- A step of a fan-out that may be skipped. -/
def skippedStep : WorkflowStep := { sampleStep "first" .fanOut with errorMode := .skip }

/-- A workflow of this step. -/
def skippedWorkflow : Workflow := { sampleWorkflow .fanOut .fanOut with steps := [skippedStep] }

theorem spared_iff_skippedWorkflow :
    Spared (callEngine busyEnv [] (some skippedWorkflow) undisturbed
        (createRun skippedWorkflow "run-1" "go") [] .executeRun).result
      (callEngine busyEnv [] (some skippedWorkflow) undisturbed
        (createRun skippedWorkflow "run-1" "go") [] .executeRun).run ↔
    ¬ SkipsFail busyEnv skippedWorkflow undisturbed (createRun skippedWorkflow "run-1" "go") []
      .executeRun := by
  refine spared_iff busyEnv [] skippedWorkflow undisturbed _ _ _ trivial ⟨_, rfl, ?_⟩ ?_
  · rintro (⟨hstep, -, hmisses⟩ | ⟨hstep, -, hnext, -⟩)
    · obtain rfl := Option.some.inj hstep
      obtain ⟨f, -, hnone⟩ := hmisses
      cases hnone
    · obtain rfl := Option.some.inj hstep
      cases hnext
  · rintro (⟨hstep, -, hfails⟩ | ⟨hstep, -, hnext, -⟩)
    · obtain rfl := Option.some.inj hstep
      obtain ⟨_ | i, f, hf, hkind, -⟩ := hfails
      · obtain rfl := Option.some.inj hf
        exact hkind rfl
      · cases hf
    · obtain rfl := Option.some.inj hstep
      cases hnext

/-- Every step of the workflow may be skipped, and the failure of its first one fails the run. -/
theorem skippedWorkflow_not_spared :
    (∀ step ∈ skippedWorkflow.steps, step.errorMode = .skip) ∧
      ¬ Spared (callEngine busyEnv [] (some skippedWorkflow) undisturbed
          (createRun skippedWorkflow "run-1" "go") [] .executeRun).result
        (callEngine busyEnv [] (some skippedWorkflow) undisturbed
          (createRun skippedWorkflow "run-1" "go") [] .executeRun).run := by
  constructor
  · rintro step hs
    obtain rfl := List.mem_singleton.mp hs
    rfl
  · intro hspared
    obtain ⟨⟨output, hok⟩, -⟩ := spared_cleanup.mp hspared
    have hloop := @sequentialLoop_of_goesOn busyEnv skippedWorkflow
      (startExec { createRun skippedWorkflow "run-1" "go" with state := .running } "go" [])
      skippedStep undisturbed ⟨rfl, rfl⟩ rfl
    cases (congrArg Prod.fst hloop).symm.trans hok

end LibreFang.Engine
