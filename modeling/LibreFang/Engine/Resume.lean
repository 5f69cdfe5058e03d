import LibreFang.Lib.Runs
import LibreFang.Engine.Expand

/-!
# Pausing and resuming

A run is paused at some step boundaries and resumed with its token each time.

* `Exec.visible`: what the rest of a run depends on; **`iterate_visible`**: a pass keeps it.
* `Collects`: a collect step is still to come.
* `advance`: the caller starts a run or resumes it, each time with a new map of the variables.
* `Unnoticed`: a call whose prompts do not depend on the map and whose pause loses no output.
* **`pause_resume_transparent`**: a run of such calls ends like one that is never paused.
* **`pause_loses_outputs`**: a pause between a fan-out and its collect step loses the results.
-/

namespace LibreFang.Engine

open Runs

/-! ## What a pass depends on -/

/-- Without what a pause saves, and with the outputs only if they are asked for. -/
def Exec.visible (outputs : Bool) (s : Exec) : Exec :=
  { s with
    allOutputs := if outputs then s.allOutputs else []
    run := s.run.clearPauseState }

/-- The same of what comes of a pass. -/
def Flow.visible (outputs : Bool) : Flow → Flow
  | .next s => .next (s.visible outputs)
  | .stop result s => .stop result (s.visible outputs)

variable {env : Env} {wf : Workflow} {s s' t : Exec} {step : WorkflowStep} {outputs : Bool}

@[simp] theorem Exec.visible_visible :
    (s.visible outputs).visible outputs = s.visible outputs := by
  cases outputs <;> rfl

theorem Exec.visible_assign (s : Exec) (v : Option String) (x : String) :
    (s.assign v x).visible outputs = (s.visible outputs).assign v x := by
  cases v <;> rfl

theorem Exec.visible_produce (s : Exec) (x : String) :
    (s.produce x).visible outputs = ((s.visible outputs).produce x).visible outputs := by
  cases outputs <;> rfl

theorem Exec.currentInput_of_visible (h : s.visible outputs = t.visible outputs) :
    s.currentInput = t.currentInput := (congrArg Exec.currentInput h :)

theorem Exec.visible_assign_produce (h : s.visible outputs = t.visible outputs)
    (v : Option String) {x y : String} (hxy : x = y) :
    ((s.assign v x).produce x).visible outputs = ((t.assign v y).produce y).visible outputs := by
  rw [visible_produce, visible_assign, h, hxy, ← visible_assign, ← visible_produce]

theorem Exec.visible_record (h : s.visible outputs = t.visible outputs) (r : StepResult) :
    (s.record r).visible outputs = (t.record r).visible outputs :=
  congrArg (fun w : Exec => w.record r) h

theorem Exec.visible_fail (h : s.visible outputs = t.visible outputs) (e : String) :
    (s.fail e).visible outputs = (t.fail e).visible outputs :=
  congrArg (fun w : Exec => Flow.stop (.error e)
    { w with run := { w.run with state := .failed, error := some e } }) h

theorem Exec.ask_visible (stepName : String) (agent : String × String × Bool) :
    (s.visible outputs).ask env wf step stepName agent = s.ask env wf step stepName agent := rfl

theorem runAgentStep_visible :
    (runAgentStep env wf (s.visible outputs) step).visible outputs =
      (runAgentStep env wf s step).visible outputs := by
  unfold runAgentStep
  split
  · cases outputs <;> rfl
  · rw [Exec.ask_visible]
    split
    · refine congrArg Flow.next (Exec.visible_assign_produce ?_ _ rfl)
      cases outputs <;> rfl
    · cases outputs <;> rfl
    · cases outputs <;> rfl

theorem loopIterations_visible {agent : String × String × Bool} {untilLower : String}
    {left iter : ℕ} :
    (loopIterations env wf step agent untilLower left iter (s.visible outputs)).visible outputs =
      (loopIterations env wf step agent untilLower left iter s).visible outputs := by
  induction left generalizing iter s with
  | zero => simp only [loopIterations, Flow.visible, Exec.visible_visible]
  | succ left ih =>
    unfold loopIterations
    rw [Exec.ask_visible]
    split
    · rename_i r calls _
      dsimp only
      split_ifs
      · cases outputs <;> rfl
      · exact ih (s := { ({ s with calls } : Exec).record r with currentInput := r.output })
    · cases outputs <;> rfl
    · cases outputs <;> rfl

theorem Flow.visible_andThen {a b : Flow} {f g : Exec → Flow}
    (h : a.visible outputs = b.visible outputs)
    (hfg : ∀ s t, s.visible outputs = t.visible outputs →
      (f s).visible outputs = (g t).visible outputs) :
    (a.andThen f).visible outputs = (b.andThen g).visible outputs := by
  cases a with
  | next s =>
    cases b with
    | next t => exact hfg s t (Flow.next.inj h)
    | stop result t => cases h
  | stop result s =>
    cases b with
    | next t => cases h
    | stop result' t => exact h

theorem runLoop_visible {maxIterations : ℕ} {until_ : String} :
    (runLoop env wf (s.visible outputs) step maxIterations until_).visible outputs =
      (runLoop env wf s step maxIterations until_).visible outputs := by
  unfold runLoop
  split
  · cases outputs <;> rfl
  · refine Flow.visible_andThen loopIterations_visible fun t u h => ?_
    refine congrArg Flow.next (Exec.visible_assign_produce ?_ _ ?_)
    · exact congrArg (fun w : Exec => { w with index := w.index + 1 }) h
    · exact Exec.currentInput_of_visible h

theorem runCollect_visible :
    (runCollect (s.visible true) step).visible true = (runCollect s step).visible true := by
  refine congrArg Flow.next (Exec.visible_assign_produce ?_ _ rfl)
  rfl

theorem fanOutCalls_visible (steps : List WorkflowStep) :
    fanOutCalls env wf (s.visible outputs) steps = fanOutCalls env wf s steps := by
  induction steps with
  | nil => rfl
  | cons step steps ih =>
    unfold fanOutCalls
    rw [ih]
    rfl

theorem fanOutReplies_visible {fs : List (FanOutCall × Reply)}
    (h : s.visible outputs = t.visible outputs) :
    (fanOutReplies fs s).visible outputs = (fanOutReplies fs t).visible outputs := by
  induction fs generalizing s t with
  | nil => exact congrArg Flow.next h
  | cons f fs ih =>
    obtain ⟨f, reply⟩ := f
    cases reply with
    | completed output inputTokens outputTokens =>
      exact ih (Exec.visible_assign_produce (Exec.visible_record h _) _ rfl)
    | failed e => exact Exec.visible_fail h _
    | timedOut => exact Exec.visible_fail h _

theorem runFanOut_visible :
    (runFanOut env wf (s.visible outputs)).visible outputs =
      (runFanOut env wf s).visible outputs := by
  have hcalls : fanOutCalls env wf (s.visible outputs) (fanOutSteps wf (s.visible outputs)) =
      fanOutCalls env wf s (fanOutSteps wf s) := fanOutCalls_visible _
  unfold runFanOut
  rw [hcalls]
  cases fanOutCalls env wf s (fanOutSteps wf s) with
  | error missing => cases outputs <;> rfl
  | ok fs =>
    refine Flow.visible_andThen (fanOutReplies_visible ?_) fun t u h => ?_
    · cases outputs <;> rfl
    · exact congrArg (fun w : Exec => Flow.next
        { w with index := s.index + (fanOutSteps wf s).length }) h

/-- **What the rest of a run depends on, a pass makes of what it depends on itself.** -/
theorem iterate_visible (h : outputs = true ∨ step.mode ≠ .collect) :
    (iterate env wf (s.visible outputs) step).visible outputs =
      (iterate env wf s step).visible outputs := by
  unfold iterate
  split
  · exact runAgentStep_visible
  · exact runFanOut_visible
  · rename_i hmode
    obtain rfl := h.resolve_right fun hne => hne hmode
    exact runCollect_visible
  · unfold runConditional
    change Flow.visible outputs (if evaluateCondition env (env.toLowercase s.currentInput) _ then
      _ else _) = _
    split_ifs
    · exact runAgentStep_visible
    · cases outputs <;> rfl
  · exact runLoop_visible

/-! ## What the rest of a run depends on -/

/-- The run that goes on from here without a pause comes to a collect step. -/
inductive Collects (env : Env) (wf : Workflow) : Exec → Prop
  | here {s : Exec} {step : WorkflowStep} (hstep : wf.steps[s.index]? = some step)
    (hmode : step.mode = .collect) : Collects env wf s
  | later {s s' : Exec} {step : WorkflowStep} (hstep : wf.steps[s.index]? = some step)
    (hflow : iterate env wf s step = .next s') (h : Collects env wf s') : Collects env wf s

theorem sequentialLoop_visible (hs : Live s) (ht : Live t)
    (h : s.visible outputs = t.visible outputs) (hc : outputs = true ∨ ¬Collects env wf t) :
    (sequentialLoop env wf undisturbed s).1 = (sequentialLoop env wf undisturbed t).1 ∧
      (sequentialLoop env wf undisturbed s).2.visible outputs =
        (sequentialLoop env wf undisturbed t).2.visible outputs := by
  induction s using passes_induction env wf generalizing t with
  | pass s ih =>
    have hindex : s.index = t.index := (congrArg Exec.index h :)
    cases hstep : wf.steps[s.index]? with
    | none =>
      rw [sequentialLoop_eq, sequentialLoop_eq undisturbed t, ← hindex, hstep]
      have hinput := Exec.currentInput_of_visible h
      refine ⟨congrArg Except.ok hinput, ?_⟩
      exact (congrArg (fun w : Exec => w.complete.2) h :)
    | some step =>
      have hstep' : wf.steps[t.index]? = some step := hindex ▸ hstep
      have hmode : outputs = true ∨ step.mode ≠ .collect :=
        hc.imp_right fun hn hmode => hn (.here hstep' hmode)
      have hflow : (iterate env wf s step).visible outputs =
          (iterate env wf t step).visible outputs := by
        rw [← iterate_visible hmode, h, iterate_visible hmode]
      rw [hs.sequentialLoop_pass undisturbed hstep rfl, ht.sequentialLoop_pass undisturbed hstep' rfl]
      cases hs' : iterate env wf s step with
      | next s' =>
        cases ht' : iterate env wf t step with
        | next t' =>
          rw [hs', ht'] at hflow
          refine ih step s' hstep hs' (hs.of_iterate hstep hs') (ht.of_iterate hstep' ht')
            (Flow.next.inj hflow) ?_
          exact hc.imp_right fun hn hcollects => hn (.later hstep' ht' hcollects)
        | stop result t' =>
          rw [hs', ht'] at hflow
          cases hflow
      | stop result s' =>
        cases ht' : iterate env wf t step with
        | next t' =>
          rw [hs', ht'] at hflow
          cases hflow
        | stop result' t' =>
          rw [hs', ht'] at hflow
          exact Flow.stop.inj hflow

/-! ## The caller of a run -/

/-- What a caller has seen of a run: what its last call returned, the run and the messages sent. -/
structure Progress where
  result : Option (Except String String)
  run : WorkflowRun
  calls : List Call

/-- A run that was created. -/
def created (wf : Workflow) (id input : String) : Progress := ⟨none, createRun wf id input, []⟩

/-- What the caller sees after a call. -/
def Outcome.progress (out : Outcome) : Progress := ⟨some out.result, out.run, out.calls⟩

/-- A call into the executor: the map it makes, and the requests for a pause meanwhile. -/
structure Leg where
  map : MapOrder
  lodged : Lodging

/-- The caller's next call: it starts a pending run, and resumes a paused one with its token. -/
def advance (executeRunDag : Executor) (env : Env) (wf : Workflow) (p : Progress) (leg : Leg) :
    Progress :=
  match p.run.state with
  | .pending =>
    (executeRun (leg.map.env env) executeRunDag (some wf) leg.lodged p.run p.calls).progress
  | .paused resumeToken _ =>
    (resumeRun (leg.map.env env) (some wf) leg.lodged resumeToken p.run p.calls).progress
  | _ => p

/-- The variables with which the loop starts over after a pause. -/
def Exec.resumed (s : Exec) : Exec := startExec s.run.resumed "" s.calls

/-- The variables with which the next call enters the loop. -/
def Progress.entry (p : Progress) : Option Exec :=
  match p.run.state with
  | .pending => some (startExec { p.run with state := .running } p.run.input p.calls)
  | .paused .. => some (startExec p.run.resumed "" p.calls)
  | _ => none

/-- If the loop pauses, nothing was pushed to `all_outputs` since it was entered, or no collect step
is still to come. -/
def KeepsOutputs (env : Env) (wf : Workflow) (lodged : Lodging) (s : Exec) : Prop :=
  (sequentialLoop env wf lodged s).2.run.state.isPaused = true →
    (sequentialLoop env wf lodged s).2.allOutputs = [] ∨
      ¬Collects env wf (sequentialLoop env wf lodged s).2.resumed

/-- The next call leaves no trace: all prompts from there on are apart, so that they do not depend
on the order of the map, and a pause loses no output. -/
def Unnoticed (env : Env) (wf : Workflow) (p : Progress) (leg : Leg) : Prop :=
  ∀ s ∈ p.entry, PromptsApart (leg.map.env env) wf s ∧
    KeepsOutputs (leg.map.env env) wf leg.lodged s

/-- What the caller sees when the loop ends. -/
def Progress.ofLoop (ended : Except String String × Exec) : Progress :=
  ⟨some ended.1, ended.2.run.cleanupTerminalPauseState, ended.2.calls⟩

/-- What two runs have in common that end alike. -/
structure SameEnd (p q : Progress) : Prop where
  result : p.result = q.result
  calls : p.calls = q.calls
  stepResults : p.run.stepResults = q.run.stepResults
  output : p.run.output = q.run.output
  error : p.run.error = q.run.error
  state : p.run.state = q.run.state

variable {executeRunDag : Executor} {p : Progress} {leg : Leg}

theorem advance_of_entry (hwf : wf.hasDagDeps = false) (h : p.entry = some s) :
    advance executeRunDag env wf p leg =
      .ofLoop (sequentialLoop (leg.map.env env) wf leg.lodged s) := by
  unfold Progress.entry at h
  unfold advance
  cases hstate : p.run.state with
  | pending =>
    simp only [hstate] at h
    cases h
    simp only [executeRun, hwf]
    rfl
  | paused resumeToken reason =>
    simp only [hstate] at h
    cases h
    simp only [resumeRun, hstate, hwf]
    rw [if_neg fun hne => hne rfl]
    rfl
  | running => simp [hstate] at h
  | completed => simp [hstate] at h
  | failed => simp [hstate] at h

theorem advance_of_entry_none (h : p.entry = none) : advance executeRunDag env wf p leg = p := by
  unfold Progress.entry at h
  unfold advance
  cases hstate : p.run.state with
  | pending => simp [hstate] at h
  | paused resumeToken reason => simp [hstate] at h
  | running => rfl
  | completed => rfl
  | failed => rfl

/-! ## Runs with pauses -/

/-- Two ends of the loop that leave the same, up to what a pause saved. -/
def SameLoop (a b : Except String String × Exec) : Prop :=
  a.1 = b.1 ∧ a.2.visible false = b.2.visible false

theorem SameLoop.trans {a b c : Except String String × Exec} (h : SameLoop a b)
    (h' : SameLoop b c) : SameLoop a c := ⟨h.1.trans h'.1, h.2.trans h'.2⟩

theorem Exec.visible_false_of_visible (h : s.visible outputs = t.visible outputs) :
    s.visible false = t.visible false := (congrArg (Exec.visible false) h :)

/-- What the caller sees is on the way to an end of the loop: the next call comes to it with every
map with which its prompts are apart, or the last call has come to it. -/
def Towards (env : Env) (wf : Workflow) (ended : Except String String × Exec) (p : Progress) :
    Prop :=
  match p.entry with
  | some s => Live s ∧ s.vars.Keyed ∧ ∀ o : MapOrder, PromptsApart (o.env env) wf s →
    SameLoop (sequentialLoop (o.env env) wf undisturbed s) ended
  | none => p.result = some ended.1 ∧ p.calls = ended.2.calls ∧
    p.run.clearPauseState = ended.2.run.clearPauseState

theorem clearPauseState_cleanup (run : WorkflowRun) :
    run.cleanupTerminalPauseState.clearPauseState = run.clearPauseState := by
  unfold WorkflowRun.cleanupTerminalPauseState
  split <;> rfl

theorem state_cleanup (run : WorkflowRun) : run.cleanupTerminalPauseState.state = run.state := by
  unfold WorkflowRun.cleanupTerminalPauseState
  split <;> rfl

theorem entry_ofLoop (h : Live s) :
    (Progress.ofLoop (sequentialLoop env wf undisturbed s)).entry = none := by
  unfold Progress.entry Progress.ofLoop
  dsimp only
  rw [state_cleanup]
  rcases sequentialLoop_undisturbed_state env wf h with hs | hs | hs <;> rw [hs]

variable {ended : Except String String × Exec} {o : MapOrder}

theorem towards_ofLoop (hs : Live s)
    (h : SameLoop (sequentialLoop (o.env env) wf undisturbed s) ended) :
    Towards env wf ended (.ofLoop (sequentialLoop (o.env env) wf undisturbed s)) := by
  unfold Towards
  rw [entry_ofLoop hs]
  refine ⟨congrArg some h.1, (congrArg Exec.calls h.2 :), ?_⟩
  exact (clearPauseState_cleanup _).trans (congrArg Exec.run h.2 :)

theorem sequentialLoop_maps (o' : MapOrder) (hs : Live s) (hvars : s.vars.Keyed)
    (h : PromptsApart (o.env env) wf s) :
    sequentialLoop (o'.env env) wf undisturbed s = sequentialLoop (o.env env) wf undisturbed s :=
  sequentialLoop_order o.perm hvars hs h

theorem Live.visible_resumed (h : Live t) (request : PauseRequest)
    (hkept : outputs = false ∨ t.allOutputs = []) :
    t.visible outputs = (t.pause request).2.resumed.visible outputs := by
  have hrun : ({ t.run with state := .running } : WorkflowRun) = t.run := by rw [← h.state]
  have hresumed : (t.pause request).2.resumed.visible outputs =
      ({ t with allOutputs := [], run := { t.run with state := .running } } : Exec).visible outputs :=
    rfl
  rw [hresumed, hrun]
  rcases hkept with rfl | hnil
  · rfl
  · rw [← hnil]

/-- **A call that leaves no trace keeps the run on its way.** -/
theorem towards_advance (hwf : wf.hasDagDeps = false)
    (h : Towards env wf ended p) (hleg : Unnoticed env wf p leg) :
    Towards env wf ended (advance executeRunDag env wf p leg) := by
  cases hentry : p.entry with
  | none => rwa [advance_of_entry_none hentry]
  | some s =>
    unfold Towards at h
    rw [hentry] at h
    obtain ⟨hlive, hvars, hsame⟩ := h
    obtain ⟨hapart, hkeeps⟩ := hleg s hentry
    rw [advance_of_entry hwf hentry]
    rcases sequentialLoop_cases leg.lodged hlive with hloop | ⟨t, request, ht, hkeyed, hpause, hrest⟩
    · rw [hloop]
      exact towards_ofLoop hlive (hsame leg.map hapart)
    · unfold KeepsOutputs at hkeeps
      rw [hpause] at hkeeps ⊢
      obtain ⟨kept, hkept, hc⟩ : ∃ kept, (kept = false ∨ t.allOutputs = []) ∧
          (kept = true ∨ ¬Collects (leg.map.env env) wf (t.pause request).2.resumed) := by
        rcases hkeeps rfl with hnil | hn
        · exact ⟨true, .inr hnil, .inl rfl⟩
        · exact ⟨false, .inl rfl, .inr hn⟩
      have hresumed : Live (t.pause request).2.resumed := ⟨rfl, rfl⟩
      have hend := sequentialLoop_visible ht hresumed (ht.visible_resumed request hkept) hc
      refine ⟨hresumed, hkeyed hvars, fun o ho => ?_⟩
      -- the next call makes another map
      change SameLoop (sequentialLoop (o.env env) wf undisturbed (t.pause request).2.resumed) ended
      rw [← sequentialLoop_maps leg.map hresumed (hkeyed hvars) ho]
      refine SameLoop.trans ⟨hend.1.symm, ?_⟩ (hrest ▸ hsame leg.map hapart)
      exact (Exec.visible_false_of_visible hend.2).symm

theorem towards_created (id input : String) (o : MapOrder) :
    Towards env wf (sequentialLoop (o.env env) wf undisturbed (startExec
      { createRun wf id input with state := .running } input [])) (created wf id input) := by
  have hlive : Live (startExec { createRun wf id input with state := .running } input []) :=
    ⟨rfl, rfl⟩
  refine ⟨hlive, List.Pairwise.nil, fun o' ho' => ?_⟩
  rw [sequentialLoop_maps o hlive List.Pairwise.nil ho']
  exact ⟨rfl, rfl⟩

theorem Towards.sameEnd {q : Progress}
    (hp : Towards env wf ended p) (hq : Towards env wf ended q) (hpe : p.entry = none)
    (hqe : q.entry = none) : SameEnd p q := by
  unfold Towards at hp hq
  rw [hpe] at hp
  rw [hqe] at hq
  have hrun := hp.2.2.trans hq.2.2.symm
  exact ⟨hp.1.trans hq.1.symm, hp.2.1.trans hq.2.1.symm,
    (congrArg WorkflowRun.stepResults hrun :), (congrArg WorkflowRun.output hrun :),
    (congrArg WorkflowRun.error hrun :), (congrArg WorkflowRun.state hrun :)⟩

/-- **Pausing and resuming is transparent where no call leaves a trace**: a run that is started,
paused and resumed with its token any number of times, each time with a new map, ends like the run
that is never paused. -/
theorem pause_resume_transparent (executeRunDag : Executor) (env : Env) (wf : Workflow)
    (hwf : wf.hasDagDeps = false) (id input : String) (o : MapOrder) (legs : List Leg)
    (hlegs : Along (advance executeRunDag env wf) (Unnoticed env wf) (created wf id input) legs)
    (hended : (after (advance executeRunDag env wf) (created wf id input) legs).entry = none) :
    SameEnd (after (advance executeRunDag env wf) (created wf id input) legs)
      (advance executeRunDag env wf (created wf id input) ⟨o, undisturbed⟩) := by
  have hpaused : Towards env wf _
      (after (advance executeRunDag env wf) (created wf id input) legs) :=
    invariant (fun _ _ => towards_advance hwf) (towards_created id input o) hlegs
  have hlive : Live (startExec { createRun wf id input with state := .running } input []) :=
    ⟨rfl, rfl⟩
  have hentry : (created wf id input).entry =
    some (startExec { createRun wf id input with state := .running } input []) := rfl
  refine hpaused.sameEnd ?_ hended ?_
  · rw [advance_of_entry hwf hentry]
    exact towards_ofLoop hlive ⟨rfl, rfl⟩
  · rw [advance_of_entry hwf hentry]
    exact entry_ofLoop hlive

/-! ## Collecting after a pause -/

theorem collectJson_ne {results : List StepResult} (h : results ≠ []) :
    collectJson results ≠ collectJson [] := by
  intro he
  cases results with
  | nil => exact h rfl
  | cons r results =>
    have hlen := congrArg String.length he
    simp only [collectJson, String.length_append, List.map_cons, List.map_nil] at hlen
    have hcomma : ("," : String).intercalate [] = "" := String.intercalate_nil
    rw [hcomma] at hlen
    cases results with
    | nil =>
      rw [List.map_nil, String.intercalate_singleton] at hlen
      simp at hlen
    | cons r' results =>
      rw [List.map_cons, String.intercalate_cons_cons] at hlen
      simp at hlen

theorem sequentialLoop_collect (h : Live s) (hstep : wf.steps[s.index]? = some step)
    (hmode : step.mode = .collect) (hlast : wf.steps.length = s.index + 1) :
    (sequentialLoop env wf undisturbed s).1 = .ok (collectJson s.relevant) := by
  have hflow : iterate env wf s step = runCollect s step := by rw [iterate, hmode]
  rw [h.sequentialLoop_pass undisturbed hstep rfl, hflow]
  dsimp only [runCollect]
  have hnone : wf.steps[s.index + 1]? = none := List.getElem?_eq_none (by omega)
  rw [sequentialLoop_eq, Exec.produce, Exec.assign_index]
  dsimp only
  rw [hnone]
  rfl

/-- **A pause right before the last step, a collect step, loses what there is to collect.** -/
theorem pause_before_collect (h : Live t) (hstep : wf.steps[t.index]? = some step)
    (hmode : step.mode = .collect) (hlast : wf.steps.length = t.index + 1)
    (houtputs : t.allOutputs ≠ []) (hresults : t.run.stepResults ≠ []) (request : PauseRequest) :
    (sequentialLoop env wf undisturbed (t.pause request).2.resumed).1 ≠
      (sequentialLoop env wf undisturbed t).1 := by
  have hresumed : Live (t.pause request).2.resumed := ⟨rfl, rfl⟩
  have hnil : (t.pause request).2.resumed.relevant = [] := by
    have : (t.pause request).2.resumed.relevant =
      t.run.stepResults.drop (t.run.stepResults.length - 0) := rfl
    rw [this, Nat.sub_zero, List.drop_length]
  rw [sequentialLoop_collect h hstep hmode hlast,
    sequentialLoop_collect hresumed hstep hmode hlast, hnil]
  have hne : t.relevant ≠ [] := by
    have hn := List.length_pos_iff.mpr houtputs
    have hm := List.length_pos_iff.mpr hresults
    rw [← List.length_pos_iff, Exec.relevant]
    split_ifs
    · rw [List.length_drop]
      omega
    · exact hm
  exact fun he => collectJson_ne hne (Except.ok.inj he).symm

/-! ### Sample runs -/

theorem not_collects (h : ∀ step ∈ wf.steps, step.mode ≠ .collect) (s : Exec) :
    ¬Collects env wf s := by
  intro hc
  induction hc with
  | here hstep hmode => exact h _ (List.mem_of_getElem? hstep) hmode
  | later hstep hflow _ ih => exact ih

theorem keepsOutputs_undisturbed (h : Live s) : KeepsOutputs env wf undisturbed s := by
  intro hpaused
  rcases sequentialLoop_undisturbed_state env wf h with hs | hs | hs <;>
    rw [hs] at hpaused <;> cases hpaused

/-- A step of the sample workflows. -/
def sampleStep (name : String) (mode : StepMode) : WorkflowStep where
  name
  agent := .byName "writer"
  promptTemplate := "Go on: \x7b\x7binput\x7d\x7d"
  mode

/-- A workflow of two steps. -/
def sampleWorkflow (first second : StepMode) : Workflow where
  id := "wf-1"
  name := "report"
  steps := [sampleStep "first" first, sampleStep "second" second]

/-- An executor that is not called. -/
def sampleDag : Executor := fun _ run _ calls => ⟨.error "", run, calls⟩

/-- A pause that is requested during the first step. -/
def pauseAfterFirst : Lodging :=
  fun i => if i = 1 then some ⟨"approval", "token-1"⟩ else none

/-- The variables of the loop when it starts. -/
def sampleStart (first second : StepMode) : Exec :=
  startExec { createRun (sampleWorkflow first second) "run-1" "go" with state := .running } "go" []

theorem sample_entry (first second : StepMode) :
    (created (sampleWorkflow first second) "run-1" "go").entry = some (sampleStart first second) :=
  rfl

/-- A map that is iterated in the order of the keys. -/
def sampleOrder : MapOrder := ⟨id, fun _ => .refl _⟩

/-- The calls of a run that is paused after the first step. -/
def sampleLegs : List Leg := [⟨sampleOrder, pauseAfterFirst⟩, ⟨sampleOrder, undisturbed⟩]

theorem sample_pause {first second : StepMode}
    (hflow : iterate sampleEnv (sampleWorkflow first second) (sampleStart first second)
      (sampleStep "first" first) = .next s) (hindex : s.index = 1) :
    sequentialLoop sampleEnv (sampleWorkflow first second) pauseAfterFirst
      (sampleStart first second) = s.pause ⟨"approval", "token-1"⟩ := by
  have hlive : Live (sampleStart first second) := ⟨rfl, rfl⟩
  have hlive' := hlive.of_iterate rfl hflow
  rw [hlive.sequentialLoop_pass _ rfl rfl, hflow]
  dsimp only
  rw [sequentialLoop_eq, hindex]
  dsimp only [sampleWorkflow, List.getElem?_cons_succ, List.getElem?_cons_zero]
  rw [show pauseAfterFirst 1 = some ⟨"approval", "token-1"⟩ from rfl, hlive'.lodge_some]
  rfl

theorem sample_calls (first second : StepMode)
    (hflow : iterate sampleEnv (sampleWorkflow first second) (sampleStart first second)
      (sampleStep "first" first) = .next s) (hindex : s.index = 1) :
    let wf := sampleWorkflow first second
    let paused := advance sampleDag sampleEnv wf (created wf "run-1" "go")
      ⟨sampleOrder, pauseAfterFirst⟩
    paused.entry = some (s.pause ⟨"approval", "token-1"⟩).2.resumed ∧
      (advance sampleDag sampleEnv wf paused ⟨sampleOrder, undisturbed⟩).entry = none := by
  intro wf paused
  have hentry : paused.entry = some (s.pause ⟨"approval", "token-1"⟩).2.resumed := by
    change (advance _ _ _ _ _).entry = _
    rw [advance_of_entry rfl (sample_entry first second)]
    exact congrArg (fun ended => (Progress.ofLoop ended).entry) (sample_pause hflow hindex)
  refine ⟨hentry, ?_⟩
  rw [advance_of_entry rfl hentry]
  exact entry_ofLoop ⟨rfl, rfl⟩

theorem sample_promptApart {name : String} {mode : StepMode} (h : s.vars = []) :
    PromptApart s (sampleStep name mode) := by
  have hinput : InputApart "Go on: \x7b\x7binput\x7d\x7d" [] := by
    unfold InputApart
    decide
  unfold PromptApart
  rw [h]
  exact .inr ⟨hinput, fun _ _ e he => nomatch he⟩

/-- Two sequential steps with a pause between them. -/
theorem pause_resume_transparent_sample :
    let wf := sampleWorkflow .sequential .sequential
    SameEnd (after (advance sampleDag sampleEnv wf) (created wf "run-1" "go") sampleLegs)
      (advance sampleDag sampleEnv wf (created wf "run-1" "go") ⟨sampleOrder, undisturbed⟩) := by
  intro wf
  obtain ⟨hentry, hended⟩ := sample_calls .sequential .sequential rfl rfl
  refine pause_resume_transparent sampleDag sampleEnv wf rfl "run-1" "go" sampleOrder sampleLegs
    ⟨?_, ?_, trivial⟩ hended
  · intro s hs
    obtain rfl := Option.some.inj hs
    refine ⟨.pass rfl (fun _ => sample_promptApart rfl) fun s' hflow => ?_,
      fun _ => .inr (not_collects (by decide) _)⟩
    obtain rfl := Flow.next.inj hflow
    refine .pass rfl (fun _ => sample_promptApart rfl) fun s' hflow => ?_
    obtain rfl := Flow.next.inj hflow
    exact .done rfl
  · intro s hs
    obtain rfl := Option.some.inj (hentry.symm.trans hs)
    refine ⟨.pass rfl (fun _ => sample_promptApart rfl) fun s' hflow => ?_,
      keepsOutputs_undisturbed ⟨rfl, rfl⟩⟩
    obtain rfl := Flow.next.inj hflow
    exact .done rfl

/-- **A pause between a fan-out and its collect step loses the results.** -/
theorem pause_loses_outputs :
    ¬∀ (executeRunDag : Executor) (env : Env) (wf : Workflow), wf.hasDagDeps = false →
      ∀ (id input : String) (o : MapOrder) (legs : List Leg),
        (after (advance executeRunDag env wf) (created wf id input) legs).entry = none →
        SameEnd (after (advance executeRunDag env wf) (created wf id input) legs)
          (advance executeRunDag env wf (created wf id input) ⟨o, undisturbed⟩) := by
  intro hall
  obtain ⟨hentry, hended⟩ := sample_calls .fanOut .collect rfl rfl
  have hsame := (hall sampleDag sampleEnv (sampleWorkflow .fanOut .collect) rfl "run-1" "go"
    sampleOrder sampleLegs hended).result
  have hstart : Live (sampleStart .fanOut .collect) := ⟨rfl, rfl⟩
  have hflow : iterate sampleEnv (sampleWorkflow .fanOut .collect) (sampleStart .fanOut .collect)
    (sampleStep "first" .fanOut) = .next _ := rfl
  rw [sampleLegs, after_cons, after_cons, after_nil, advance_of_entry rfl hentry,
    advance_of_entry rfl (sample_entry .fanOut .collect)] at hsame
  change some (sequentialLoop sampleEnv _ undisturbed _).1 =
    some (sequentialLoop sampleEnv _ undisturbed _).1 at hsame
  rw [hstart.sequentialLoop_pass _ rfl rfl, hflow] at hsame
  exact pause_before_collect (hstart.of_iterate rfl hflow) rfl rfl rfl (by decide) (by decide) _
    (Option.some.inj hsame)

end LibreFang.Engine
