import LibreFang.Engine.Resume

/-!
# What a collect step reports

The executor keeps the outputs of the run and the step results in two lists.

* `Tracked`: the loop, with what was made since the last collect step ran; `track`: its steps.
* `Reports`: a collect step reports just the outputs made since then.
* **`reports_iff_fresh`**: in every run whose loop steps record one result each, and whose pauses
  come before any output, a collect step reports its batch exactly if it is fresh.
-/

namespace LibreFang.Engine

open Runs

variable {env : Env} {wf : Workflow} {s s' : Exec} {step : WorkflowStep}

/-! ## What a pass adds -/

/-- The pass records these results. -/
def Records (s s' : Exec) (rs : List StepResult) : Prop :=
  s'.run.stepResults = s.run.stepResults ++ rs

/-- The outputs of step results. -/
def outputsOf (rs : List StepResult) : List String := rs.map (·.output)

theorem runAgentStep_made (h : runAgentStep env wf s step = .next s') :
    ∃ rs, Records s s' rs ∧ s'.allOutputs = s.allOutputs ++ outputsOf rs := by
  unfold runAgentStep at h
  split at h
  · cases h
  · split at h
    · rename_i r _ _
      cases h
      refine ⟨[r], ?_, ?_⟩
      · unfold Records Exec.produce
        rw [Exec.assign_run]
        rfl
      · unfold Exec.produce
        cases step.outputVar <;> rfl
    · cases h
      exact ⟨[], (List.append_nil _).symm, (List.append_nil _).symm⟩
    · cases h

theorem fanOutReplies_made {fs : List (FanOutCall × Reply)} (h : fanOutReplies fs s = .next s') :
    ∃ rs, Records s s' rs ∧ s'.allOutputs = s.allOutputs ++ outputsOf rs := by
  induction fs generalizing s with
  | nil =>
    cases h
    exact ⟨[], (List.append_nil _).symm, (List.append_nil _).symm⟩
  | cons f fs ih =>
    obtain ⟨f, reply⟩ := f
    cases reply with
    | completed output inputTokens outputTokens =>
      rw [fanOutReplies] at h
      obtain ⟨rs, hresults, houtputs⟩ := ih h
      refine ⟨⟨f.step.name, f.agentId, f.agentName, f.prompt, output, inputTokens, outputTokens⟩ ::
        rs, ?_, ?_⟩
      · unfold Records Exec.produce at hresults
        rw [Exec.assign_run] at hresults
        rw [Records, hresults]
        exact List.append_assoc _ _ _
      · rw [houtputs]
        unfold Exec.produce
        cases f.step.outputVar <;> exact List.append_assoc _ _ _
    | failed e => cases h
    | timedOut => cases h

theorem runFanOut_made (h : runFanOut env wf s = .next s') :
    ∃ rs, Records s s' rs ∧ s'.allOutputs = s.allOutputs ++ outputsOf rs := by
  unfold runFanOut at h
  split at h
  · cases h
  · obtain ⟨t, ht, h⟩ := Flow.andThen_next h
    cases h
    obtain ⟨rs, hresults, houtputs⟩ := fanOutReplies_made ht
    exact ⟨rs, hresults, houtputs⟩

theorem loopIterations_made {agent : String × String × Bool} {untilLower : String}
    {left iter : ℕ} (h : loopIterations env wf step agent untilLower left iter s = .next s') :
    ∃ rs, Records s s' rs ∧ s'.allOutputs = s.allOutputs ∧
      s'.currentInput = (outputsOf rs).getLastD s.currentInput := by
  induction left generalizing iter s with
  | zero =>
    cases h
    exact ⟨[], (List.append_nil _).symm, rfl, rfl⟩
  | succ left ih =>
    unfold loopIterations at h
    split at h
    · rename_i r calls _
      dsimp only at h
      split_ifs at h
      · cases h
        exact ⟨[r], rfl, rfl, rfl⟩
      · obtain ⟨rs, hresults, houtputs, hinput⟩ := ih h
        refine ⟨r :: rs, ?_, houtputs, ?_⟩
        · rw [Records, hresults]
          exact List.append_assoc _ _ _
        · rw [hinput, outputsOf, outputsOf, List.map_cons, List.getLastD_cons]
    · cases h
      exact ⟨[], (List.append_nil _).symm, rfl, rfl⟩
    · cases h

theorem runLoop_made {maxIterations : ℕ} {until_ : String}
    (h : runLoop env wf s step maxIterations until_ = .next s') :
    ∃ rs, Records s s' rs ∧
      s'.allOutputs = s.allOutputs ++ [(outputsOf rs).getLastD s.currentInput] := by
  unfold runLoop at h
  split at h
  · cases h
  · obtain ⟨t, ht, h⟩ := Flow.andThen_next h
    obtain ⟨rs, hresults, houtputs, hinput⟩ := loopIterations_made ht
    cases h
    refine ⟨rs, ?_, ?_⟩
    · unfold Records Exec.produce
      rw [Exec.assign_run]
      exact hresults
    · rw [← hinput, ← houtputs]
      unfold Exec.produce
      cases step.outputVar <;> rfl

/-- **What a pass adds**, if it is not that of a collect step. -/
theorem iterate_made (h : iterate env wf s step = .next s') (hcollect : step.mode ≠ .collect) :
    ∃ rs, Records s s' rs ∧ (s'.allOutputs = s.allOutputs ++ outputsOf rs ∨
      (∃ maxIterations until_, step.mode = .loop maxIterations until_) ∧
        s'.allOutputs = s.allOutputs ++ [(outputsOf rs).getLastD s.currentInput]) := by
  unfold iterate at h
  split at h
  · obtain ⟨rs, hresults, houtputs⟩ := runAgentStep_made h
    exact ⟨rs, hresults, .inl houtputs⟩
  · obtain ⟨rs, hresults, houtputs⟩ := runFanOut_made h
    exact ⟨rs, hresults, .inl houtputs⟩
  · exact absurd ‹_› hcollect
  · unfold runConditional at h
    split_ifs at h
    · obtain ⟨rs, hresults, houtputs⟩ := runAgentStep_made h
      exact ⟨rs, hresults, .inl houtputs⟩
    · cases h
      exact ⟨[], (List.append_nil _).symm, .inl (List.append_nil _).symm⟩
  · rename_i maxIterations until_ hmode
    obtain ⟨rs, hresults, houtputs⟩ := runLoop_made h
    exact ⟨rs, hresults, .inr ⟨⟨maxIterations, until_, hmode⟩, houtputs⟩⟩

/-! ## The loop with its batches -/

/-- The loop, with the outputs and the step results since the last collect step ran, and whether one
has run since the run was started or resumed. -/
structure Tracked where
  exec : Exec
  outputs : List String
  results : List StepResult
  collected : Bool
  deriving DecidableEq, Repr

/-- What happens to a run; each pass has its surroundings, so that a run that is resumed may have
another map of the variables. -/
inductive Event
  | pass (env : Env)
  | lodge (request : PauseRequest)
  | resume

variable (wf) in
/-- A pass of the loop, if there is one and it goes on; a request for a pause; the pause and the
call that resumes the run. -/
def track (t : Tracked) : Event → Tracked
  | .pass env =>
    match wf.steps[t.exec.index]?, t.exec.run.pauseRequest with
    | some step, none =>
      match iterate env wf t.exec step with
      | .stop _ _ => t
      | .next s' =>
        if step.mode = .collect then ⟨s', [], [], true⟩
        else { t with
          exec := s'
          outputs := t.outputs ++ s'.allOutputs.drop t.exec.allOutputs.length
          results := t.results ++ s'.run.stepResults.drop t.exec.run.stepResults.length }
    | _, _ => t
  | .lodge request => { t with exec := t.exec.lodge (some request) }
  | .resume =>
    match t.exec.run.pauseRequest with
    | some request => { t with exec := (t.exec.pause request).2.resumed, collected := false }
    | none => t

/-- A new run before its first step. -/
def Tracked.start (run : WorkflowRun) (input : String) (calls : List Call) : Tracked :=
  ⟨startExec run input calls, [], [], false⟩

/-- A collect step reports just the outputs since the last one, each of them by a result since
then. -/
def Reports (t : Tracked) : Prop :=
  outputsOf t.exec.relevant = t.outputs ∧ t.exec.relevant <:+ t.results

/-- No collect step has run in this execution, or nothing had been recorded when it ran. -/
def Fresh (t : Tracked) : Prop :=
  t.collected = false ∨ t.results.length = t.exec.run.stepResults.length

variable (wf) in
/-- A loop step records one result, or at least one if it is the first to make an output; a pause
comes before any output. -/
def InStep (t : Tracked) : Event → Prop
  | .pass env => ∀ step s', wf.steps[t.exec.index]? = some step → t.exec.run.pauseRequest = none →
      iterate env wf t.exec step = .next s' →
      ∀ maxIterations until_, step.mode = .loop maxIterations until_ →
        s'.run.stepResults.length = t.exec.run.stepResults.length + 1 ∨
          t.exec.allOutputs = [] ∧ t.exec.run.stepResults.length < s'.run.stepResults.length
  | .lodge _ => True
  | .resume => t.outputs = []

/-- What holds in every state: the last results since the last collect step are those of the
outputs; only the output of that step itself may stand before these. -/
structure Tracked.Sound (t : Tracked) (older skipped counted : List StepResult) : Prop where
  recorded : t.exec.run.stepResults = older ++ t.results
  results : t.results = skipped ++ counted
  outputs : outputsOf counted = t.outputs
  fresh : t.collected = false → t.exec.allOutputs = t.outputs
  collected : t.collected = true → skipped = [] ∧ ∃ merged, t.exec.allOutputs = merged :: t.outputs

variable {t : Tracked}

theorem sound_tracked_start {run : WorkflowRun} (hnew : run.pausedStepIndex = none)
    (hresults : run.stepResults = []) (input : String) (calls : List Call) :
    (Tracked.start run input calls).Sound [] [] [] := by
  have hstart : startExec run input calls = ⟨0, input, [], [], run, calls⟩ := by
    unfold startExec
    rw [hnew]
  unfold Tracked.start
  rw [hstart]
  exact ⟨hresults, rfl, rfl, fun _ => rfl, nofun⟩

theorem Tracked.Sound.extend {older skipped counted : List StepResult} {added : List StepResult}
    {front last : List StepResult} (h : t.Sound older skipped counted)
    (hresults : Records t.exec s' added) (hadded : added = front ++ last)
    (houtputs : s'.allOutputs = t.exec.allOutputs ++ outputsOf last)
    (hfront : front ≠ [] → t.exec.allOutputs = []) :
    ∃ skipped' counted', Sound ⟨s', t.outputs ++ s'.allOutputs.drop t.exec.allOutputs.length,
      t.results ++ s'.run.stepResults.drop t.exec.run.stepResults.length, t.collected⟩
      older skipped' counted' := by
  have hdrop : s'.run.stepResults.drop t.exec.run.stepResults.length = added := by
    rw [hresults, List.drop_left]
  have hdrop' : s'.allOutputs.drop t.exec.allOutputs.length = outputsOf last := by
    rw [houtputs, List.drop_left]
  rw [hdrop, hdrop']
  have hrecorded : s'.run.stepResults = older ++ (t.results ++ added) := by
    rw [hresults, h.recorded, List.append_assoc]
  by_cases hnil : front = []
  · subst hnil
    refine ⟨skipped, counted ++ last, hrecorded, ?_, ?_, fun hc => ?_, fun hc => ?_⟩
    · dsimp only
      rw [h.results, hadded, List.nil_append, List.append_assoc]
    · rw [outputsOf, List.map_append]
      exact congrArg (· ++ outputsOf last) h.outputs
    · rw [houtputs, h.fresh hc]
    · obtain ⟨hskipped, merged, hmerged⟩ := h.collected hc
      exact ⟨hskipped, merged, by rw [houtputs, hmerged]; rfl⟩
  · have hempty := hfront hnil
    have hc : t.collected = false := by
      by_contra hc
      obtain ⟨-, merged, hmerged⟩ := h.collected ((Bool.not_eq_false _).mp hc)
      rw [hempty] at hmerged
      cases hmerged
    have hnone : t.outputs = [] := (h.fresh hc).symm.trans hempty
    have hcounted : counted = [] := List.map_eq_nil_iff.mp (h.outputs.trans hnone)
    refine ⟨skipped ++ front, last, hrecorded, ?_, ?_, fun _ => ?_, fun hc' => ?_⟩
    · dsimp only
      rw [h.results, hcounted, hadded, List.append_nil, List.append_assoc]
    · rw [hnone]
      rfl
    · rw [houtputs, hempty, hnone]
    · exact absurd (hc.symm.trans hc') Bool.false_ne_true

theorem Exec.stepResults_lodge (s : Exec) (request : Option PauseRequest) :
    (s.lodge request).run.stepResults = s.run.stepResults ∧
      (s.lodge request).allOutputs = s.allOutputs := by
  cases request with
  | none => exact ⟨rfl, rfl⟩
  | some request =>
    unfold lodge pauseRun
    dsimp only
    split <;> try split
    all_goals exact ⟨rfl, rfl⟩

theorem sound_track (e : Event)
    (h : ∃ older skipped counted, t.Sound older skipped counted) (he : InStep wf t e) :
    ∃ older skipped counted, (track wf t e).Sound older skipped counted := by
  obtain ⟨older, skipped, counted, h⟩ := h
  cases e with
  | pass env =>
    unfold track
    dsimp only
    split
    · rename_i step hstep hrequest
      cases hnext : iterate env wf t.exec step with
      | stop result s' => exact ⟨older, skipped, counted, h⟩
      | next s' =>
        dsimp only
        split_ifs with hmode
        · -- a collect step: all results are older than what comes next
          have hcollect : runCollect t.exec step = .next s' := by
            rw [iterate, hmode] at hnext
            exact hnext
          cases hcollect
          refine ⟨t.exec.run.stepResults, [], [], ?_, rfl, rfl,
            fun hc => absurd hc.symm Bool.false_ne_true, fun _ => ⟨rfl, ?_⟩⟩
          · unfold Exec.produce
            dsimp only
            rw [Exec.assign_run, List.append_nil]
          · refine ⟨collectJson t.exec.relevant, ?_⟩
            unfold Exec.produce
            cases step.outputVar <;> rfl
        · obtain ⟨rs, hresults, houtputs⟩ := iterate_made hnext hmode
          refine ⟨older, ?_⟩
          obtain houtputs | ⟨⟨maxIterations, until_, hloop⟩, houtputs⟩ := houtputs
          · exact h.extend hresults (List.nil_append rs).symm houtputs (absurd rfl)
          · have hlen : s'.run.stepResults.length = t.exec.run.stepResults.length + rs.length := by
              rw [hresults, List.length_append]
            have hor := he step s' hstep hrequest hnext maxIterations until_ hloop
            rcases List.eq_nil_or_concat' rs with rfl | ⟨front, r, rfl⟩
            · rw [List.length_nil] at hlen
              omega
            · have hlast : (outputsOf (front ++ [r])).getLastD t.exec.currentInput = r.output := by
                rw [outputsOf, List.map_append, List.map_singleton, List.getLastD_concat]
              rw [hlast] at houtputs
              refine h.extend hresults rfl houtputs fun hne => ?_
              have hpos := List.length_pos_iff.mpr hne
              rw [List.length_append, List.length_singleton] at hlen
              exact (hor.resolve_left (by omega)).1
    · exact ⟨older, skipped, counted, h⟩
  | lodge request =>
    obtain ⟨hresults, houtputs⟩ := t.exec.stepResults_lodge (some request)
    refine ⟨older, skipped, counted, ?_, h.results, h.outputs, fun hc => ?_, fun hc => ?_⟩
    · exact hresults.trans h.recorded
    · exact houtputs.trans (h.fresh hc)
    · obtain ⟨hskipped, merged, hmerged⟩ := h.collected hc
      exact ⟨hskipped, merged, houtputs.trans hmerged⟩
  | resume =>
    unfold track
    dsimp only
    split
    · exact ⟨older, skipped, counted, h.recorded, h.results, h.outputs, fun _ => he.symm,
        fun hc => absurd hc Bool.false_ne_true⟩
    · exact ⟨older, skipped, counted, h⟩

/-- **In such a state, a collect step reports its batch exactly if it is fresh.** -/
theorem Tracked.Sound.reports_iff {older skipped counted : List StepResult}
    (h : t.Sound older skipped counted) : Reports t ↔ Fresh t := by
  have hlength : counted.length = t.outputs.length := by
    rw [← h.outputs, outputsOf, List.length_map]
  have hresults : t.results.length = skipped.length + counted.length := by
    rw [h.results, List.length_append]
  have hrecorded : t.exec.run.stepResults.length = older.length + t.results.length := by
    rw [h.recorded, List.length_append]
  cases hc : t.collected with
  | false =>
    have hrelevant : t.exec.relevant = counted := by
      have hsplit : t.exec.run.stepResults = (older ++ skipped) ++ counted := by
        rw [h.recorded, h.results, List.append_assoc]
      unfold Exec.relevant
      rw [h.fresh hc, if_pos (by omega), ← hlength, hsplit, List.length_append,
        Nat.add_sub_cancel, List.drop_left]
    refine ⟨fun _ => .inl hc, fun _ => ⟨?_, ?_⟩⟩
    · rw [hrelevant, h.outputs]
    · rw [hrelevant, h.results]
      exact List.suffix_append _ _
  | true =>
    obtain ⟨rfl, merged, hmerged⟩ := h.collected hc
    have hn : t.exec.allOutputs.length = counted.length + 1 := by
      rw [hmerged, List.length_cons, hlength]
    constructor
    · rintro ⟨houtputs, -⟩
      have hlen := congrArg List.length houtputs
      rw [outputsOf, List.length_map, ← hlength] at hlen
      refine .inr ?_
      unfold Exec.relevant at hlen
      dsimp only at hlen
      rw [hn] at hlen
      split_ifs at hlen
      · rw [List.length_drop] at hlen
        omega
      · rw [List.length_nil] at hresults
        omega
    · rintro (hfalse | hall)
      · exact absurd (hc.symm.trans hfalse) Bool.false_ne_true.symm
      · have hold : older = [] := List.eq_nil_of_length_eq_zero (by omega)
        have hrelevant : t.exec.relevant = counted := by
          unfold Exec.relevant
          rw [hn, if_neg (by rw [List.length_nil] at hresults; omega), h.recorded, h.results, hold]
          rfl
        refine ⟨by rw [hrelevant, h.outputs], ?_⟩
        rw [hrelevant, h.results]
        exact List.suffix_refl _

/-- **In every run that keeps in step, a collect step reports just the outputs made since the last
one exactly if it is fresh.** -/
theorem reports_iff_fresh (wf : Workflow) (run : WorkflowRun) (input : String)
    (calls : List Call) (hnew : run.pausedStepIndex = none) (hresults : run.stepResults = [])
    (es : List Event) (h : Along (track wf) (InStep wf) (.start run input calls) es) :
    Reports (after (track wf) (.start run input calls) es) ↔
      Fresh (after (track wf) (.start run input calls) es) := by
  have hstart := sound_tracked_start hnew hresults input calls
  obtain ⟨older, skipped, counted, hsound⟩ := invariant
    (I := fun t => ∃ older skipped counted, Tracked.Sound t older skipped counted)
    (fun t e ht he => sound_track e ht he) ⟨[], [], [], hstart⟩ h
  exact hsound.reports_iff

/-- An answer, and the collect step behind it. -/
theorem reports_iff_fresh_sample :
    let wf := sampleWorkflow .sequential .collect
    let start := Tracked.start { createRun wf "run-1" "go" with state := .running } "go" []
    Reports (after (track wf) start [.pass sampleEnv]) ↔
      Fresh (after (track wf) start [.pass sampleEnv]) := by
  refine reports_iff_fresh _ _ "go" [] rfl rfl [.pass sampleEnv] ⟨?_, trivial⟩
  intro step s' hstep _ _ maxIterations until_ hmode
  obtain rfl : sampleStep "first" .sequential = step := Option.some.inj hstep
  cases hmode

/-- Two answers, each with a collect step behind it. -/
def twoBatches : Workflow where
  id := "wf-2"
  name := "digest"
  steps := [sampleStep "first" .sequential, sampleStep "sum" .collect,
    sampleStep "second" .sequential, sampleStep "total" .collect]

/-- **A second collect step reports a result from before the first one again.** -/
theorem second_collect_reports_again :
    let start := Tracked.start { createRun twoBatches "run-2" "go" with state := .running } "go" []
    let t := after (track twoBatches) start
      [.pass sampleEnv, .pass sampleEnv, .pass sampleEnv]
    twoBatches.steps[t.exec.index]? = some (sampleStep "total" .collect) ∧
      t.exec.run.pauseRequest = none ∧ t.outputs.length = 1 ∧ t.exec.relevant.length = 2 ∧
      ¬ Reports t := by
  intro start t
  have houtputs : t.outputs.length = 1 := rfl
  have hrelevant : t.exec.relevant.length = 2 := rfl
  refine ⟨rfl, rfl, houtputs, hrelevant, fun h => ?_⟩
  have hlen := congrArg List.length h.1
  rw [outputsOf, List.length_map, hrelevant, houtputs] at hlen
  cases hlen

end LibreFang.Engine
