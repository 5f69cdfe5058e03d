import LibreFang.Engine.Settled

/-!
# Layers of one step and layers of several

Two paths of `execute_run_dag` treat a step: one for a layer of its own, one for a layer that it
shares.

* `settle`: what the results loop of a shared layer does with one result; `layerResults_eq`.
* `Handling`: what becomes of a step; `HandledAlone`, `HandledTogether`: its messages and its
  handling on the two paths.
* **`sameHandling_iff`**: the two paths treat a step alike exactly if it is `TreatedAlike`.
-/

namespace LibreFang.Engine

/-! ## One result of a shared layer -/

/-- What the results loop does with one result. -/
def settle (s : DagExec) : LayerCall × Except String (Option (String × ℕ × ℕ)) → DagFlow
  | (f, .ok (some (output, inputTokens, outputTokens))) =>
    .ok (s.record f.step
      { stepName := f.step.name, agentId := f.agentId, agentName := f.agentName,
        prompt := f.prompt, output, inputTokens, outputTokens })
  | (f, .ok none) => .ok (s.markFailed f.step)
  | (f, .error e) => (s.markFailed f.step).fail e

theorem layerResults_eq
    (entries : List (LayerCall × Except String (Option (String × ℕ × ℕ)))) (s : DagExec) :
    layerResults entries s = entries.foldlM settle s := by
  induction entries generalizing s with
  | nil => rfl
  | cons entry entries ih =>
    obtain ⟨f, e | _ | ⟨output, inputTokens, outputTokens⟩⟩ := entry
    · rfl
    · exact ih _
    · exact ih _

theorem layerResults_append
    (entries entries' : List (LayerCall × Except String (Option (String × ℕ × ℕ)))) (s : DagExec) :
    layerResults (entries ++ entries') s = layerResults entries s >>= layerResults entries' := by
  simp only [layerResults_eq, List.foldlM_append]
  congr
  funext t
  exact (layerResults_eq entries' t).symm

variable (env : Env) (input : String)

/-- A shared layer up to the first `n` of its results. -/
def runThrough (s : DagExec) (steps : List WorkflowStep) (n : ℕ) : DagFlow :=
  match layerCalls env input s steps with
  | .error missing => s.agentNotFound missing
  | .ok fs =>
    let sent := joinLayer env fs s.calls
    layerResults (sent.1.take n) { s with calls := sent.2 }

/-- The messages sent when those of the first `n` steps of a shared layer have been sent. -/
def sentThrough (s : DagExec) (steps : List WorkflowStep) (n : ℕ) : List Call :=
  match layerCalls env input s steps with
  | .error _ => s.calls
  | .ok fs => (joinLayer env (fs.take n) s.calls).2

/-- **A shared layer** goes on from there with its other results, unless one has failed the run. -/
theorem runTogether_eq (s : DagExec) (steps : List WorkflowStep) (n : ℕ) :
    ∃ later, runTogether env input s steps =
      runThrough env input s steps n >>= layerResults later := by
  unfold runTogether runThrough
  cases layerCalls env input s steps with
  | error missing => exact ⟨[], rfl⟩
  | ok fs =>
    refine ⟨(joinLayer env fs s.calls).1.drop n, ?_⟩
    dsimp only
    rw [← layerResults_append, List.take_append_drop]

/-- What becomes of a step: its output is stored, it is marked as failed, the run fails, or the
call ends at an agent that is not found. -/
inductive Handling
  | stored (result : StepResult)
  | marked
  | runFailed
  | agentNotFound
  deriving DecidableEq, Repr

/-- This becomes of a step between a state and what follows. -/
def Handles (s : DagExec) (step : WorkflowStep) (flow : DagFlow) : Handling → Prop
  | .stored result => flow = .ok (s.record step result)
  | .marked => flow = .ok (s.markFailed step)
  | .runFailed => ∃ e after, flow = .error (e, after) ∧ after.run.state = .failed ∧
      after.calls = s.calls
  | .agentNotFound => ∃ missing, flow = s.agentNotFound missing

/-- The messages and the handling of a step that has a layer of its own. -/
def HandledAlone (s : DagExec) (step : WorkflowStep) (own : List Call) (handling : Handling) :
    Prop :=
  Handles { s with calls := s.calls ++ own } step (runSingle env input s step) handling

/-- The messages and the handling of a step in a layer that it shares. Its result is looked at after
those in front, if the layer has come so far. -/
def HandledTogether (s : DagExec) (front : List WorkflowStep) (step : WorkflowStep)
    (rest : List WorkflowStep) (own : List Call) (handling : Handling) : Prop :=
  let steps := front ++ step :: rest
  sentThrough env input s steps (front.length + 1) =
      sentThrough env input s steps front.length ++ own ∧
    match runThrough env input s steps front.length with
    | .ok before =>
      Handles before step (runThrough env input s steps (front.length + 1)) handling
    | .error (_, after) =>
      handling = if after.run.state = .failed then .runFailed else .agentNotFound

/-- The agents of the steps that share the layer are found. -/
def SiblingsFound (front rest : List WorkflowStep) : Prop :=
  ∀ f ∈ front ++ rest, env.agentResolver f.agent ≠ none

/-- A reply is an answer. -/
def Reply.Answers (reply : Reply) : Prop :=
  ∃ output inputTokens outputTokens, reply = .completed output inputTokens outputTokens

/-- A step fails the run: of a failed dependency, or of the reply it gets. -/
def FailsRun (s : DagExec) (step : WorkflowStep) (reply : Reply) : Prop :=
  step.errorMode = .fail ∧ (s.depFailed step = true ∨ ¬ reply.Answers)

/-- The results loop comes to the step: none in front fails the run. -/
def Reached (s : DagExec) (front : List WorkflowStep) (step : WorkflowStep)
    (rest : List WorkflowStep) : Prop :=
  ∀ k f, front[k]? = some f →
    ¬ FailsRun s f (env.reply (sentThrough env input s (front ++ step :: rest) k).length)

/-- The step does not have to be asked again. -/
def AskedOnce (s : DagExec) (step : WorkflowStep) (first : Reply) : Prop :=
  s.depFailed step = false → ∀ maxRetries, step.errorMode = .retry maxRetries → 0 < maxRetries →
    first.Answers

/-- The agent of the step is not found, and no dependency has failed; or all agents are found, and
the step is asked once, or it fails the run as a step in front does. -/
def TreatedAlike (s : DagExec) (front : List WorkflowStep) (step : WorkflowStep)
    (rest : List WorkflowStep) (first : Reply) : Prop :=
  (env.agentResolver step.agent = none ∧ s.depFailed step = false) ∨
    (env.agentResolver step.agent ≠ none ∧ SiblingsFound env front rest ∧
      (Reached env input s front step rest ∧ AskedOnce s step first ∨
        ¬ Reached env input s front step rest ∧ FailsRun s step first))

/-! ## The futures of a layer -/

variable {env input} {s : DagExec} {front rest : List WorkflowStep} {step : WorkflowStep}
  {fs : List LayerCall}

theorem length_layerCalls (h : layerCalls env input s front = .ok fs) :
    fs.length = front.length := by
  induction front generalizing fs with
  | nil =>
    cases h
    rfl
  | cons f front ih =>
    unfold layerCalls at h
    split at h
    · cases h
    · split at h
      · cases h
        exact congrArg (· + 1) (ih ‹_›)
      · cases h

theorem layerCalls_append (h : layerCalls env input s front = .ok fs) :
    layerCalls env input s (front ++ rest) =
      match layerCalls env input s rest with
      | .ok gs => .ok (fs ++ gs)
      | .error missing => .error missing := by
  induction front generalizing fs with
  | nil =>
    cases h
    rw [List.nil_append]
    cases layerCalls env input s rest <;> rfl
  | cons f front ih =>
    rw [layerCalls] at h
    rw [List.cons_append, layerCalls]
    cases hagent : env.agentResolver f.agent with
    | none =>
      rw [hagent] at h
      cases h
    | some agent =>
      rw [hagent] at h
      dsimp only at h ⊢
      cases hfront : layerCalls env input s front with
      | error missing =>
        rw [hfront] at h
        cases h
      | ok gs =>
        rw [hfront] at h
        cases h
        rw [ih hfront]
        cases layerCalls env input s rest <;> rfl

theorem joinLayer_append (fs gs : List LayerCall) (calls : List Call) :
    joinLayer env (fs ++ gs) calls =
      ((joinLayer env fs calls).1 ++ (joinLayer env gs (joinLayer env fs calls).2).1,
        (joinLayer env gs (joinLayer env fs calls).2).2) := by
  induction fs generalizing calls with
  | nil => rfl
  | cons f fs ih =>
    rw [List.cons_append, joinLayer, joinLayer]
    split_ifs <;> dsimp only <;> rw [ih] <;> rfl

theorem length_joinLayer (fs : List LayerCall) (calls : List Call) :
    (joinLayer env fs calls).1.length = fs.length := by
  induction fs generalizing calls with
  | nil => rfl
  | cons f fs ih =>
    rw [joinLayer]
    split_ifs <;> exact congrArg (· + 1) (ih _)

/-- The future of the step. -/
def futureOf (env : Env) (input : String) (s : DagExec) (step : WorkflowStep)
    (agent : String × String × Bool) : LayerCall :=
  ⟨step, agent.1, agent.2.1, if s.depFailed step then "" else s.prompt env input step,
    s.depFailed step⟩

/-- The result of a future, when these messages have been sent. -/
def LayerCall.resultAt (env : Env) (f : LayerCall) (calls : List Call) :
    Except String (Option (String × ℕ × ℕ)) :=
  if f.depFailed then
    if f.step.errorMode = .fail then .error (dependencyFailed f.step) else .ok none
  else f.result (env.reply calls.length)

/-- The messages when that of a future has been sent. -/
def LayerCall.sent (f : LayerCall) (calls : List Call) : List Call :=
  if f.depFailed then calls else calls ++ [⟨f.agentId, f.prompt⟩]

theorem joinLayer_cons (f : LayerCall) (fs : List LayerCall) (calls : List Call) :
    joinLayer env (f :: fs) calls = ((f, f.resultAt env calls) :: (joinLayer env fs (f.sent calls)).1,
      (joinLayer env fs (f.sent calls)).2) := by
  rw [joinLayer, LayerCall.resultAt, LayerCall.sent]
  split_ifs <;> rfl

/-- The result of a future is an error. -/
def LayerCall.FailsRun (f : LayerCall) (reply : Reply) : Prop :=
  f.step.errorMode = .fail ∧ (f.depFailed = true ∨ ¬ reply.Answers)

theorem resultAt_error_iff (f : LayerCall) (calls : List Call) :
    (∃ e, f.resultAt env calls = .error e) ↔ f.FailsRun (env.reply calls.length) := by
  unfold LayerCall.resultAt LayerCall.result LayerCall.FailsRun Reply.Answers
  cases f.depFailed <;> cases env.reply calls.length <;> by_cases hmode : f.step.errorMode = .fail <;>
    simp [hmode]

theorem exists_error_iff (fs : List LayerCall) (calls : List Call) :
    (∃ entry ∈ (joinLayer env fs calls).1, ∃ e, entry.2 = .error e) ↔
      ∃ (k : ℕ) (f : LayerCall), fs[k]? = some f ∧
        f.FailsRun (env.reply (joinLayer env (fs.take k) calls).2.length) := by
  induction fs generalizing calls with
  | nil => simp [joinLayer]
  | cons f fs ih =>
    rw [joinLayer_cons, List.exists_mem_cons_iff, ih, resultAt_error_iff]
    constructor
    · rintro (h | ⟨k, g, hg, h⟩)
      · exact ⟨0, f, rfl, h⟩
      · refine ⟨k + 1, g, hg, ?_⟩
        rwa [List.take_succ_cons, joinLayer_cons]
    · rintro ⟨_ | k, g, hg, h⟩
      · obtain rfl := Option.some.inj hg
        exact .inl h
      · rw [List.take_succ_cons, joinLayer_cons] at h
        exact .inr ⟨k, g, hg, h⟩

theorem layerResults_ok_iff
    (entries : List (LayerCall × Except String (Option (String × ℕ × ℕ)))) (s : DagExec) :
    (∃ t, layerResults entries s = .ok t) ↔ ∀ entry ∈ entries, ∀ e, entry.2 ≠ .error e := by
  induction entries generalizing s with
  | nil => exact iff_of_true ⟨s, rfl⟩ fun _ h => absurd h List.not_mem_nil
  | cons entry entries ih =>
    rw [List.forall_mem_cons]
    obtain ⟨f, e | _ | ⟨output, inputTokens, outputTokens⟩⟩ := entry
    · exact iff_of_false (fun ⟨t, h⟩ => by cases h) fun h => h.1 e rfl
    · exact (ih _).trans (and_iff_right fun _ => nofun).symm
    · exact (ih _).trans (and_iff_right fun _ => nofun).symm

theorem getElem?_layerCalls (h : layerCalls env input s front = .ok fs)
    (k : ℕ) : fs[k]?.map (fun f => (f.step, f.depFailed)) =
      front[k]?.map fun f => (f, s.depFailed f) := by
  induction front generalizing fs k with
  | nil =>
    cases h
    rfl
  | cons f front ih =>
    unfold layerCalls at h
    split at h
    · cases h
    · split at h
      · cases h
        cases k with
        | zero => rfl
        | succ k => exact ih ‹_› k
      · cases h

/-- A shared layer whose agents are found. -/
structure Found (env : Env) (input : String) (s : DagExec) (front : List WorkflowStep)
    (step : WorkflowStep) (rest : List WorkflowStep) (agent : String × String × Bool)
    (fs : List LayerCall) : Prop where
  before : layerCalls env input s front = .ok fs
  whole : ∃ gs, layerCalls env input s (front ++ step :: rest) =
    .ok (fs ++ futureOf env input s step agent :: gs)

variable {agent : String × String × Bool}

theorem exists_found (hfound : SiblingsFound env front rest)
    (hagent : env.agentResolver step.agent = some agent) :
    ∃ fs, Found env input s front step rest agent fs := by
  obtain ⟨fs, hfs⟩ := layerCalls_ok input s fun f hf => hfound f (List.mem_append_left _ hf)
  obtain ⟨gs, hgs⟩ := layerCalls_ok input s fun f hf => hfound f (List.mem_append_right _ hf)
  refine ⟨fs, hfs, gs, ?_⟩
  rw [layerCalls_append hfs, layerCalls, hagent, hgs]
  rfl

section Found

variable {agent : String × String × Bool} {fs : List LayerCall}

theorem Found.sentThrough (h : Found env input s front step rest agent fs) {k : ℕ}
    (hk : k ≤ front.length) : sentThrough env input s (front ++ step :: rest) k =
      (joinLayer env (fs.take k) s.calls).2 := by
  obtain ⟨gs, hgs⟩ := h.whole
  rw [Engine.sentThrough, hgs]
  dsimp only
  rw [List.take_append_of_le_length (by rwa [length_layerCalls h.before])]

theorem Found.sentThrough_length (h : Found env input s front step rest agent fs) :
    Engine.sentThrough env input s (front ++ step :: rest) front.length =
      (joinLayer env fs s.calls).2 := by
  rw [h.sentThrough le_rfl, ← length_layerCalls h.before, List.take_length]

theorem Found.sentThrough_succ (h : Found env input s front step rest agent fs) :
    Engine.sentThrough env input s (front ++ step :: rest) (front.length + 1) =
      (futureOf env input s step agent).sent (joinLayer env fs s.calls).2 := by
  obtain ⟨gs, hgs⟩ := h.whole
  have hlength := length_layerCalls h.before
  rw [Engine.sentThrough, hgs]
  dsimp only
  rw [List.take_append, ← hlength, List.take_of_length_le (Nat.le_succ _), Nat.add_sub_cancel_left,
    List.take_succ_cons, List.take_zero, joinLayer_append]
  dsimp only
  rw [joinLayer_cons]
  rfl

theorem Found.runThrough (h : Found env input s front step rest agent fs) : ∃ calls,
    Engine.runThrough env input s (front ++ step :: rest) front.length =
        layerResults (joinLayer env fs s.calls).1 { s with calls } ∧
      Engine.runThrough env input s (front ++ step :: rest) (front.length + 1) =
        layerResults (joinLayer env fs s.calls).1 { s with calls } >>= fun t =>
          settle t (futureOf env input s step agent,
            (futureOf env input s step agent).resultAt env (joinLayer env fs s.calls).2) := by
  obtain ⟨gs, hgs⟩ := h.whole
  have hlength : front.length = (joinLayer env fs s.calls).1.length := by
    rw [length_joinLayer, length_layerCalls h.before]
  have hjoin := @joinLayer_append env fs (futureOf env input s step agent :: gs) s.calls
  rw [joinLayer_cons] at hjoin
  refine ⟨(joinLayer env (fs ++ futureOf env input s step agent :: gs) s.calls).2, ?_, ?_⟩
  · rw [Engine.runThrough, hgs]
    dsimp only
    rw [hjoin]
    dsimp only
    rw [hlength, List.take_left]
  · rw [Engine.runThrough, hgs]
    dsimp only
    rw [hjoin]
    dsimp only
    rw [hlength, List.take_append, List.take_of_length_le (Nat.le_succ _), Nat.add_sub_cancel_left,
      List.take_succ_cons, List.take_zero, layerResults_append]
    congr
    funext t
    rw [layerResults_eq, List.foldlM_cons]
    exact bind_pure _

end Found

/-! ## The two paths -/

theorem length_attempts (step : WorkflowStep) (agentId prompt : String) (retries : ℕ)
    (calls : List Call) :
    calls.length < (attempts env step agentId prompt retries calls).2.length := by
  have hone (calls : List Call) :
      (attempt env step agentId prompt calls).2 = calls ++ [⟨agentId, prompt⟩] := by
    unfold attempt Env.sendMessage
    cases env.reply calls.length <;> rfl
  induction retries generalizing calls with
  | zero =>
    rw [attempts, hone, List.length_append]
    exact Nat.lt_succ_self _
  | succ retries ih =>
    rw [attempts]
    have hfirst := hone calls
    split
    · rename_i hattempt
      rw [hattempt] at hfirst
      dsimp only at hfirst ⊢
      rw [hfirst, List.length_append]
      exact Nat.lt_succ_self _
    · rename_i hattempt
      rw [hattempt] at hfirst
      dsimp only at hfirst
      have hlater := ih (calls ++ [⟨agentId, prompt⟩])
      rw [List.length_append] at hlater
      rw [hfirst]
      exact Nat.lt_of_succ_lt hlater

/-- The replies to a step that has a layer of its own. -/
def Env.answering (env : Env) (s : DagExec) (replies : ℕ → Reply) : Env :=
  { env with reply := fun k => replies (k - s.calls.length) }

variable {replies : ℕ → Reply}

theorem reply_answering (env : Env) (s : DagExec) (replies : ℕ → Reply) :
    (env.answering s replies).reply s.calls.length = replies 0 :=
  congrArg replies (Nat.sub_self _)

/-- **A step that is asked once** comes to the same result as the future of a shared layer, except
that it reports a failure in its own words, and fails where the future has skipped it. -/
theorem execute_once (f : LayerCall) (agentId prompt : String) (calls : List Call)
    (honce : ∀ maxRetries, f.step.errorMode = .retry maxRetries → 0 < maxRetries →
      ∃ output inputTokens outputTokens,
        env.reply calls.length = .completed output inputTokens outputTokens) :
    ∃ result, executeStepWithErrorMode env f.step agentId prompt calls =
        (result, calls ++ [⟨agentId, prompt⟩]) ∧
      match result with
      | .ok answer => f.result (env.reply calls.length) = .ok answer
      | .error _ =>
        if f.step.errorMode = .fail then ∃ e, f.result (env.reply calls.length) = .error e
        else f.result (env.reply calls.length) = .ok none := by
  unfold executeStepWithErrorMode LayerCall.result
  cases hmode : f.step.errorMode with
  | fail =>
    dsimp only [Env.sendMessage]
    cases env.reply calls.length with
    | completed output inputTokens outputTokens => exact ⟨_, rfl, rfl⟩
    | failed e => exact ⟨_, rfl, _, rfl⟩
    | timedOut => exact ⟨_, rfl, _, rfl⟩
  | skip =>
    dsimp only [attempt, Env.sendMessage]
    cases env.reply calls.length with
    | completed output inputTokens outputTokens => exact ⟨_, rfl, rfl⟩
    | failed e => exact ⟨_, rfl, rfl⟩
    | timedOut => exact ⟨_, rfl, rfl⟩
  | retry maxRetries =>
    cases maxRetries with
    | zero =>
      dsimp only [attempts, attempt, Env.sendMessage]
      cases env.reply calls.length with
      | completed output inputTokens outputTokens => exact ⟨_, rfl, rfl⟩
      | failed e => exact ⟨_, rfl, rfl⟩
      | timedOut => exact ⟨_, rfl, rfl⟩
    | succ maxRetries =>
      obtain ⟨output, inputTokens, outputTokens, hreply⟩ := honce _ hmode (Nat.succ_pos _)
      dsimp only [attempts, attempt, Env.sendMessage]
      rw [hreply]
      exact ⟨_, rfl, rfl⟩

theorem execute_again {maxRetries : ℕ} (hmode : step.errorMode = .retry maxRetries)
    (hpos : 0 < maxRetries) (agentId prompt : String) (calls : List Call)
    (hreply : ¬ ∃ output inputTokens outputTokens,
      env.reply calls.length = .completed output inputTokens outputTokens) :
    calls.length + 1 < (executeStepWithErrorMode env step agentId prompt calls).2.length := by
  obtain ⟨maxRetries, rfl⟩ := Nat.exists_eq_add_one_of_ne_zero (Nat.ne_of_gt hpos)
  have hlater := @length_attempts env step agentId prompt maxRetries
    (calls ++ [⟨agentId, prompt⟩])
  rw [List.length_append, List.length_singleton] at hlater
  have hcalls : (executeStepWithErrorMode env step agentId prompt calls).2 =
      (attempts env step agentId prompt maxRetries (calls ++ [⟨agentId, prompt⟩])).2 := by
    unfold executeStepWithErrorMode
    rw [hmode]
    dsimp only [attempts, attempt, Env.sendMessage]
    cases hfirst : env.reply calls.length with
    | completed output inputTokens outputTokens => exact absurd ⟨_, _, _, hfirst⟩ hreply
    | failed e => dsimp only; split <;> rename_i h <;> rw [h]
    | timedOut => dsimp only; split <;> rename_i h <;> rw [h]
  rwa [hcalls]

theorem runSingle_asked
    (hagent : env.agentResolver step.agent = some agent) (hdep : s.depFailed step = false) :
    runSingle env input s step =
      match executeStepWithErrorMode env step agent.1 (s.prompt env input step) s.calls with
      | (.error e, calls) =>
        if step.errorMode = .fail then (({ s with calls } : DagExec).markFailed step).fail e
        else .ok (({ s with calls } : DagExec).markFailed step)
      | (result, calls) => settle { s with calls } (futureOf env input s step agent, result) := by
  have hfuture : futureOf env input s step agent =
      ⟨step, agent.1, agent.2.1, s.prompt env input step, false⟩ := by
    unfold futureOf
    rw [hdep]
    rfl
  unfold runSingle
  rw [hdep, hagent, hfuture, if_neg Bool.false_ne_true]
  dsimp only
  rcases executeStepWithErrorMode env step agent.1 (s.prompt env input step) s.calls with
    ⟨e | _ | ⟨output, inputTokens, outputTokens⟩, calls⟩
  · rfl
  · rfl
  · rfl

/-- The messages sent when a layer has come to an end. -/
def sentCalls : DagFlow → List Call
  | .ok s => s.calls
  | .error (_, s) => s.calls

theorem sentCalls_settle (entry : LayerCall × Except String (Option (String × ℕ × ℕ))) :
    sentCalls (settle s entry) = s.calls := by
  obtain ⟨f, e | _ | ⟨output, inputTokens, outputTokens⟩⟩ := entry <;> rfl

theorem sentCalls_runSingle
    (hagent : env.agentResolver step.agent = some agent) (hdep : s.depFailed step = false) :
    sentCalls (runSingle env input s step) =
      (executeStepWithErrorMode env step agent.1 (s.prompt env input step) s.calls).2 := by
  rw [runSingle_asked hagent hdep]
  split
  · rename_i e calls h
    rw [h]
    split_ifs <;> rfl
  · rename_i result calls _ h
    rw [h, sentCalls_settle]

theorem length_execute (step : WorkflowStep) (agentId prompt : String) (calls : List Call) :
    calls.length < (executeStepWithErrorMode env step agentId prompt calls).2.length := by
  unfold executeStepWithErrorMode
  cases step.errorMode with
  | fail =>
    dsimp only [Env.sendMessage]
    cases env.reply calls.length <;> exact List.length_append.symm ▸ Nat.lt_succ_self _
  | skip =>
    dsimp only [attempt, Env.sendMessage]
    cases env.reply calls.length <;> exact List.length_append.symm ▸ Nat.lt_succ_self _
  | retry maxRetries =>
    have hattempts := @length_attempts env step agentId prompt maxRetries calls
    dsimp only
    generalize attempts env step agentId prompt maxRetries calls = tried at hattempts ⊢
    rcases tried with ⟨_ | _, calls'⟩
    · exact hattempts
    · exact hattempts

/-! ## The same handling -/

/-- What the results loop makes of a result. -/
def handlingOf : LayerCall × Except String (Option (String × ℕ × ℕ)) → Handling
  | (f, .ok (some (output, inputTokens, outputTokens))) =>
    .stored { stepName := f.step.name, agentId := f.agentId, agentName := f.agentName,
              prompt := f.prompt, output, inputTokens, outputTokens }
  | (_, .ok none) => .marked
  | (_, .error _) => .runFailed

theorem handles_settle (entry : LayerCall × Except String (Option (String × ℕ × ℕ))) :
    Handles s entry.1.step (settle s entry) (handlingOf entry) := by
  obtain ⟨f, e | _ | ⟨output, inputTokens, outputTokens⟩⟩ := entry
  · exact ⟨e, _, rfl, rfl, rfl⟩
  · exact rfl
  · exact rfl

theorem record_injective {r r' : StepResult} (h : s.record step r = s.record step r') : r = r' :=
  List.singleton_inj.mp
    (List.append_cancel_left (congrArg (fun t : DagExec => t.run.stepResults) h))

theorem record_ne_markFailed (r : StepResult) : s.record step r ≠ s.markFailed step := by
  intro h
  have hlength := congrArg (fun t : DagExec => t.run.stepResults.length) h
  simp [DagExec.record, DagExec.markFailed] at hlength

/-- A stored result makes the list of results longer, and only a failed run has failed. -/
theorem Handles.unique {flow : DagFlow} {handling handling' : Handling}
    (hrunning : s.run.state = .running) (h : Handles s step flow handling)
    (h' : Handles s step flow handling') : handling = handling' := by
  cases handling <;> cases handling' <;>
    grind [Handles, DagExec.agentNotFound, → record_injective, record_ne_markFailed]

theorem Handles.sentCalls {flow : DagFlow} {handling : Handling} (h : Handles s step flow handling) :
    sentCalls flow = s.calls := by
  cases handling with
  | stored result => rw [show flow = _ from h]; rfl
  | marked => rw [show flow = _ from h]; rfl
  | runFailed =>
    obtain ⟨e, after, rfl, -, hcalls⟩ := h
    exact hcalls
  | agentNotFound =>
    obtain ⟨missing, rfl⟩ := h
    rfl

/-- The messages of a step whose agent is found, in a layer that it shares. -/
def ownCalls (env : Env) (input : String) (s : DagExec) (step : WorkflowStep)
    (agent : String × String × Bool) : List Call :=
  if s.depFailed step then [] else [⟨agent.1, s.prompt env input step⟩]

theorem sent_futureOf (agent : String × String × Bool) (calls : List Call) :
    (futureOf env input s step agent).sent calls = calls ++ ownCalls env input s step agent := by
  unfold LayerCall.sent futureOf ownCalls
  cases s.depFailed step
  · rfl
  · exact (List.append_nil calls).symm

theorem reached_iff
    (h : Found env input s front step rest agent fs) :
    Reached env input s front step rest ↔
      ∀ entry ∈ (joinLayer env fs s.calls).1, ∀ e, entry.2 ≠ .error e := by
  have hplace (k : ℕ) (f : WorkflowStep) (hf : front[k]? = some f) :
      ∃ g, fs[k]? = some g ∧ g.step = f ∧ g.depFailed = s.depFailed f := by
    have hmap := getElem?_layerCalls h.before k
    rw [hf] at hmap
    obtain ⟨g, hg, hpair⟩ := Option.map_eq_some_iff.mp hmap
    exact ⟨g, hg, Prod.mk.inj hpair⟩
  have hsent (k : ℕ) (f : WorkflowStep) (hf : front[k]? = some f) :=
    h.sentThrough (List.getElem?_eq_some_iff.mp hf).1.le
  rw [← not_iff_not]
  unfold Reached
  push Not
  rw [exists_error_iff]
  constructor
  · rintro ⟨k, f, hf, hmode, hfails⟩
    obtain ⟨g, hg, hstep, hdep⟩ := hplace k f hf
    rw [hsent k f hf] at hfails
    exact ⟨k, g, hg, hstep ▸ hmode, hdep ▸ hfails⟩
  · rintro ⟨k, g, hg, hmode, hfails⟩
    have hmap := getElem?_layerCalls h.before k
    rw [hg] at hmap
    obtain ⟨f, hf, -⟩ := Option.map_eq_some_iff.mp hmap.symm
    obtain ⟨g', hg', hstep, hdep⟩ := hplace k f hf
    obtain rfl := Option.some.inj (hg.symm.trans hg')
    refine ⟨k, f, hf, hstep ▸ hmode, ?_⟩
    rw [hsent k f hf]
    exact hdep ▸ hfails

/-- The result of the future of the step, whose first reply this is. -/
def ownResult (s : DagExec) (step : WorkflowStep) (f : LayerCall) (first : Reply) :
    Except String (Option (String × ℕ × ℕ)) :=
  if s.depFailed step then
    if step.errorMode = .fail then .error (dependencyFailed step) else .ok none
  else f.result first

variable (env input s front rest step replies) in
/-- **The handling of a step** whose agent and siblings' agents are found is that of its result,
unless a step in front has failed the run. -/
theorem handledTogether_iff (hrunning : s.run.state = .running)
    (hfound : SiblingsFound env front rest) (hagent : env.agentResolver step.agent = some agent)
    (hreply : env.reply (sentThrough env input s (front ++ step :: rest) front.length).length =
      replies 0) (own : List Call) (handling : Handling) :
    HandledTogether env input s front step rest own handling ↔
      own = ownCalls env input s step agent ∧
        (Reached env input s front step rest ∧ handling = handlingOf (futureOf env input s step agent,
            ownResult s step (futureOf env input s step agent) (replies 0)) ∨
          ¬ Reached env input s front step rest ∧ handling = .runFailed) := by
  obtain ⟨fs, h⟩ := @exists_found env input s front rest step agent hfound hagent
  obtain ⟨calls, hbefore, hafter⟩ := h.runThrough
  rw [h.sentThrough_length] at hreply
  have hresult : (futureOf env input s step agent).resultAt env (joinLayer env fs s.calls).2 =
      ownResult s step (futureOf env input s step agent) (replies 0) := by
    unfold LayerCall.resultAt ownResult
    rw [hreply]
    rfl
  unfold HandledTogether
  dsimp only
  rw [h.sentThrough_length, h.sentThrough_succ, sent_futureOf, List.append_cancel_left_eq, hbefore,
    hafter, hresult]
  refine and_congr eq_comm ?_
  cases hresults : layerResults (joinLayer env fs s.calls).1 { s with calls } with
  | ok t =>
    have hreached : Reached env input s front step rest :=
      (reached_iff h).mpr ((layerResults_ok_iff _ _).mp ⟨t, hresults⟩)
    have hstate : t.run.state = .running := (layerResults_state hresults).trans hrunning
    have hsettled := @handles_settle t (futureOf env input s step agent,
      ownResult s step (futureOf env input s step agent) (replies 0))
    simp only [hreached, true_and, not_true_eq_false, false_and, or_false]
    constructor
    · exact fun hhandles => Handles.unique hstate hhandles hsettled
    · rintro rfl
      exact hsettled
  | error stopped =>
    obtain ⟨e, after⟩ := stopped
    have hreached : ¬ Reached env input s front step rest := fun hreached => by
      obtain ⟨t, ht⟩ := (layerResults_ok_iff _ _).mpr ((reached_iff h).mp hreached)
      cases hresults.symm.trans ht
    dsimp only
    rw [if_pos (layerResults_error hresults).1]
    simp only [hreached, false_and, not_false_eq_true, true_and, false_or]

/-- **An agent that is not found** ends the call before any message. -/
theorem handledTogether_of_missing (hrunning : s.run.state = .running)
    (hmissing : ∃ f ∈ front ++ step :: rest, env.agentResolver f.agent = none) (own : List Call)
    (handling : Handling) : HandledTogether env input s front step rest own handling ↔
      own = [] ∧ handling = .agentNotFound := by
  obtain ⟨missing, hcalls⟩ := layerCalls_error input s hmissing
  unfold HandledTogether sentThrough runThrough
  dsimp only
  rw [hcalls]
  dsimp only [DagExec.agentNotFound]
  rw [hrunning, if_neg (by decide), List.self_eq_append_right]

/-! ### A layer of its own -/

theorem handledAlone_of_depFailed (hdep : s.depFailed step = true) :
    HandledAlone env input s step [] (if step.errorMode = .fail then .runFailed else .marked) := by
  unfold HandledAlone runSingle
  rw [if_pos hdep, List.append_nil]
  split_ifs
  · exact ⟨_, _, rfl, rfl, rfl⟩
  · exact rfl

theorem HandledAlone.unique (hrunning : s.run.state = .running) {own : List Call}
    {handling handling' : Handling} (h : HandledAlone env input s step own handling)
    (h' : HandledAlone env input s step own handling') : handling = handling' := by
  have hstate : ({ s with calls := s.calls ++ own } : DagExec).run.state = .running := hrunning
  exact Handles.unique hstate h h'

/-- **A step that is asked once** is handled by its result. -/
theorem handledAlone_of_askedOnce
    (hagent : env.agentResolver step.agent = some agent) (honce : AskedOnce s step (replies 0)) :
    HandledAlone (env.answering s replies) input s step (ownCalls env input s step agent)
      (handlingOf (futureOf env input s step agent,
        ownResult s step (futureOf env input s step agent) (replies 0))) := by
  cases hdep : s.depFailed step with
  | true =>
    unfold ownCalls ownResult
    rw [if_pos hdep, if_pos hdep]
    have halone := @handledAlone_of_depFailed (env.answering s replies) input s step hdep
    split_ifs at halone ⊢ <;> exact halone
  | false =>
    have hagent' : (env.answering s replies).agentResolver step.agent = some agent := hagent
    have hprompt : s.prompt (env.answering s replies) input step = s.prompt env input step := rfl
    have hfuture : futureOf (env.answering s replies) input s step agent =
        futureOf env input s step agent := rfl
    have hfirst := reply_answering env s replies
    have hnot : ¬ s.depFailed step = true := by rw [hdep]; exact Bool.false_ne_true
    unfold HandledAlone ownCalls ownResult
    rw [if_neg hnot, if_neg hnot, runSingle_asked hagent' hdep, hprompt, hfuture]
    obtain ⟨result, hexecute, hresult⟩ := @execute_once (env.answering s replies)
      (futureOf env input s step agent) agent.1 (s.prompt env input step) s.calls
      (by rw [hfirst]; exact honce hdep)
    have hstep : (futureOf env input s step agent).step = step := rfl
    rw [hfirst, hstep] at hresult
    rw [hstep] at hexecute
    rw [hexecute]
    cases result with
    | error e =>
      dsimp only at hresult ⊢
      split_ifs at hresult ⊢
      · obtain ⟨e', hresult⟩ := hresult
        rw [hresult]
        exact ⟨_, _, rfl, rfl, rfl⟩
      · rw [hresult]
        exact rfl
    | ok answer =>
      dsimp only at hresult
      rw [hresult]
      exact handles_settle (futureOf env input s step agent, .ok answer)

theorem askedOnce_of_alone {handling : Handling}
    (hagent : env.agentResolver step.agent = some agent)
    (h : HandledAlone (env.answering s replies) input s step (ownCalls env input s step agent)
      handling) : AskedOnce s step (replies 0) := by
  intro hdep maxRetries hmode hpos
  by_contra hnot
  have hagent' : (env.answering s replies).agentResolver step.agent = some agent := hagent
  rw [← reply_answering env s replies] at hnot
  have hmore := execute_again hmode hpos agent.1
    (s.prompt (env.answering s replies) input step) s.calls hnot
  rw [← sentCalls_runSingle hagent' hdep, h.sentCalls, ownCalls, hdep] at hmore
  dsimp only at hmore
  rw [if_neg Bool.false_ne_true, List.length_append] at hmore
  exact Nat.lt_irrefl _ hmore

theorem handlingOf_eq_runFailed_iff (f : LayerCall)
    (result : Except String (Option (String × ℕ × ℕ))) :
    handlingOf (f, result) = .runFailed ↔ ∃ e, result = .error e := by
  rcases result with e | _ | ⟨output, inputTokens, outputTokens⟩ <;> simp [handlingOf]

theorem ownResult_error_iff (agent : String × String × Bool) (first : Reply) :
    (∃ e, ownResult s step (futureOf env input s step agent) first = .error e) ↔
      FailsRun s step first := by
  unfold ownResult LayerCall.result FailsRun Reply.Answers futureOf
  cases s.depFailed step <;> cases first <;> by_cases hmode : step.errorMode = .fail <;>
    simp [hmode]

theorem not_alone_agentNotFound
    (hrunning : s.run.state = .running) (hagent : env.agentResolver step.agent = some agent) :
    ¬ HandledAlone env input s step [] .agentNotFound := by
  intro h
  cases hdep : s.depFailed step with
  | true =>
    have hdiffer := h.unique hrunning (handledAlone_of_depFailed hdep)
    split_ifs at hdiffer
  | false =>
    have hmore := @length_execute env step agent.1 (s.prompt env input step) s.calls
    rw [← sentCalls_runSingle hagent hdep, h.sentCalls, List.append_nil] at hmore
    exact Nat.lt_irrefl _ hmore

variable (env input s front rest step replies)

/-- **A step is treated alike in a layer of its own and in a layer that it shares** exactly if its
agent is not found and no dependency has failed, or all agents are found and it is asked once, or
fails the run itself where a step in front does. -/
theorem sameHandling_iff (hrunning : s.run.state = .running)
    (hreply : env.reply (sentThrough env input s (front ++ step :: rest) front.length).length =
      replies 0) :
    (∃ own handling, HandledAlone (env.answering s replies) input s step own handling ∧
        HandledTogether env input s front step rest own handling) ↔
      TreatedAlike env input s front step rest (replies 0) := by
  unfold TreatedAlike
  cases hagent : env.agentResolver step.agent with
  | none =>
    have hmissing : ∃ f ∈ front ++ step :: rest, env.agentResolver f.agent = none :=
      ⟨step, List.mem_append_right _ List.mem_cons_self, hagent⟩
    simp only [handledTogether_of_missing hrunning hmissing, ne_eq, not_true_eq_false, false_and,
      or_false, true_and]
    constructor
    · rintro ⟨own, handling, halone, rfl, rfl⟩
      by_contra hdep
      rw [Bool.not_eq_false] at hdep
      have hdiffer := halone.unique hrunning (handledAlone_of_depFailed hdep)
      split_ifs at hdiffer
    · intro hdep
      refine ⟨[], .agentNotFound, ⟨step, ?_⟩, rfl, rfl⟩
      have hagent' : (env.answering s replies).agentResolver step.agent = none := hagent
      rw [runSingle, hdep, hagent', List.append_nil]
      rfl
  | some agent =>
    simp only [reduceCtorEq, false_and, false_or, ne_eq, not_false_eq_true, true_and]
    by_cases hfound : SiblingsFound env front rest
    · simp only [handledTogether_iff env input s front rest step replies hrunning hfound hagent
        hreply, hfound, true_and]
      by_cases hreached : Reached env input s front step rest
      · simp only [hreached, true_and, not_true_eq_false, false_and, or_false]
        constructor
        · rintro ⟨own, handling, halone, rfl, -⟩
          exact askedOnce_of_alone hagent halone
        · intro honce
          exact ⟨_, _, handledAlone_of_askedOnce hagent honce, rfl, rfl⟩
      · simp only [hreached, false_and, not_false_eq_true, true_and, false_or]
        rw [← @ownResult_error_iff env input s step agent, ← handlingOf_eq_runFailed_iff]
        constructor
        · rintro ⟨own, handling, halone, rfl, rfl⟩
          have honce := askedOnce_of_alone hagent halone
          exact (handledAlone_of_askedOnce hagent honce).unique hrunning halone
        · intro hfails
          have honce : AskedOnce s step (replies 0) := fun _ maxRetries hretry _ => by
            rw [handlingOf_eq_runFailed_iff, ownResult_error_iff] at hfails
            rw [hfails.1] at hretry
            cases hretry
          exact ⟨_, _, hfails ▸ handledAlone_of_askedOnce hagent honce, rfl, rfl⟩
    · obtain ⟨f, hf, hnone⟩ : ∃ f ∈ front ++ rest, env.agentResolver f.agent = none := by
        unfold SiblingsFound at hfound
        push Not at hfound
        exact hfound
      have hmissing : ∃ f ∈ front ++ step :: rest, env.agentResolver f.agent = none :=
        ⟨f, List.perm_middle.symm.subset (List.mem_cons_of_mem _ hf), hnone⟩
      simp only [handledTogether_of_missing hrunning hmissing, hfound, false_and, iff_false]
      rintro ⟨own, handling, halone, rfl, rfl⟩
      have hagent' : (env.answering s replies).agentResolver step.agent = some agent := hagent
      exact not_alone_agentNotFound hrunning hagent' halone

/-- The first message fails, and every later one is answered. -/
def flakyReplies : ℕ → Reply
  | 0 => .failed "busy"
  | _ => .completed "done" 1 1

/-- An agent that fails once. -/
def flakyEnv : Env := { sampleEnv with reply := flakyReplies }

/-- The executor before its first layer. -/
def sampleDagStart : DagExec where
  vars := []
  failedSteps := []
  lastOutput := "go"
  run := { createRun (sampleWorkflow .sequential .sequential) "run-1" "go" with state := .running }
  calls := []

/-- A step that may be retried once. -/
def retriedStep : WorkflowStep := { sampleStep "first" .sequential with errorMode := .retry 1 }

theorem sameHandling_iff_retriedStep :
    (∃ own handling, HandledAlone (flakyEnv.answering sampleDagStart flakyReplies) "go"
        sampleDagStart retriedStep own handling ∧
      HandledTogether flakyEnv "go" sampleDagStart [] retriedStep [sampleStep "second" .sequential]
        own handling) ↔
    TreatedAlike flakyEnv "go" sampleDagStart [] retriedStep [sampleStep "second" .sequential]
      (flakyReplies 0) :=
  sameHandling_iff flakyEnv "go" sampleDagStart [] _ retriedStep flakyReplies rfl rfl

/-- Alone the step is asked again, and its answer is stored; beside another step it fails. -/
theorem retriedStep_not_sameHandling :
    ¬ ∃ own handling, HandledAlone (flakyEnv.answering sampleDagStart flakyReplies) "go"
        sampleDagStart retriedStep own handling ∧
      HandledTogether flakyEnv "go" sampleDagStart [] retriedStep [sampleStep "second" .sequential]
        own handling := by
  rintro ⟨own, handling, halone, htogether⟩
  obtain ⟨rfl, -⟩ := (handledTogether_iff flakyEnv "go" sampleDagStart []
    [sampleStep "second" .sequential] retriedStep flakyReplies rfl (fun _ _ => Option.some_ne_none _)
    rfl rfl own handling).mp htogether
  obtain ⟨output, inputTokens, outputTokens, hreply⟩ :=
    askedOnce_of_alone rfl halone rfl 1 rfl Nat.one_pos
  cases hreply

end LibreFang.Engine
