import LibreFang.Engine.Sequential
import LibreFang.Lib.Slots
import LibreFang.Lib.Table
import Mathlib.Data.List.Perm.Basic
import Mathlib.Data.List.Nodup

/-!
# Placeholders in prompts

`expand_variables` replaces one placeholder after the other, in the order in which the map of the
variables is iterated.

* `piecesOf`, `simultaneous`: the slots of a template, and the template with all of them filled.
* `ReplacesOwn`: every replacement is of the template's own placeholders, and of all of them.
* `Apart`: with any of the slots filled, the other placeholders are found just where the template
  has them.
* **`expandVariables_iff_apart`**: the expansion is the simultaneous one in every order, and never
  expands a value, exactly if the placeholders are apart.
* **`sequentialLoop_order`**: a run whose prompts are apart is the same with every map.
-/

namespace LibreFang.Engine

open Text Slots

/-- A placeholder. -/
def placeholder (name : String) : List Char := ("\x7b\x7b" ++ name ++ "\x7d\x7d").toList

theorem placeholder_ne_nil (name : String) : placeholder name ≠ [] := by
  unfold placeholder
  rw [String.toList_append, String.toList_append]
  exact List.cons_ne_nil _ _

/-- The pieces of a template: its placeholders for the input and the variables, and the rest. -/
def piecesOf (template : String) (vars : VarMap) : List (Piece String) :=
  parse placeholder ("input" :: vars.map (·.1)) 0 template.toList

/-- The values of the input and of some variables. -/
def bound (input : String) (entries : VarMap) (name : String) : Option (List Char) :=
  (if name = "input" then some input else entries.lookup name).map String.toList

/-- The template with every placeholder replaced by its value. -/
def simultaneous (template input : String) (vars : VarMap) : String :=
  String.ofList (render placeholder (bound input vars) (piecesOf template vars))

/-- `expand_variables` with the entries in this order. -/
def expandIn (order : VarMap) (template input : String) : String :=
  order.foldl (fun result e => replaceStr result ("\x7b\x7b" ++ e.1 ++ "\x7d\x7d") e.2)
    (replaceStr template "\x7b\x7binput\x7d\x7d" input)

theorem expandVariables_eq (env : Env) (template input : String) (vars : VarMap) :
    expandVariables env template input vars = expandIn (env.varOrder vars) template input := rfl

variable (template input : String) (vars : VarMap)

/-- The placeholder of the input is found just where the template has it. -/
def InputApart : Prop :=
  occurrences (placeholder "input") 0 0 template.toList =
    slotsAt placeholder (fun _ => none) "input" 0 (piecesOf template vars)

/-- What is replaced is the template's own: each time, the placeholder is found just where the
template has it, so that no text of a value is expanded and no placeholder is left out. -/
def ReplacesOwn (order : VarMap) : Prop :=
  InputApart template vars ∧ ∀ done e rest, order = done ++ e :: rest →
    occurrences (placeholder e.1) 0 0 (expandIn done template input).toList =
      slotsAt placeholder (bound input done) e.1 0 (piecesOf template vars)

/-- With the slots of the input and of any of the variables filled, the placeholder of every other
variable is found just where the template has it. -/
def Apart : Prop :=
  InputApart template vars ∧ ∀ done, done.Sublist vars → ∀ e ∈ vars, e ∉ done →
    occurrences (placeholder e.1) 0 0
        (render placeholder (bound input done) (piecesOf template vars)) =
      slotsAt placeholder (bound input done) e.1 0 (piecesOf template vars)

/-! ## One replacement after the other -/

variable {template input vars} {order done rest : VarMap} {e : String × String}

theorem bound_append_singleton (input : String) (done : VarMap) (e : String × String) :
    bound input (done ++ [e]) = Function.update (bound input done) e.1
      ((bound input done e.1).or (some e.2.toList)) := by
  funext name
  unfold bound
  rw [List.lookup_append]
  by_cases hname : name = e.1
  · subst hname
    rw [Function.update_self]
    split_ifs
    · rfl
    · rw [List.lookup_cons, beq_self_eq_true]
      cases done.lookup e.1 <;> rfl
  · rw [Function.update_of_ne hname]
    rw [List.lookup_cons, beq_eq_false_iff_ne.mpr hname]
    simp

theorem expandIn_nil (h : InputApart template vars) :
    (expandIn [] template input).toList =
      render placeholder (bound input []) (piecesOf template vars) := by
  have htemplate : template.toList =
      render placeholder (fun _ => none) (piecesOf template vars) :=
    (render_parse placeholder placeholder_ne_nil _ _).symm
  have hfill := @replaceChars_render _ placeholder _ (fun _ => none) "input" input.toList
    placeholder_ne_nil 0 (piecesOf template vars) (by rw [← htemplate]; exact h)
  have hbound : Function.update (fun _ => none) "input" ((none : Option (List Char)).or
      (some input.toList)) = bound input [] := by
    funext name
    unfold bound
    by_cases hname : name = "input"
    · subst hname
      rw [Function.update_self]
      rfl
    · rw [Function.update_of_ne hname, if_neg hname]
      rfl
  rw [← htemplate, hbound] at hfill
  rw [← hfill]
  exact String.toList_ofList

theorem expandIn_append_singleton (done : VarMap) (e : String × String) :
    (expandIn (done ++ [e]) template input).toList =
      replaceChars (placeholder e.1) e.2.toList 0 (expandIn done template input).toList := by
  unfold expandIn
  rw [List.foldl_append]
  exact String.toList_ofList

/-- **As long as what is replaced is the template's own**, the slots are filled one after the
other. -/
theorem expandIn_eq_render (hinput : InputApart template vars)
    (h : ∀ done' e rest', done ++ rest = done' ++ e :: rest' → done'.length < done.length →
      (expandIn done' template input).toList =
        render placeholder (bound input done') (piecesOf template vars) →
      occurrences (placeholder e.1) 0 0
          (render placeholder (bound input done') (piecesOf template vars)) =
        slotsAt placeholder (bound input done') e.1 0 (piecesOf template vars)) :
    (expandIn done template input).toList =
      render placeholder (bound input done) (piecesOf template vars) := by
  induction done using List.reverseRecOn generalizing rest with
  | nil => exact expandIn_nil hinput
  | append_singleton done e ih =>
    rw [List.append_assoc] at h
    have hdone := ih fun done' e' rest' heq hlt =>
      h done' e' rest' heq (hlt.trans (by rw [List.length_append]; exact Nat.lt_succ_self _))
    have hown := h done e rest rfl (by rw [List.length_append]; exact Nat.lt_succ_self _) hdone
    rw [expandIn_append_singleton, hdone, replaceChars_render placeholder_ne_nil hown,
      bound_append_singleton]

/-! ## The order of the variables -/

theorem nodup_of_keys {entries : VarMap} (h : (entries.map (·.1)).Nodup) : entries.Nodup :=
  List.Nodup.of_map _ h

theorem bound_congr {done done' : VarMap} (h : (done.map (·.1)).Nodup)
    (h' : (done'.map (·.1)).Nodup) (hmem : ∀ e, e ∈ done ↔ e ∈ done') (input : String) :
    bound input done = bound input done' := by
  funext name
  unfold bound
  have hlookup : done.lookup name = done'.lookup name := by
    apply Option.ext
    intro value
    rw [Table.lookup_iff_mem h, Table.lookup_iff_mem h', hmem]
  rw [hlookup]

/-- An environment in which the variables are iterated in this order. -/
def iteratesIn (order : VarMap) : Env := { sampleEnv with varOrder := fun _ => order }

theorem replacesOwn_of_apart (hkeys : (vars.map (·.1)).Nodup) (happart : Apart template input vars)
    (hperm : order.Perm vars) :
    (∀ done rest, order = done ++ rest → (expandIn done template input).toList =
        render placeholder (bound input done) (piecesOf template vars)) ∧
      ReplacesOwn template input vars order := by
  have horder : (order.map (·.1)).Nodup := (hperm.map _).nodup_iff.mpr hkeys
  have hown : ∀ done e rest, order = done ++ e :: rest →
      occurrences (placeholder e.1) 0 0
          (render placeholder (bound input done) (piecesOf template vars)) =
        slotsAt placeholder (bound input done) e.1 0 (piecesOf template vars) := by
    intro done e rest heq
    have hdone : (done.map (·.1)).Nodup := by
      rw [heq, List.map_append] at horder
      exact (List.nodup_append.mp horder).1
    have hfresh : e ∉ done := by
      have hnodup := nodup_of_keys horder
      rw [heq] at hnodup
      exact fun he => (List.nodup_append.mp hnodup).2.2 e he e List.mem_cons_self rfl
    -- the same variables, in the order of the map
    have hsub : (vars.filter fun e => decide (e ∈ done)).Sublist vars := List.filter_sublist
    have hmem : ∀ e, e ∈ vars.filter (fun e => decide (e ∈ done)) ↔ e ∈ done := by
      intro e
      rw [List.mem_filter, decide_eq_true_eq]
      refine and_iff_right_of_imp fun he => hperm.subset ?_
      rw [heq]
      exact List.mem_append_left _ he
    have hbound := bound_congr (hkeys.sublist (hsub.map _)) hdone hmem input
    rw [← hbound]
    refine happart.2 _ hsub e (hperm.subset ?_) fun he => hfresh ((hmem e).mp he)
    rw [heq]
    exact List.mem_append_right _ List.mem_cons_self
  have hrender : ∀ done rest, order = done ++ rest → (expandIn done template input).toList =
      render placeholder (bound input done) (piecesOf template vars) := by
    intro done rest heq
    exact @expandIn_eq_render template input vars done rest happart.1
      fun done' e rest' hsplit _ _ => hown done' e rest' (heq.trans hsplit)
  refine ⟨hrender, happart.1, fun done e rest heq => ?_⟩
  rw [hrender done (e :: rest) heq]
  exact hown done e rest heq

theorem apart_of_replacesOwn (hkeys : (vars.map (·.1)).Nodup)
    (hown : ∀ order : VarMap, order.Perm vars → ReplacesOwn template input vars order) :
    Apart template input vars := by
  refine ⟨(hown vars (.refl _)).1, fun done hsub e he hfresh => ?_⟩
  have hvars := nodup_of_keys hkeys
  let later := vars.filter fun e' => decide (e' ∉ done ++ [e])
  have hperm : (done ++ e :: later).Perm vars := by
    have hnodup : (done ++ e :: later).Nodup := by
      refine List.nodup_append.mpr
        ⟨hvars.sublist hsub, List.nodup_cons.mpr ⟨?_, hvars.filter _⟩, ?_⟩
      · intro hlater
        have hnot := of_decide_eq_true (List.mem_filter.mp hlater).2
        exact hnot (List.mem_append_right _ List.mem_cons_self)
      · rintro a ha b hb rfl
        rcases List.mem_cons.mp hb with rfl | hb
        · exact hfresh ha
        · have hnot := of_decide_eq_true (List.mem_filter.mp hb).2
          exact hnot (List.mem_append_left _ ha)
    refine (List.perm_ext_iff_of_nodup hnodup hvars).mpr fun a => ?_
    constructor
    · intro ha
      rcases List.mem_append.mp ha with ha | ha
      · exact hsub.subset ha
      · rcases List.mem_cons.mp ha with rfl | ha
        · exact he
        · exact (List.mem_filter.mp ha).1
    · intro ha
      by_cases hin : a ∈ done ++ [e]
      · rcases List.mem_append.mp hin with hin | hin
        · exact List.mem_append_left _ hin
        · rw [List.mem_singleton.mp hin]
          exact List.mem_append_right _ List.mem_cons_self
      · exact List.mem_append_right _
          (List.mem_cons_of_mem _ (List.mem_filter.mpr ⟨ha, decide_eq_true hin⟩))
  obtain ⟨hinput, hstages⟩ := hown _ hperm
  have hrender := @expandIn_eq_render template input vars done (e :: later) hinput
    fun done' e' rest' heq _ htext => htext ▸ hstages done' e' rest' heq
  rw [← hrender]
  exact hstages done e later rfl

theorem expandIn_of_apart {order : VarMap} (hkeys : (vars.map (·.1)).Nodup)
    (happart : Apart template input vars) (hperm : order.Perm vars) :
    expandIn order template input = simultaneous template input vars := by
  have hbound := bound_congr ((hperm.map _).nodup_iff.mpr hkeys) hkeys (fun e => hperm.mem_iff)
    input
  have hrender := (replacesOwn_of_apart hkeys happart hperm).1 order [] (List.append_nil _).symm
  rw [simultaneous, ← hbound, ← hrender]
  exact String.ofList_toList.symm

/-! ## The expansion -/

variable (template input vars)

/-- **The expansion is the simultaneous one, in every order, and expands nothing but the template's
own placeholders, exactly if the placeholders are apart.** -/
theorem expandVariables_iff_apart (hkeys : (vars.map (·.1)).Nodup) :
    (∀ env : Env, (env.varOrder vars).Perm vars →
        expandVariables env template input vars = simultaneous template input vars ∧
          ReplacesOwn template input vars (env.varOrder vars)) ↔
      Apart template input vars := by
  constructor
  · exact fun h => apart_of_replacesOwn hkeys fun order hperm => (h (iteratesIn order) hperm).2
  · intro happart env hperm
    rw [expandVariables_eq]
    exact ⟨expandIn_of_apart hkeys happart hperm, (replacesOwn_of_apart hkeys happart hperm).2⟩

/-- A variable whose value is the placeholder of another one. -/
def nestedVars : VarMap := [("a", "{{b}}"), ("b", "x")]

theorem expandVariables_iff_apart_nested :
    (∀ env : Env, (env.varOrder nestedVars).Perm nestedVars →
        expandVariables env "{{a}}" "go" nestedVars =
            simultaneous "{{a}}" "go" nestedVars ∧
          ReplacesOwn "{{a}}" "go" nestedVars (env.varOrder nestedVars)) ↔
      Apart "{{a}}" "go" nestedVars :=
  expandVariables_iff_apart "{{a}}" "go" nestedVars (by decide)

/-- The two orders of the variables give two results; in one of them the value is expanded again. -/
theorem nestedVars_order :
    expandVariables (iteratesIn nestedVars) "{{a}}" "go" nestedVars = "x" ∧
      expandVariables (iteratesIn nestedVars.reverse) "{{a}}" "go" nestedVars =
        "{{b}}" ∧
      simultaneous "{{a}}" "go" nestedVars = "{{b}}" := by
  decide

/-! ## Passes and the order of the map -/

section

variable {env : Env} {wf : Workflow} {s : Exec} {step : WorkflowStep} {o : MapOrder}
  {agent : String × String × Bool} {untilLower : String}

/-- The prompt of a step does not depend on the order of the map: there are no two variables, or the
placeholders are apart. -/
def PromptApart (s : Exec) (step : WorkflowStep) : Prop :=
  s.vars.length ≤ 1 ∨ Apart step.promptTemplate s.currentInput s.vars

/-- The prompts of all iterations that a loop step makes. -/
def IterationsApart (env : Env) (wf : Workflow) (step : WorkflowStep)
    (agent : String × String × Bool) (untilLower : String) : ℕ → ℕ → Exec → Prop
  | 0, _, _ => True
  | left + 1, iter, s => PromptApart s step ∧
    match s.ask env wf step (step.name ++ " (iter " ++ toString (iter + 1) ++ ")") agent with
    | (.ok (some r), calls) =>
      containsStr (env.toLowercase r.output) untilLower = false →
        IterationsApart env wf step agent untilLower left (iter + 1)
          { ({ s with calls } : Exec).record r with currentInput := r.output }
    | _ => True

/-- All prompts that a pass sends are apart. -/
def PassApart (env : Env) (wf : Workflow) (s : Exec) (step : WorkflowStep) : Prop :=
  let found (step : WorkflowStep) := env.agentResolver step.agent ≠ none
  match step.mode with
  | .sequential => found step → PromptApart s step
  | .fanOut => (∀ f ∈ fanOutSteps wf s, found f) → ∀ f ∈ fanOutSteps wf s, PromptApart s f
  | .collect => True
  | .conditional condition =>
    evaluateCondition env (env.toLowercase s.currentInput) condition.toList = true →
      found step → PromptApart s step
  | .loop maxIterations until_ => ∀ agent ∈ env.agentResolver step.agent,
    IterationsApart env wf step agent (env.toLowercase until_) maxIterations 0 s

/-- All prompts are apart that the run sends from here on, if it goes on without a pause. -/
inductive PromptsApart (env : Env) (wf : Workflow) : Exec → Prop
  | done {s : Exec} (hstep : wf.steps[s.index]? = none) : PromptsApart env wf s
  | pass {s : Exec} {step : WorkflowStep} (hstep : wf.steps[s.index]? = some step)
    (happart : PassApart env wf s step)
    (hnext : ∀ s', iterate env wf s step = .next s' → PromptsApart env wf s') :
    PromptsApart env wf s

theorem eq_of_perm_of_length_le_one {order vars : VarMap} (hperm : order.Perm vars)
    (h : vars.length ≤ 1) : order = vars := by
  rcases vars with _ | ⟨e, _ | ⟨e', vars⟩⟩
  · exact List.perm_nil.mp hperm
  · exact List.perm_singleton.mp hperm
  · simp at h

theorem found_of_fanOutCalls {steps : List WorkflowStep} {fs : List FanOutCall}
    (h : fanOutCalls env wf s steps = .ok fs) : ∀ f ∈ steps, env.agentResolver f.agent ≠ none := by
  induction steps generalizing fs with
  | nil => exact fun f hf => nomatch hf
  | cons step steps ih =>
    unfold fanOutCalls at h
    split at h
    · cases h
    · rename_i agent hagent
      split at h
      · rename_i fs' hfs
        exact List.forall_mem_cons.mpr ⟨hagent ▸ Option.some_ne_none agent, ih hfs⟩
      · cases h

theorem attempts_order (agentId prompt : String) (retries : ℕ) (calls : List Call) :
    attempts (o.env env) step agentId prompt retries calls =
      attempts env step agentId prompt retries calls := by
  induction retries generalizing calls with
  | zero => rfl
  | succ retries ih =>
    unfold attempts
    rw [show attempt (o.env env) step agentId prompt calls =
      attempt env step agentId prompt calls from rfl]
    split
    · rfl
    · exact ih _

theorem executeStep_order (agentId prompt : String) (calls : List Call) :
    executeStepWithErrorMode (o.env env) step agentId prompt calls =
      executeStepWithErrorMode env step agentId prompt calls := by
  unfold executeStepWithErrorMode
  split
  · rfl
  · rfl
  · rw [attempts_order]

theorem evaluateCondition_order (input : String) (condition : List Char) :
    evaluateCondition (o.env env) input condition = evaluateCondition env input condition := by
  induction condition using evaluateCondition.induct with
  | case1 condition hor ih =>
    rw [evaluateCondition, evaluateCondition, if_pos hor, if_pos hor]
    simp only [ih]
  | case2 condition hor hand ih =>
    rw [evaluateCondition, evaluateCondition, if_neg hor, if_neg hor, if_pos hand, if_pos hand]
    simp only [ih]
  | case3 condition hor hand =>
    rw [evaluateCondition, evaluateCondition, if_neg hor, if_neg hor, if_neg hand, if_neg hand]
    rfl
  | case4 condition hor hand =>
    rw [evaluateCondition, evaluateCondition, if_neg hor, if_neg hor, if_neg hand, if_neg hand]
    rfl

theorem joinAll_order (fs : List FanOutCall) (calls : List Call) :
    joinAll (o.env env) fs calls = joinAll env fs calls := by
  induction fs generalizing calls with
  | nil => rfl
  | cons f fs ih =>
    unfold joinAll
    dsimp only
    rw [ih]
    rfl

variable (hperm : ∀ vars, (env.varOrder vars).Perm vars) (hvars : s.vars.Keyed)

include hperm hvars

theorem prompt_order (h : PromptApart s step) (agentInherit : Bool) :
    s.prompt (o.env env) wf step agentInherit = s.prompt env wf step agentInherit := by
  have hexpand : expandIn (o.order s.vars) step.promptTemplate s.currentInput =
      expandIn (env.varOrder s.vars) step.promptTemplate s.currentInput := by
    rcases h with hone | happart
    · rw [eq_of_perm_of_length_le_one (o.perm s.vars) hone,
        eq_of_perm_of_length_le_one (hperm s.vars) hone]
    · rw [expandIn_of_apart hvars.nodup happart (o.perm s.vars),
        expandIn_of_apart hvars.nodup happart (hperm s.vars)]
  unfold Exec.prompt
  rw [expandVariables_eq, expandVariables_eq, MapOrder.env_varOrder, hexpand]

theorem ask_order (h : PromptApart s step) (stepName : String) :
    s.ask (o.env env) wf step stepName agent = s.ask env wf step stepName agent := by
  unfold Exec.ask
  rw [prompt_order hperm hvars h]
  dsimp only
  rw [executeStep_order]

theorem runAgentStep_order (h : env.agentResolver step.agent ≠ none → PromptApart s step) :
    runAgentStep (o.env env) wf s step = runAgentStep env wf s step := by
  unfold runAgentStep
  rw [MapOrder.env_agentResolver]
  cases hagent : env.agentResolver step.agent with
  | none => rfl
  | some agent =>
    dsimp only
    rw [ask_order hperm hvars (h (hagent ▸ Option.some_ne_none agent))]

theorem loopIterations_order {left iter : ℕ}
    (h : IterationsApart env wf step agent untilLower left iter s) :
    loopIterations (o.env env) wf step agent untilLower left iter s =
      loopIterations env wf step agent untilLower left iter s := by
  induction left generalizing iter s with
  | zero => rfl
  | succ left ih =>
    obtain ⟨hprompt, hrest⟩ := h
    unfold loopIterations
    rw [ask_order hperm hvars hprompt]
    split at hrest
    · rename_i r calls hask
      rw [hask]
      refine ite_congr rfl (fun _ => rfl) fun hmore => ?_
      refine ih ?_ (hrest (eq_false_of_ne_true hmore))
      exact hvars
    · rename_i hnone
      split
      · rename_i r calls hask
        exact (hnone r calls hask).elim
      · rfl
      · rfl

theorem runLoop_order {maxIterations : ℕ} {until_ : String}
    (h : ∀ agent ∈ env.agentResolver step.agent, IterationsApart env wf step agent
      (env.toLowercase until_) maxIterations 0 s) :
    runLoop (o.env env) wf s step maxIterations until_ =
      runLoop env wf s step maxIterations until_ := by
  unfold runLoop
  rw [MapOrder.env_agentResolver, MapOrder.env_toLowercase]
  cases hagent : env.agentResolver step.agent with
  | none => rfl
  | some agent =>
    dsimp only
    rw [loopIterations_order hperm hvars (h agent hagent)]

theorem fanOutCalls_order {steps : List WorkflowStep}
    (h : (∀ f ∈ steps, env.agentResolver f.agent ≠ none) → ∀ f ∈ steps, PromptApart s f) :
    fanOutCalls (o.env env) wf s steps = fanOutCalls env wf s steps := by
  induction steps with
  | nil => rfl
  | cons step steps ih =>
    unfold fanOutCalls
    rw [MapOrder.env_agentResolver]
    cases hagent : env.agentResolver step.agent with
    | none => rfl
    | some agent =>
      have hfound (hrest : ∀ f ∈ steps, env.agentResolver f.agent ≠ none) :=
        List.forall_mem_cons.mp
          (h (List.forall_mem_cons.mpr ⟨hagent ▸ Option.some_ne_none agent, hrest⟩))
      dsimp only
      rw [ih fun hrest => (hfound hrest).2]
      cases hfs : fanOutCalls env wf s steps with
      | error missing => rfl
      | ok fs =>
        dsimp only
        rw [prompt_order hperm hvars (hfound (found_of_fanOutCalls hfs)).1]

/-- **A pass whose prompts are apart is the same with every map.** -/
theorem iterate_order (h : PassApart env wf s step) :
    iterate (o.env env) wf s step = iterate env wf s step := by
  unfold PassApart at h
  unfold iterate
  cases hmode : step.mode with
  | sequential =>
    rw [hmode] at h
    exact runAgentStep_order hperm hvars h
  | fanOut =>
    rw [hmode] at h
    dsimp only
    unfold runFanOut
    rw [fanOutCalls_order hperm hvars h]
    simp only [joinAll_order]
  | collect => rfl
  | conditional condition =>
    rw [hmode] at h
    dsimp only
    unfold runConditional
    rw [evaluateCondition_order]
    exact ite_congr rfl (fun hmet => runAgentStep_order hperm hvars (h hmet)) fun _ => rfl
  | loop maxIterations until_ =>
    rw [hmode] at h
    exact runLoop_order hperm hvars h

/-- **A run whose prompts are apart is the same with every map.** -/
theorem sequentialLoop_order (hs : Live s) (h : PromptsApart env wf s) :
    sequentialLoop (o.env env) wf undisturbed s = sequentialLoop env wf undisturbed s := by
  induction h with
  | done hstep => rw [sequentialLoop_eq, sequentialLoop_eq, hstep]
  | pass hstep happart hnext ih =>
    rw [hs.sequentialLoop_pass undisturbed hstep rfl, hs.sequentialLoop_pass undisturbed hstep rfl,
      iterate_order hperm hvars happart]
    split
    · rename_i s' hflow
      exact ih s' hflow (keyed_of_iterate hvars hflow) (hs.of_iterate hstep hflow)
    · rfl

end

end LibreFang.Engine
