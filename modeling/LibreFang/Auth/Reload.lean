import LibreFang.Auth.Manager
import LibreFang.Lib.Runs

/-!
# A gate read while the configuration is reloaded

A reload carries out one operation on one map at a time; a call of the gate looks up one map at a
time in between.

* `Reader`: how far a call is; `Reader.step`: its next lookup; `Reader.result`: what it decides if
  nothing else happens.
* **`decision_of_run`**: a call whose lookups are all before the reload, or all settled, decides by
  one of the two configurations.
-/

namespace LibreFang.Auth.Reload

open Runs

/-! ## The call -/

/-- How far a call of the gate is. -/
inductive Reader
  | start
  | sender (key : String)
  | groups (userId : UserId)
  | identity (userId : UserId) (snapshot : List ToolGroup)
  | done (gate : UserToolGate)
  deriving DecidableEq

/-- The next lookup of `resolve_user_tool_decision`; from `groups` on, of
`resolve_decision_for_user`. -/
def Reader.step (call : ToolCall) (m : Manager) : Reader → Reader
  | .start =>
    if m.users.entries.isEmpty then .done .allow
    else if call.systemCall then .done .allow
    else
      match call.key with
      | none => .done (guestGate call.toolName)
      | some key => .sender key
  | .sender key =>
    match m.channelIndex.lookup key with
    | none => .done (guestGate call.toolName)
    | some userId => .groups userId
  | .groups userId => .identity userId m.toolGroups
  | .identity userId snapshot => .done (decideFor call snapshot (m.users.lookup userId))
  | .done gate => .done gate

/-- What the call decides if the maps stay as they are. -/
def Reader.result (call : ToolCall) (m : Manager) : Reader → UserToolGate
  | .start => resolveUserToolDecision m call
  | .sender key =>
    match m.channelIndex.lookup key with
    | none => guestGate call.toolName
    | some userId => resolveDecisionForUser m userId call
  | .groups userId => resolveDecisionForUser m userId call
  | .identity userId snapshot => decideFor call snapshot (m.users.lookup userId)
  | .done gate => gate

theorem Reader.result_step (call : ToolCall) (m : Manager) (r : Reader) :
    (r.step call m).result call m = r.result call m := by
  cases r with
  | start =>
    unfold Reader.step Reader.result resolveUserToolDecision
    dsimp only
    by_cases hempty : m.users.entries.isEmpty = true
    · rw [if_pos hempty, if_pos hempty]
    · rw [if_neg hempty, if_neg hempty]
      cases call.systemCall with
      | true => rfl
      | false =>
        cases call.key with
        | none => rfl
        | some key => rfl
  | sender key =>
    unfold Reader.step
    dsimp only
    cases hfound : m.channelIndex.lookup key with
    | none => simp only [Reader.result, hfound]
    | some userId => simp only [Reader.result, hfound]
  | groups userId => rfl
  | identity userId snapshot => rfl
  | done gate => rfl

/-! ## A reload and a call -/

/-- The maps, what is left of the reload, and the call. -/
structure System where
  manager : Manager
  todo : List Op
  reader : Reader

/-- Whose turn it is. -/
inductive Turn
  | reload
  | call
  deriving DecidableEq

/-- The next operation of the reload, or the next lookup of the call. -/
def step (call : ToolCall) (s : System) : Turn → System
  | .reload =>
    match s.todo with
    | [] => s
    | op :: todo => { s with manager := op.apply s.manager, todo := todo }
  | .call => { s with reader := s.reader.step call s.manager }

/-- What the reload ends in. -/
def System.target (s : System) : Manager := applyAll s.todo s.manager

/-- An operation leaves alone what the next lookup finds. -/
def Spares (call : ToolCall) (m : Manager) : Reader → Op → Prop
  | .start, op => call.systemCall = true ∨
      match op with
      | .clearUsers => False
      | .insertUser _ _ => ¬ m.users.entries.isEmpty
      | _ => True
  | .sender key, op =>
    match op with
    | .clearIndex => False
    | .insertBinding key' _ => key' ≠ key
    | _ => True
  | .groups _, op =>
    match op with
    | .setGroups _ => False
    | _ => True
  | .identity userId _, op =>
    match op with
    | .clearUsers => False
    | .insertUser userId' _ => userId' ≠ userId
    | _ => True
  | .done _, _ => True

/-- A lookup that no later operation of the reload changes. -/
def Settled (call : ToolCall) (s : System) (turn : Turn) : Prop :=
  turn = .call → ∀ op ∈ s.todo, Spares call s.manager s.reader op

/-- A lookup before the first operation of the reload. -/
def Before (ops : List Op) (s : System) (turn : Turn) : Prop := turn = .call → s.todo = ops

/-! ## Settled lookups -/

theorem users_applyAll_ne_nil {ops : List Op} (hops : Op.clearUsers ∉ ops) {m : Manager}
    (hm : m.users.entries ≠ []) : (applyAll ops m).users.entries ≠ [] := by
  induction ops generalizing m with
  | nil => exact hm
  | cons op ops ih =>
    rw [List.mem_cons, not_or] at hops
    refine ih hops.2 ?_
    cases op with
    | clearUsers => exact absurd rfl hops.1
    | insertUser userId identity =>
      unfold Op.apply
      dsimp only
      rw [AList.entries_insert]
      exact List.cons_ne_nil _ _
    | _ => exact hm

variable {call : ToolCall}

theorem isEmpty_users_iff {ops : List Op} {m : Manager}
    (hcall : call.systemCall ≠ true) (h : ∀ op ∈ ops, Spares call m .start op) :
    (applyAll ops m).users.entries.isEmpty = true ↔ m.users.entries.isEmpty = true := by
  by_cases hempty : m.users.entries.isEmpty = true
  · have hsame : (applyAll ops m).users = m.users := by
      refine applyAll_frame Manager.users (fun op hop m' => ?_) m
      have hspares := (h op hop).resolve_left hcall
      cases op with
      | clearUsers => exact hspares.elim
      | insertUser userId identity => exact absurd hempty hspares
      | _ => rfl
    rw [hsame]
  · rw [List.isEmpty_iff] at hempty ⊢
    rw [List.isEmpty_iff]
    refine iff_of_false (users_applyAll_ne_nil (fun hclear => ?_) hempty) hempty
    exact (h _ hclear).resolve_left hcall

theorem step_eq_of_spares {ops : List Op} {m : Manager} {r : Reader}
    (h : ∀ op ∈ ops, Spares call m r op) : r.step call m = r.step call (applyAll ops m) := by
  cases r with
  | start =>
    unfold Reader.step
    dsimp only
    by_cases hcall : call.systemCall = true
    · simp only [hcall, if_true, ite_self]
    · rw [if_congr (isEmpty_users_iff hcall h) rfl rfl]
  | sender key =>
    have hindex : (applyAll ops m).channelIndex.lookup key = m.channelIndex.lookup key := by
      refine applyAll_frame (fun m => m.channelIndex.lookup key) (fun op hop m' => ?_) m
      cases op with
      | clearIndex => exact (h _ hop).elim
      | insertBinding key' userId => exact AList.lookup_insert_ne (Ne.symm (h _ hop))
      | _ => rfl
    unfold Reader.step
    dsimp only
    rw [hindex]
  | groups userId =>
    have hgroups : (applyAll ops m).toolGroups = m.toolGroups := by
      refine applyAll_frame Manager.toolGroups (fun op hop m' => ?_) m
      cases op with
      | setGroups groups => exact (h _ hop).elim
      | _ => rfl
    unfold Reader.step
    dsimp only
    rw [hgroups]
  | identity userId snapshot =>
    have husers : (applyAll ops m).users.lookup userId = m.users.lookup userId := by
      refine applyAll_frame (fun m => m.users.lookup userId) (fun op hop m' => ?_) m
      cases op with
      | clearUsers => exact (h _ hop).elim
      | insertUser userId' identity => exact AList.lookup_insert_ne (Ne.symm (h _ hop))
      | _ => rfl
    unfold Reader.step
    dsimp only
    rw [husers]
  | done gate => rfl

/-! ## Runs -/

theorem result_target_step {s : System} {turn : Turn} (h : Settled call s turn) :
    (step call s turn).target = s.target ∧
      (step call s turn).reader.result call s.target = s.reader.result call s.target := by
  cases turn with
  | reload =>
    unfold step
    dsimp only
    cases htodo : s.todo with
    | nil => exact ⟨rfl, rfl⟩
    | cons op todo =>
      refine ⟨?_, rfl⟩
      unfold System.target
      rw [htodo]
      rfl
  | call =>
    refine ⟨rfl, ?_⟩
    have hstep : s.reader.step call s.manager = s.reader.step call s.target :=
      step_eq_of_spares (h rfl)
    calc (s.reader.step call s.manager).result call s.target
        = (s.reader.step call s.target).result call s.target := by rw [hstep]
      _ = s.reader.result call s.target := Reader.result_step call s.target s.reader

theorem result_of_settled {s : System} {turns : List Turn}
    (h : Along (step call) (Settled call) s turns) :
    (after (step call) s turns).reader.result call s.target = s.reader.result call s.target := by
  have hinv := invariant
    (I := fun s' => s'.target = s.target ∧
      s'.reader.result call s.target = s.reader.result call s.target)
    (fun s' turn hI hP => by
      have hkeep := result_target_step hP
      rw [hI.1] at hkeep
      exact ⟨hkeep.1, hkeep.2.trans hI.2⟩)
    ⟨rfl, rfl⟩ h
  exact hinv.2

theorem result_step_of_before {s₀ s : System} {turn : Turn}
    (h : Before s₀.todo s turn) (hmanager : s.todo = s₀.todo → s.manager = s₀.manager)
    (hlength : s.todo.length ≤ s₀.todo.length)
    (hresult : s.reader.result call s₀.manager = s₀.reader.result call s₀.manager) :
    ((step call s turn).todo = s₀.todo → (step call s turn).manager = s₀.manager) ∧
      (step call s turn).todo.length ≤ s₀.todo.length ∧
      (step call s turn).reader.result call s₀.manager = s₀.reader.result call s₀.manager := by
  cases turn with
  | reload =>
    cases htodo : s.todo with
    | nil =>
      have hstep : step call s .reload = s := by
        unfold step
        dsimp only
        rw [htodo]
      rw [hstep]
      exact ⟨hmanager, hlength, hresult⟩
    | cons op todo =>
      have hstep : step call s .reload = { s with manager := op.apply s.manager, todo := todo } := by
        unfold step
        dsimp only
        rw [htodo]
      rw [htodo, List.length_cons] at hlength
      rw [hstep]
      refine ⟨fun hsame => ?_, Nat.le_of_succ_le hlength, hresult⟩
      -- the reload has begun, and no operation comes back
      obtain rfl : todo = s₀.todo := hsame
      exact absurd hlength (Nat.not_succ_le_self _)
  | call =>
    refine ⟨hmanager, hlength, ?_⟩
    have hm := hmanager (h rfl)
    calc (s.reader.step call s.manager).result call s₀.manager
        = (s.reader.step call s₀.manager).result call s₀.manager := by rw [hm]
      _ = s.reader.result call s₀.manager := Reader.result_step call s₀.manager s.reader
      _ = s₀.reader.result call s₀.manager := hresult

theorem result_of_before {s : System} {turns : List Turn}
    (h : Along (step call) (Before s.todo) s turns) :
    (after (step call) s turns).reader.result call s.manager = s.reader.result call s.manager := by
  have hinv := invariant
    (I := fun s' => (s'.todo = s.todo → s'.manager = s.manager) ∧
      s'.todo.length ≤ s.todo.length ∧
      s'.reader.result call s.manager = s.reader.result call s.manager)
    (fun s' turn hI hP => result_step_of_before hP hI.1 hI.2.1 hI.2.2)
    ⟨fun _ => rfl, Nat.le_refl _, rfl⟩ h
  exact hinv.2.2

/-! ## The decision -/

/-- A reload and a call that both begin. -/
def System.init (fromName : String → UserId) (before : Manager) (configs : List UserConfig)
    (groups : List ToolGroup) (reader : Reader) : System :=
  ⟨before, reloadOps fromName configs groups, reader⟩

/-- The lookups of a call are all before the first operation of the reload, or all settled. -/
def Undisturbed (call : ToolCall) (s : System) (turns : List Turn) : Prop :=
  Along (step call) (Before s.todo) s turns ∨ Along (step call) (Settled call) s turns

/-- **Which calls decide by one configuration.** The call starts with `resolve_user_tool_decision`
or, at the groups, with `resolve_decision_for_user`. -/
theorem decision_of_run (fromName : String → UserId) (call : ToolCall) (before : Manager)
    (configs : List UserConfig) (groups : List ToolGroup) (reader : Reader) (turns : List Turn)
    (gate : UserToolGate)
    (hquiet : Undisturbed call (.init fromName before configs groups reader) turns)
    (hdone : (after (step call) (.init fromName before configs groups reader) turns).reader =
      .done gate) :
    gate = reader.result call before ∨
      gate = reader.result call (withToolGroups fromName configs groups) := by
  rcases hquiet with hbefore | hsettled
  · have hresult := result_of_before hbefore
    rw [hdone] at hresult
    exact .inl hresult
  · have hresult := result_of_settled hsettled
    rw [hdone] at hresult
    exact .inr hresult

/-- A user who may not run a shell. -/
def bob : UserConfig where
  name := "Bob"
  role := "user"
  channelBindings := AList.singleton "telegram" "42"
  toolPolicy := some ⟨[], ["shell_exec"]⟩
  toolCategories := none
  channelToolRules := ∅

/-- Bob runs a shell from his chat. -/
def bobCall : ToolCall := ⟨"shell_exec", some "42", some "telegram", false⟩

theorem decision_of_run_bob :
    UserToolGate.deny "user 'Bob' (role: user) is not permitted to invoke 'shell_exec'" =
        Reader.start.result bobCall (withToolGroups (fun _ => 7) [bob] []) ∨
      UserToolGate.deny "user 'Bob' (role: user) is not permitted to invoke 'shell_exec'" =
        Reader.start.result bobCall (withToolGroups (fun _ => 7) [] []) :=
  decision_of_run (fun _ => 7) bobCall (withToolGroups (fun _ => 7) [bob] []) [] [] .start
    [.call, .call, .call, .call, .reload, .reload] _
    (.inl ⟨fun _ => rfl, fun _ => rfl, fun _ => rfl, fun _ => rfl, nofun, nofun, trivial⟩)
    (by decide +kernel)

/-- Between the first operation of a reload and the second, nobody is registered. -/
theorem reload_fails_open :
    ¬ ∀ (fromName : String → UserId) (call : ToolCall) (old configs : List UserConfig)
      (oldGroups groups : List ToolGroup) (turns : List Turn) (gate : UserToolGate),
      (after (step call)
          (.init fromName (withToolGroups fromName old oldGroups) configs groups .start)
          turns).reader = .done gate →
        gate = resolveUserToolDecision (withToolGroups fromName old oldGroups) call ∨
          gate = resolveUserToolDecision (withToolGroups fromName configs groups) call := by
  intro h
  have hallow := h (fun _ => 7) bobCall [bob] [bob] [] [] [.reload, .call] .allow
    (by decide +kernel)
  have hdeny : resolveUserToolDecision (withToolGroups (fun _ => 7) [bob] []) bobCall ≠ .allow := by
    decide +kernel
  rcases hallow with hold | hnew
  · exact hdeny hold.symm
  · exact hdeny hnew.symm

end LibreFang.Auth.Reload
