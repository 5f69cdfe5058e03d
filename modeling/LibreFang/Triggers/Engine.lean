import Mathlib.Data.List.Sort
import LibreFang.Lib.Table
import LibreFang.Lib.Text

/-!
# The trigger engine

Triggers wake an agent when an event matches their pattern.

* `TriggerPattern`, `Trigger`, `TriggerPatch`, `Event`: the data; `matchesPattern`.
* `TriggerEngine`: the triggers, the index by agent, and when each trigger last fired.
* `registerWithTarget`, `remove`, `removeAgentTriggers`, `reassignAgentTriggers`, `setEnabled`,
  `update`: what users and agents do.
-/

namespace LibreFang.Triggers

open Text

/-! ## Triggers and events -/

/-- `TriggerId`, the number its bytes stand for. -/
abbrev TriggerId := ℕ

/-- `AgentId`, by its text. -/
abbrev AgentId := String

/-- A UTC time, in nanoseconds since the epoch. -/
abbrev Time := ℤ

/-- A second. -/
def second : Time := 1000000000

/-- `DEFAULT_COOLDOWN_SECS`. -/
def defaultCooldown : ℕ := 5

/-- `DEFAULT_MAX_TRIGGERS_PER_EVENT`. -/
def defaultMaxTriggers : ℕ := 10

/-- `SessionMode`. -/
inductive SessionMode
  | persistent
  | new
  deriving DecidableEq, Repr

/-- `TriggerPattern`. -/
inductive TriggerPattern
  | lifecycle
  | agentSpawned (namePattern : String)
  | agentTerminated
  | system
  | systemKeyword (keyword : String)
  | memoryUpdate
  | memoryKeyPattern (keyPattern : String)
  | all
  | contentMatch (substring : String)
  | taskPosted (assigneeMatch : Option String)
  | taskClaimed
  | taskCompleted
  deriving DecidableEq, Repr

/-- `LifecycleEvent`, the parts that are matched. -/
inductive LifecycleEvent
  | spawned (name : String)
  | started
  | suspended
  | resumed
  | terminated
  | crashed
  deriving DecidableEq, Repr

/-- `SystemEvent`, the parts that are matched. -/
inductive SystemEvent
  | taskPosted (assignedTo : Option String)
  | taskClaimed
  | taskCompleted
  | other
  deriving DecidableEq, Repr

/-- `EventPayload`, the parts that are matched. A system event comes with its `Debug` text. -/
inductive EventPayload
  | lifecycle (event : LifecycleEvent)
  | system (event : SystemEvent) (debug : String)
  | memoryUpdate (key : String)
  | other
  deriving DecidableEq, Repr

/-- `Event`: the payload, and what `describe_event` renders of it. -/
structure Event where
  payload : EventPayload
  description : String
  deriving DecidableEq, Repr

/-- `Trigger`. -/
structure Trigger where
  id : TriggerId
  agentId : AgentId
  pattern : TriggerPattern
  promptTemplate : String
  enabled : Bool
  createdAt : Time
  fireCount : UInt64
  maxFires : UInt64
  targetAgent : Option AgentId
  cooldownSecs : Option ℕ
  sessionMode : Option SessionMode
  lastFiredAt : Option Time
  deriving DecidableEq, Repr

/-- `TriggerMatch`. -/
structure TriggerMatch where
  agentId : AgentId
  message : String
  sessionModeOverride : Option SessionMode
  deriving DecidableEq, Repr

/-- `TriggerPatch`. -/
structure TriggerPatch where
  pattern : Option TriggerPattern
  promptTemplate : Option String
  enabled : Option Bool
  maxFires : Option UInt64
  cooldownSecs : Option (Option ℕ)
  sessionMode : Option (Option SessionMode)
  targetAgent : Option (Option AgentId)

/-- `TriggersConfig`, the parts that are read. -/
structure TriggersConfig where
  maxPerEvent : ℕ
  cooldownSecs : ℕ

/-- `str::to_lowercase`. -/
structure Host where
  toLowercase : String → String

variable (host : Host)

/-- The `TaskPosted` arm of `matches_pattern`. -/
def matchesAssignee (assigneeMatch assignedTo : Option String)
    (owner : AgentId × Option String) : Bool :=
  match assigneeMatch, assignedTo with
  | none, _ => true
  | some _, none => false
  | some filter, some assigned =>
    if filter = "self" then assigned == owner.1 || owner.2 == some assigned else assigned == filter

/-- `matches_pattern`. -/
def matchesPattern (pattern : TriggerPattern) (event : Event) (owner : AgentId × Option String) :
    Bool :=
  match pattern, event.payload with
  | .all, _ => true
  | .lifecycle, .lifecycle _ => true
  | .agentSpawned namePattern, .lifecycle (.spawned name) =>
    containsStr name namePattern || namePattern == "*"
  | .agentTerminated, .lifecycle .terminated | .agentTerminated, .lifecycle .crashed => true
  | .system, .system .. => true
  | .systemKeyword keyword, .system _ debug =>
    containsStr (host.toLowercase debug) (host.toLowercase keyword)
  | .memoryUpdate, .memoryUpdate _ => true
  | .memoryKeyPattern keyPattern, .memoryUpdate key =>
    containsStr key keyPattern || keyPattern == "*"
  | .contentMatch substring, _ =>
    containsStr (host.toLowercase event.description) (host.toLowercase substring)
  | .taskPosted assigneeMatch, .system (.taskPosted assignedTo) _ =>
    matchesAssignee assigneeMatch assignedTo owner
  | .taskClaimed, .system .taskClaimed _ => true
  | .taskCompleted, .system .taskCompleted _ => true
  | _, _ => false

/-- `TriggerEngine`. -/
structure TriggerEngine where
  triggers : Table TriggerId Trigger
  agentTriggers : Table AgentId (List TriggerId)
  lastFired : Table TriggerId Time
  maxTriggersPerEvent : ℕ
  defaultCooldownSecs : ℕ

/-- `TriggerEngine::new`. -/
def TriggerEngine.new : TriggerEngine := ⟨∅, ∅, ∅, defaultMaxTriggers, defaultCooldown⟩

/-- `TriggerEngine::with_config`. -/
def TriggerEngine.withConfig (config : TriggersConfig) : TriggerEngine :=
  ⟨∅, ∅, ∅, max config.maxPerEvent 1, config.cooldownSecs⟩

/-- `entry(agent_id).or_default()` of the index, rewritten. -/
def TriggerEngine.onIndex (e : TriggerEngine) (agentId : AgentId)
    (f : List TriggerId → List TriggerId) : TriggerEngine :=
  { e with
    agentTriggers := e.agentTriggers.insert agentId (f ((e.agentTriggers.lookup agentId).getD [])) }

/-- A trigger stored under its id. -/
def TriggerEngine.store (e : TriggerEngine) (trigger : Trigger) : TriggerEngine :=
  { e with triggers := e.triggers.insert trigger.id trigger }

/-- A trigger forgotten with its last fire. -/
def TriggerEngine.drop (e : TriggerEngine) (id : TriggerId) : TriggerEngine :=
  { e with triggers := e.triggers.erase id, lastFired := e.lastFired.erase id }

/-! ## What users and agents do -/

/-- `TriggerEngine::register_with_target`; the id is a fresh `TriggerId::new()`. -/
def registerWithTarget (e : TriggerEngine) (id : TriggerId) (now : Time) (agentId : AgentId)
    (pattern : TriggerPattern) (promptTemplate : String) (maxFires : UInt64)
    (targetAgent : Option AgentId) (cooldownSecs : Option ℕ) (sessionMode : Option SessionMode) :
    TriggerEngine :=
  let trigger : Trigger :=
    { id, agentId, pattern, promptTemplate, enabled := true, createdAt := now, fireCount := 0,
      maxFires, targetAgent, cooldownSecs, sessionMode, lastFiredAt := none }
  (e.store trigger).onIndex agentId (· ++ [id])

/-- `TriggerEngine::remove`. -/
def remove (e : TriggerEngine) (id : TriggerId) : Bool × TriggerEngine :=
  match e.triggers.lookup id with
  | some trigger =>
    (true, { (e.drop id) with
      agentTriggers := e.agentTriggers.modify trigger.agentId fun ids => ids.filter (· ≠ id) })
  | none => (false, e)

/-- `TriggerEngine::remove_agent_triggers`. -/
def removeAgentTriggers (e : TriggerEngine) (agentId : AgentId) : TriggerEngine :=
  match e.agentTriggers.lookup agentId with
  | some ids => ids.foldl TriggerEngine.drop { e with agentTriggers := e.agentTriggers.erase agentId }
  | none => e

/-- `TriggerEngine::reassign_agent_triggers`. -/
def reassignAgentTriggers (e : TriggerEngine) (oldAgentId newAgentId : AgentId) :
    ℕ × TriggerEngine :=
  let ids := (e.agentTriggers.lookup oldAgentId).getD []
  let e := { e with agentTriggers := e.agentTriggers.erase oldAgentId }
  let e := ids.foldl (fun e id =>
    { e with triggers := e.triggers.modify id fun t => { t with agentId := newAgentId } }) e
  (ids.length, if ids.isEmpty then e else e.onIndex newAgentId (· ++ ids))

/-- `TriggerEngine::set_enabled`. -/
def setEnabled (e : TriggerEngine) (id : TriggerId) (enabled : Bool) : Bool × TriggerEngine :=
  ((e.triggers.lookup id).isSome,
    { e with triggers := e.triggers.modify id fun t => { t with enabled := enabled } })

/-- A trigger with the fields of a patch. -/
def Trigger.patch (t : Trigger) (patch : TriggerPatch) : Trigger :=
  { t with
    pattern := patch.pattern.getD t.pattern
    promptTemplate := patch.promptTemplate.getD t.promptTemplate
    enabled := patch.enabled.getD t.enabled
    maxFires := patch.maxFires.getD t.maxFires
    cooldownSecs := patch.cooldownSecs.getD t.cooldownSecs
    sessionMode := patch.sessionMode.getD t.sessionMode
    targetAgent := patch.targetAgent.getD t.targetAgent }

/-- `TriggerEngine::update`. -/
def update (e : TriggerEngine) (id : TriggerId) (patch : TriggerPatch) :
    Option Trigger × TriggerEngine :=
  match e.triggers.lookup id with
  | some trigger =>
    let triggers := e.triggers.modify id fun t => t.patch patch
    (triggers.lookup trigger.id, { e with
      triggers := triggers
      lastFired := if patch.pattern.isSome then e.lastFired.erase trigger.id else e.lastFired })
  | none => (none, e)

/-- The loop of `TriggerEngine::take_agent_triggers`. -/
def takeLoop (e : TriggerEngine) (taken : List Trigger) :
    List TriggerId → List Trigger × TriggerEngine
  | [] => (taken, e)
  | id :: ids =>
    match e.triggers.lookup id with
    | some trigger => takeLoop (e.drop id) (taken ++ [trigger]) ids
    | none => takeLoop e taken ids

/-- `TriggerEngine::take_agent_triggers`. -/
def takeAgentTriggers (e : TriggerEngine) (agentId : AgentId) : List Trigger × TriggerEngine :=
  takeLoop { e with agentTriggers := e.agentTriggers.erase agentId } []
    ((e.agentTriggers.lookup agentId).getD [])

/-- One trigger restored under a fresh id. -/
def restoreTrigger (newAgentId : AgentId) (e : TriggerEngine) (old : Trigger) (newId : TriggerId) :
    TriggerEngine :=
  (e.store { old with id := newId, agentId := newAgentId }).onIndex newAgentId (· ++ [newId])

/-- `TriggerEngine::restore_triggers`; one fresh id for each trigger. -/
def restoreTriggers (e : TriggerEngine) (newAgentId : AgentId)
    (triggers : List (Trigger × TriggerId)) : TriggerEngine :=
  triggers.foldl (fun e old => restoreTrigger newAgentId e old.1 old.2) e

/-- A trigger with the time it last fired. -/
def TriggerEngine.stamp (e : TriggerEngine) (t : Trigger) : Trigger :=
  { t with lastFiredAt := (e.lastFired.lookup t.id).or t.lastFiredAt }

/-- The file that `TriggerEngine::persist` writes. -/
def persisted (e : TriggerEngine) : List Trigger :=
  e.triggers.entries.map fun entry => e.stamp entry.2

/-- One trigger loaded. -/
def loadTrigger (e : TriggerEngine) (trigger : Trigger) : TriggerEngine :=
  let e :=
    match trigger.lastFiredAt with
    | some time => { e with lastFired := e.lastFired.insert trigger.id time }
    | none => e
  (e.store trigger).onIndex trigger.agentId fun ids =>
    if trigger.id ∈ ids then ids else ids ++ [trigger.id]

/-- `TriggerEngine::load`. -/
def load (e : TriggerEngine) (file : List Trigger) : TriggerEngine := file.foldl loadTrigger e

/-! ## Events -/

/-- An evaluation in progress; `log` lists the triggers that have fired, the first one first. -/
structure Evaluation where
  engine : TriggerEngine
  matches_ : List TriggerMatch
  stateMutated : Bool
  log : List TriggerId

/-- The trigger has fired as often as it may. -/
def Trigger.isExhausted (t : Trigger) : Bool := 0 < t.maxFires && t.maxFires ≤ t.fireCount

/-- The cooldown of a trigger, in seconds. -/
def TriggerEngine.cooldown (e : TriggerEngine) (t : Trigger) : ℕ :=
  t.cooldownSecs.getD e.defaultCooldownSecs

/-- The cooldown check; a clock that went back counts as no time. -/
def TriggerEngine.isCooling (e : TriggerEngine) (t : Trigger) (now : Time) : Bool :=
  e.cooldown t ≠ 0 && (e.lastFired.lookup t.id).any fun last =>
    max (now - last) 0 < e.cooldown t * second

/-- What a trigger sends. -/
def Trigger.message (t : Trigger) (event : Event) : TriggerMatch where
  agentId := t.targetAgent.getD t.agentId
  message := replaceStr t.promptTemplate "\x7b\x7bevent\x7d\x7d" event.description
  sessionModeOverride := t.sessionMode

/-- A trigger that is disabled because it has fired as often as it may. -/
def Evaluation.exhaust (ev : Evaluation) (id : TriggerId) : Evaluation :=
  { ev with
    engine := { ev.engine with
      triggers := ev.engine.triggers.modify id fun t => { t with enabled := false } }
    stateMutated := true }

/-- A trigger that fires. -/
def Evaluation.fire (ev : Evaluation) (id : TriggerId) (t : Trigger) (event : Event) (now : Time) :
    Evaluation where
  engine := { ev.engine with
    triggers := ev.engine.triggers.modify id fun t => { t with fireCount := t.fireCount + 1 }
    lastFired := ev.engine.lastFired.insert t.id now }
  matches_ := ev.matches_ ++ [t.message event]
  stateMutated := true
  log := ev.log ++ [id]

/-- The loop of `TriggerEngine::evaluate_with_resolver`. -/
def evaluateLoop (event : Event) (now : Time) (resolveName : AgentId → Option String)
    (ev : Evaluation) : List TriggerId → Evaluation
  | [] => ev
  | id :: ids =>
    match ev.engine.triggers.lookup id with
    | none => evaluateLoop event now resolveName ev ids
    | some t =>
      if ¬ t.enabled then evaluateLoop event now resolveName ev ids
      else if t.isExhausted then evaluateLoop event now resolveName (ev.exhaust id) ids
      else if ev.engine.isCooling t now then evaluateLoop event now resolveName ev ids
      else if matchesPattern host t.pattern event (t.agentId, resolveName t.agentId) then
        -- the budget of the event is used up
        if ev.engine.maxTriggersPerEvent ≤ ev.matches_.length then ev
        else evaluateLoop event now resolveName (ev.fire id t event now) ids
      else evaluateLoop event now resolveName ev ids

/-- The ids of the triggers in order. -/
def TriggerEngine.sortedIds (e : TriggerEngine) : List TriggerId :=
  (e.triggers.entries.map (·.1)).insertionSort (· ≤ ·)

/-- `TriggerEngine::evaluate_with_resolver`. -/
def evaluateWithResolver (e : TriggerEngine) (event : Event) (now : Time)
    (resolveName : AgentId → Option String) : Evaluation :=
  evaluateLoop host event now resolveName ⟨e, [], false, []⟩ e.sortedIds

end LibreFang.Triggers
