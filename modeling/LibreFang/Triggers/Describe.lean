import LibreFang.Lib.Slices
import LibreFang.Triggers.Engine

/-!
# The description of an event

Before an event is evaluated it is described in words. A slice of a text that starts or ends inside
a character panics.

* `Events.EventPayload`: the payload of an event with all its fields.
* `Formats`: what lies outside: the texts of numbers and of JSON, and the parser of JSON.
* **`completes_iff`**: it completes unless the text of a JSON payload has a character across its
  300th byte.
-/

/-! ## Events -/

namespace LibreFang.Events

/-- `MessageRole`. -/
inductive MessageRole
  | user
  | agent
  | system
  | tool
  deriving DecidableEq, Repr

/-- `AgentMessage`, the parts that are described. -/
structure AgentMessage where
  content : String
  role : MessageRole

/-- `ToolOutput`, the parts that are described. -/
structure ToolOutput where
  toolId : String
  content : String
  success : Bool
  executionTimeMs : ℕ

/-- `MemoryOperation`. -/
inductive MemoryOperation
  | created
  | updated
  | deleted
  deriving DecidableEq, Repr

/-- `MemoryDelta`. -/
structure MemoryDelta where
  operation : MemoryOperation
  key : String
  agentId : String

/-- `LifecycleEvent`. -/
inductive LifecycleEvent
  | spawned (agentId name : String)
  | started (agentId : String)
  | suspended (agentId : String)
  | resumed (agentId : String)
  | terminated (agentId reason : String)
  | crashed (agentId error : String)

/-- `NetworkEvent`. -/
inductive NetworkEvent
  | peerConnected (peerId : String)
  | peerDisconnected (peerId : String)
  | messageReceived (fromPeer fromAgent : String)
  | discoveryResult (service : String) (providers : List String)

/-- `SystemEvent`; a floating-point number is given by its bits. -/
inductive SystemEvent
  | kernelStarted
  | kernelStopping
  | quotaWarning (agentId resource : String) (usagePercent : UInt32)
  | healthCheck (status : String)
  | quotaEnforced (agentId : String) (spent limit : UInt64)
  | modelRouted (agentId complexity model : String)
  | userAction (userId action result : String)
  | healthCheckFailed (agentId : String) (unresponsiveSecs : ℕ)
  | taskPosted (taskId title : String) (assignedTo createdBy : Option String)
  | taskClaimed (taskId claimedBy : String)
  | taskCompleted (taskId completedBy result : String)

/-- `ApprovalRequestedEvent`, the parts that are described. -/
structure ApprovalRequestedEvent where
  agentId : String
  toolName : String
  description : String
  riskLevel : String

/-- `ApprovalResolvedEvent`, the parts that are described. -/
structure ApprovalResolvedEvent where
  requestId : String
  decision : String

/-- `EventPayload`. -/
inductive EventPayload
  | message (msg : AgentMessage)
  | toolResult (tr : ToolOutput)
  | memoryUpdate (delta : MemoryDelta)
  | lifecycle (le : LifecycleEvent)
  | network (ne : NetworkEvent)
  | system (se : SystemEvent)
  | approvalRequested (ar : ApprovalRequestedEvent)
  | approvalResolved (ar : ApprovalResolvedEvent)
  | custom (data : List UInt8)

/-- A JSON value. -/
inductive Value
  | null
  | bool (b : Bool)
  | number (text : String)
  | string (s : String)
  | array (items : List Value)
  | object (fields : List (String × Value))

/-- `Value::get` by a key. -/
def Value.get (value : Value) (key : String) : Option Value :=
  match value with
  | .object fields => fields.lookup key
  | _ => none

/-- `Value::as_str`. -/
def Value.asStr : Value → Option String
  | .string s => some s
  | _ => none

/-- The `Debug` text of a role. -/
def MessageRole.debug : MessageRole → String
  | .user => "User"
  | .agent => "Agent"
  | .system => "System"
  | .tool => "Tool"

/-- The `Debug` text of an operation. -/
def MemoryOperation.debug : MemoryOperation → String
  | .created => "Created"
  | .updated => "Updated"
  | .deleted => "Deleted"

end LibreFang.Events

namespace LibreFang.Triggers

open Slices

/-! ## Descriptions -/

/-- What the description uses of its surroundings. -/
structure Formats where
  /-- `{:.1}` of an `f32`. -/
  percent : UInt32 → String
  /-- `{:.4}` of an `f64`. -/
  amount : UInt64 → String
  /-- The `Debug` texts that quote other texts. -/
  debugNetwork : Events.NetworkEvent → String
  debugSystem : Events.SystemEvent → String
  /-- `serde_json::from_slice`. -/
  fromSlice : List UInt8 → Option Events.Value
  /-- `Value::to_string`. -/
  toText : Events.Value → String

variable (formats : Formats)

/-- `truncate_str`, with its loop and its slice. -/
def truncateStr (s : String) (maxBytes : ℕ) : Option String :=
  if byteLen s.toList ≤ maxBytes then some s
  else (cut (floorBoundary s.toList maxBytes) s.toList).map fun halves => String.ofList halves.1

/-- The lifecycle arm of `describe_event`. -/
def describeLifecycle : Events.LifecycleEvent → String
  | .spawned agentId name => s!"Agent '{name}' (id: {agentId}) was spawned"
  | .started agentId => s!"Agent {agentId} started"
  | .suspended agentId => s!"Agent {agentId} suspended"
  | .resumed agentId => s!"Agent {agentId} resumed"
  | .terminated agentId reason => s!"Agent {agentId} terminated: {reason}"
  | .crashed agentId error => s!"Agent {agentId} crashed: {error}"

/-- The system arm of `describe_event`. -/
def describeSystem : Events.SystemEvent → String
  | .kernelStarted => "Kernel started"
  | .kernelStopping => "Kernel stopping"
  | .quotaWarning agentId resource usagePercent =>
    s!"Quota warning: agent {agentId}, {resource} at {formats.percent usagePercent}%"
  | .healthCheck status => s!"Health check: {status}"
  | .quotaEnforced agentId spent limit =>
    s!"Quota enforced: agent {agentId}, spent ${formats.amount spent} / ${formats.amount limit}"
  | .modelRouted agentId complexity model =>
    s!"Model routed: agent {agentId}, complexity={complexity}, model={model}"
  | .userAction userId action result => s!"User action: {userId} {action} -> {result}"
  | .healthCheckFailed agentId unresponsiveSecs =>
    s!"Health check failed: agent {agentId}, unresponsive for {unresponsiveSecs}s"
  | .taskPosted taskId title _ _ => s!"Task posted: {taskId} \"{title}\""
  | .taskClaimed taskId claimedBy => s!"Task claimed: {taskId} by {claimedBy}"
  | .taskCompleted taskId completedBy result =>
    s!"Task completed: {taskId} by {completedBy} result={result}"

/-- The summary of a JSON payload; `&s[..300]` is a slice. -/
def summarize (s : String) : Option String :=
  if 300 < byteLen s.toList then
    (cut 300 s.toList).map fun halves => s!"{String.ofList halves.1}..."
  else some s

/-- The arm of `describe_event` for a user-defined payload. -/
def describeCustom (data : List UInt8) : Option String :=
  match formats.fromSlice data with
  | some val =>
    let eventType := ((val.get "type").bind Events.Value.asStr).getD "unknown"
    (summarize (formats.toText val)).map fun summary =>
      s!"Custom event: type={eventType}, payload={summary}"
  | none => some s!"Custom event ({data.length} bytes)"

/-- `describe_event`; `none` when it panics. -/
def describeEvent : Events.EventPayload → Option String
  | .message msg => some s!"Message from {msg.role.debug}: {msg.content}"
  | .toolResult tr =>
    let outcome := if tr.success then "succeeded" else "failed"
    (truncateStr tr.content 200).map fun content =>
      s!"Tool '{tr.toolId}' {outcome} ({tr.executionTimeMs}ms): {content}"
  | .memoryUpdate delta =>
    some s!"Memory {delta.operation.debug} on key '{delta.key}' for agent {delta.agentId}"
  | .lifecycle le => some (describeLifecycle le)
  | .network ne => some s!"Network event: {formats.debugNetwork ne}"
  | .system se => some (describeSystem formats se)
  | .approvalRequested ar =>
    some (s!"Approval requested: agent {ar.agentId} wants to use tool '{ar.toolName}' " ++
      s!"(risk: {ar.riskLevel}): {ar.description}")
  | .approvalResolved ar => some s!"Approval resolved: request {ar.requestId} — {ar.decision}"
  | .custom data => describeCustom formats data

/-! ## Evaluation -/

/-- The parts of a payload that are matched. -/
def matchedParts : Events.EventPayload → EventPayload
  | .lifecycle (.spawned _ name) => .lifecycle (.spawned name)
  | .lifecycle (.started _) => .lifecycle .started
  | .lifecycle (.suspended _) => .lifecycle .suspended
  | .lifecycle (.resumed _) => .lifecycle .resumed
  | .lifecycle (.terminated ..) => .lifecycle .terminated
  | .lifecycle (.crashed ..) => .lifecycle .crashed
  | .system (.taskPosted taskId title assignedTo createdBy) =>
    .system (.taskPosted assignedTo)
      (formats.debugSystem (.taskPosted taskId title assignedTo createdBy))
  | .system (.taskClaimed taskId claimedBy) =>
    .system .taskClaimed (formats.debugSystem (.taskClaimed taskId claimedBy))
  | .system (.taskCompleted taskId completedBy result) =>
    .system .taskCompleted (formats.debugSystem (.taskCompleted taskId completedBy result))
  | .system se => .system .other (formats.debugSystem se)
  | .memoryUpdate delta => .memoryUpdate delta.key
  | _ => .other

/-- `TriggerEngine::evaluate_with_resolver` from the event on; `none` when it panics. -/
def evaluatePayload (host : Host) (e : TriggerEngine) (payload : Events.EventPayload) (now : Time)
    (resolveName : AgentId → Option String) : Option Evaluation :=
  (describeEvent formats payload).map fun description =>
    evaluateWithResolver host e ⟨matchedParts formats payload, description⟩ now resolveName

/-- The event is described, and evaluated in every engine. -/
def Completes (payload : Events.EventPayload) : Prop :=
  (describeEvent formats payload).isSome = true ∧
    ∀ host e now resolveName, (evaluatePayload formats host e payload now resolveName).isSome = true

section Completes

variable {formats}

/-- **The other slice** is made at a boundary. -/
theorem truncateStr_eq (s : String) (maxBytes : ℕ) : truncateStr s maxBytes =
    some (if byteLen s.toList ≤ maxBytes then s else Text.truncateStr s maxBytes) := by
  unfold truncateStr
  split
  · rfl
  · have hcut := cut_floorBoundary s.toList maxBytes
    obtain ⟨halves, hhalves, heq⟩ := Option.map_eq_some_iff.mp hcut
    rw [hhalves]
    exact congrArg (some ∘ String.ofList) heq

theorem isSome_summarize_iff (s : String) : (summarize s).isSome = true ↔
    (300 < byteLen s.toList → isBoundary s.toList 300 = true) := by
  unfold summarize isBoundary
  split
  · next h => rw [Option.isSome_map, imp_iff_right h]
  · next h => exact iff_of_true rfl fun hlong => absurd hlong h

/-- **An event is described** unless its JSON text has a character across its 300th byte. -/
theorem isSome_describeEvent_iff (payload : Events.EventPayload) :
    (describeEvent formats payload).isSome = true ↔
      ∀ data val, payload = .custom data → formats.fromSlice data = some val →
        300 < byteLen (formats.toText val).toList →
          isBoundary (formats.toText val).toList 300 = true := by
  cases payload with
  | custom data =>
    unfold describeEvent describeCustom
    dsimp only
    cases hval : formats.fromSlice data with
    | none =>
      refine iff_of_true rfl fun data' val heq hval' => ?_
      cases heq
      rw [hval] at hval'
      cases hval'
    | some val =>
      dsimp only
      rw [Option.isSome_map, isSome_summarize_iff]
      constructor
      · rintro h data' val' heq hval'
        cases heq
        obtain rfl := Option.some.inj (hval.symm.trans hval')
        exact h
      · intro h
        exact h data val rfl hval
  | toolResult tr =>
    refine iff_of_true ?_ fun _ _ heq => nomatch heq
    unfold describeEvent
    dsimp only
    rw [Option.isSome_map, truncateStr_eq]
    rfl
  | _ => exact iff_of_true rfl fun _ _ heq => nomatch heq

/-- **An event is evaluated** unless its JSON text has a character across its 300th byte. -/
theorem completes_iff (formats : Formats) (payload : Events.EventPayload) :
    Completes formats payload ↔
      ∀ data val, payload = .custom data → formats.fromSlice data = some val →
        300 < byteLen (formats.toText val).toList →
          isBoundary (formats.toText val).toList 300 = true := by
  rw [← isSome_describeEvent_iff]
  refine and_iff_left_of_imp fun h host e now resolveName => ?_
  unfold evaluatePayload
  rw [Option.isSome_map]
  exact h

end Completes

/-! ## A payload with an accent -/

/-- A JSON text of 302 bytes: the second byte of the accented letter is the 301st. -/
def accentText : List Char := ('"' :: List.replicate 298 'a') ++ 'é' :: ['"']

/-- Surroundings that read this text and write it again. -/
def accentFormats : Formats where
  percent _ := ""
  amount _ := ""
  debugNetwork _ := ""
  debugSystem _ := ""
  fromSlice data :=
    if data = Text.utf8 (String.ofList accentText) then
      some (.string (String.ofList (List.replicate 298 'a' ++ ['é'])))
    else none
  toText
    | .string s => String.ofList ('"' :: s.toList ++ ['"'])
    | _ => ""

/-- The event of this payload is not described. -/
theorem accent_not_completes :
    ¬ Completes accentFormats (.custom (Text.utf8 (String.ofList accentText))) := by
  rintro ⟨h, -⟩
  have hbytes : byteLen ('"' :: List.replicate 298 'a') + 1 = 300 := by
    rw [byteLen_cons, byteLen_replicate]
    decide
  have hinside : isBoundary accentText 300 = false := by
    rw [← hbytes]
    exact not_isBoundary_inside _ _ Nat.one_pos (by decide)
  have htext : (accentFormats.toText
      (.string (String.ofList (List.replicate 298 'a' ++ ['é'])))).toList = accentText := by
    unfold accentFormats accentText
    simp only [String.toList_ofList, List.cons_append, List.append_assoc, List.nil_append]
  have hlong : 300 < byteLen accentText := by
    unfold accentText
    rw [byteLen_append, byteLen_cons, byteLen_replicate]
    decide
  have hparse : accentFormats.fromSlice (Text.utf8 (String.ofList accentText)) =
      some (.string (String.ofList (List.replicate 298 'a' ++ ['é']))) := by
    unfold accentFormats
    dsimp only
    generalize Text.utf8 (String.ofList accentText) = data
    exact if_pos rfl
  have hboundary := (isSome_describeEvent_iff _).mp h _ _ rfl hparse (htext.symm ▸ hlong)
  rw [htext, hinside] at hboundary
  cases hboundary

end LibreFang.Triggers
