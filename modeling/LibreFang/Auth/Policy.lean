import LibreFang.Caps.Glob
import LibreFang.Lib.Table

/-!
# The policy of a user

* `ChannelToolPolicy.checkTool`, `UserToolPolicy.checkTool`, `UserToolCategories.checkTool`: the
  lists of allowed and denied tools, tool names compared without regard to case.
* `ResolvedUserPolicy.evaluate`: the layers in order.
-/

namespace LibreFang.Auth

open Caps

/-- `UserToolDecision`. -/
inductive UserToolDecision
  | allow
  | deny
  | needsRoleEscalation
  deriving DecidableEq, Repr

/-- `UserToolGate`. -/
inductive UserToolGate
  | allow
  | deny (reason : String)
  | needsApproval (reason : String)
  deriving DecidableEq, Repr

/-- `ToolGroup`. -/
structure ToolGroup where
  name : String
  tools : List String
  deriving DecidableEq, Repr

/-- `str::to_ascii_lowercase`. -/
def toAsciiLowercase (s : String) : List Char := s.toList.map Char.toLower

/-- One of the patterns matches the tool name. -/
def anyMatches (patterns : List String) (toolName : String) : Bool :=
  patterns.any fun p => globMatches (toAsciiLowercase p) (toAsciiLowercase toolName)

/-! ## The layers -/

/-- `ChannelToolPolicy`. -/
structure ChannelToolPolicy where
  allowedTools : List String
  deniedTools : List String
  deriving DecidableEq, Repr

/-- `ChannelToolPolicy::check_tool`. -/
def ChannelToolPolicy.checkTool (rule : ChannelToolPolicy) (toolName : String) : Option Bool :=
  if anyMatches rule.deniedTools toolName then some false
  else if rule.allowedTools ≠ [] then some (anyMatches rule.allowedTools toolName)
  else none

/-- `UserToolPolicy`. -/
structure UserToolPolicy where
  allowedTools : List String
  deniedTools : List String
  deriving DecidableEq, Repr

/-- `UserToolPolicy::default`. -/
instance : Inhabited UserToolPolicy := ⟨⟨[], []⟩⟩

/-- `UserToolPolicy::check_tool`. -/
def UserToolPolicy.checkTool (policy : UserToolPolicy) (toolName : String) : UserToolDecision :=
  if anyMatches policy.deniedTools toolName then .deny
  else if policy.allowedTools ≠ [] then
    if anyMatches policy.allowedTools toolName then .allow else .needsRoleEscalation
  else .needsRoleEscalation

/-- `UserToolCategories`. -/
structure UserToolCategories where
  allowedGroups : List String
  deniedGroups : List String
  deriving DecidableEq, Repr

/-- `UserToolCategories::default`. -/
instance : Inhabited UserToolCategories := ⟨⟨[], []⟩⟩

/-- The tool is in one of the named groups. -/
def inGroups (groups : List ToolGroup) (names : List String) (toolName : String) : Bool :=
  names.any fun name =>
    match groups.find? (·.name == name) with
    | some group => anyMatches group.tools toolName
    | none => false

/-- `UserToolCategories::check_tool`. -/
def UserToolCategories.checkTool (categories : UserToolCategories) (toolName : String)
    (groups : List ToolGroup) : Option Bool :=
  if inGroups groups categories.deniedGroups toolName then some false
  else if categories.allowedGroups ≠ [] then
    some (inGroups groups categories.allowedGroups toolName)
  else none

/-- `ResolvedUserPolicy`, with the layers that decide about tools. -/
structure ResolvedUserPolicy where
  toolPolicy : UserToolPolicy
  channelToolRules : Table String ChannelToolPolicy
  toolCategories : UserToolCategories

/-- What a layer that may have no opinion decides. -/
def ofOpinion : Option Bool → Option UserToolDecision
  | some false => some .deny
  | some true => some .allow
  | none => none

/-- `ResolvedUserPolicy::evaluate`. -/
def ResolvedUserPolicy.evaluate (policy : ResolvedUserPolicy) (toolName : String)
    (channel : Option String) (groups : List ToolGroup) : UserToolDecision :=
  match policy.toolPolicy.checkTool toolName with
  | .allow => .allow
  | .deny => .deny
  | .needsRoleEscalation =>
    let rule := channel.bind policy.channelToolRules.lookup
    match rule.bind fun rule => ofOpinion (rule.checkTool toolName) with
    | some decision => decision
    | none =>
      (ofOpinion (policy.toolCategories.checkTool toolName groups)).getD .needsRoleEscalation

end LibreFang.Auth
