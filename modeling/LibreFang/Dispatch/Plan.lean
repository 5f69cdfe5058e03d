import Mathlib.Data.List.Range
import LibreFang.Lib.Paths

/-!
# The planner of parallel tool calls

A batch of tool calls is cut into groups: the calls of a group may run at the same time, the groups
run one after the other.

* `classifyTool`, `parallelSafety`: how a tool is classified, by its schema or by its name.
* `normalizePath`, `pathsOverlap`, `extractScopePath`: the scope of a call that writes.
* `place`, **`planBatch`**: the groups.
-/

namespace LibreFang.Dispatch

open Paths

/-- A JSON value. -/
inductive Value
  | null
  | bool (b : Bool)
  | number (text : String)
  | string (s : String)
  | array (items : List Value)
  | object (fields : List (String × Value))

/-- `Value::as_object`. -/
def Value.asObject : Value → Option (List (String × Value))
  | object fields => some fields
  | _ => none

/-- `Value::as_str`. -/
def Value.asStr : Value → Option String
  | string s => some s
  | _ => none

/-- `Value::as_bool`. -/
def Value.asBool : Value → Option Bool
  | bool b => some b
  | _ => none

/-- `Map::get`. -/
def getField (fields : List (String × Value)) (key : String) : Option Value :=
  (fields.find? (·.1 = key)).map (·.2)

/-- `Value::get`. -/
def Value.get (v : Value) (key : String) : Option Value := v.asObject.bind (getField · key)

/-- `ToolDefinition`, what a classification reads. -/
structure ToolDefinition where
  name : String
  inputSchema : Value

/-- `ToolCall`. -/
structure ToolCall where
  id : String
  name : String
  input : Value

/-! ## Classification -/

/-- `ToolApprovalClass`. -/
inductive ToolApprovalClass
  | readonlyScoped
  | readonlySearch
  | mutating
  | execCapable
  | controlPlane
  | interactive
  | unknown
  deriving DecidableEq, Repr

/-- `ToolApprovalClass::from_snake_case`. -/
def ToolApprovalClass.fromSnakeCase (s : String) : Option ToolApprovalClass :=
  if s = "readonly_scoped" then some readonlyScoped
  else if s = "readonly_search" then some readonlySearch
  else if s = "mutating" then some mutating
  else if s = "exec_capable" then some execCapable
  else if s = "control_plane" then some controlPlane
  else if s = "interactive" then some interactive
  else if s = "unknown" then some unknown
  else none

/-- `ParallelSafety`. -/
inductive ParallelSafety
  | readOnly
  | writeScoped
  | writeShared
  | exclusive
  deriving DecidableEq, Repr

/-- `ParallelSafety::from_snake_case`. -/
def ParallelSafety.fromSnakeCase (s : String) : Option ParallelSafety :=
  if s = "read_only" then some readOnly
  else if s = "write_scoped" then some writeScoped
  else if s = "write_shared" then some writeShared
  else if s = "exclusive" then some exclusive
  else none

/-- `ParallelSafety::from_approval_class`. -/
def ParallelSafety.fromApprovalClass : ToolApprovalClass → ParallelSafety
  | .readonlyScoped | .readonlySearch => readOnly
  | .mutating => writeScoped
  | .execCapable => writeShared
  | .interactive | .controlPlane => exclusive
  | .unknown => writeShared

/-- What a schema says of itself: the first of a field of its own and a field of its metadata that
can be read. -/
def explicitFromSchema {Class : Type} (fromSnakeCase : String → Option Class) (own nested : String)
    (schema : Value) : Option Class :=
  schema.asObject.bind fun fields =>
    (((getField fields own).bind Value.asStr).bind fromSnakeCase).or
      ((((getField fields "metadata").bind Value.asObject).bind fun metadata =>
        (getField metadata nested).bind Value.asStr).bind fromSnakeCase)

/-- `explicit_parallel_safety_from_schema`. -/
def explicitParallelSafetyFromSchema : Value → Option ParallelSafety :=
  explicitFromSchema ParallelSafety.fromSnakeCase "x-parallel-safety" "parallel_safety"

/-- `explicit_class_from_schema`. -/
def explicitClassFromSchema : Value → Option ToolApprovalClass :=
  explicitFromSchema ToolApprovalClass.fromSnakeCase "x-tool-class" "tool_class"

/-- The names of tools that evolve skills begin with `skill_evolve_`. -/
def isSkillEvolve (name : String) : Bool := "skill_evolve_".toList.isPrefixOf name.toList

/-- `classify_by_name`. -/
def classifyByName (name : String) : ToolApprovalClass :=
  if name ∈ ["file_read", "glob", "grep", "ls", "cat"] then .readonlyScoped
  else if name ∈ ["web_search", "web_fetch"] then .readonlySearch
  else if name ∈ ["file_write", "file_edit", "apply_patch"] then .mutating
  else if name ∈ ["shell_exec", "python_exec", "exec"] then .execCapable
  else if name ∈ ["config_set", "agent_spawn", "agent_kill", "kernel_reload"] then .controlPlane
  else if name ∈ ["approval_request", "totp_request"] then .interactive
  else if isSkillEvolve name then .mutating
  else .unknown

/-- `classify_tool`. -/
def classifyTool (name : String) (definition : Option ToolDefinition) : ToolApprovalClass :=
  (definition.bind fun d => explicitClassFromSchema d.inputSchema).getD (classifyByName name)

/-- `parallel_safety`. -/
def parallelSafety (name : String) (definition : Option ToolDefinition) : ParallelSafety :=
  (definition.bind fun d => explicitParallelSafetyFromSchema d.inputSchema).getD
    (.fromApprovalClass (classifyTool name definition))

/-! ## Scopes -/

/-- `NormalizedPath`. -/
inductive NormalizedPath
  | real (path : Path)
  | virtual (key : String)
  deriving DecidableEq, Repr

/-- `lexical_clean` at one component; `poppedRoot` says that the root has been met. -/
def cleanComponent (state : Path × Bool) (comp : Component) : Path × Bool :=
  let (out, poppedRoot) := state
  match comp with
  | .rootDir => (out.join (Path.ofString "/"), true)
  | .curDir => (out, poppedRoot)
  | .parentDir =>
    let popped := out.parent.getD out
    if out.parent = none ∨ poppedRoot ∧ popped.components = [] then
      (popped.join (Path.ofString (if poppedRoot then "/" else "..")), poppedRoot)
    else (popped, poppedRoot)
  | .normal name => (out.join ⟨[.normal name], false⟩, poppedRoot)

/-- `lexical_clean`. -/
def lexicalClean (path : Path) : Path :=
  let (out, _) := path.components.foldl cleanComponent (⟨[], false⟩, false)
  if out.components = [] then Path.ofString "." else out

/-- `normalize_path` in a working directory, if there is one. -/
def normalizePath (cwd : Option Path) (raw : String) : NormalizedPath :=
  let p := Path.ofString (String.ofList (raw.toList.rdropWhile (· == '/')))
  let expanded :=
    if p.isAbsolute then p
    else match cwd with
      | some cwd => cwd.join p
      | none => p
  .real (lexicalClean expanded)

/-- `paths_overlap`. -/
def pathsOverlap : NormalizedPath → NormalizedPath → Bool
  | .virtual x, .virtual y => x == y
  | .real x, .real y => x.startsWith y || y.startsWith x
  | _, _ => false

/-- `extract_scope_path`. -/
def extractScopePath (cwd : Option Path) (tool : String) (input : Value) : Option NormalizedPath :=
  if tool ∈ ["file_write", "file_edit", "apply_patch"] then
    ((input.get "path").bind Value.asStr).bind fun raw =>
      if raw = "" then none else some (normalizePath cwd raw)
  else if isSkillEvolve tool then
    ((input.get "name").bind Value.asStr).map fun name => .virtual ("skill::" ++ name)
  else none

/-! ## The plan -/

/-- `ParallelPlan`. -/
structure ParallelPlan where
  groups : List (List ℕ)
  deriving DecidableEq, Repr

/-- `find_def`. -/
def findDef (defs : List ToolDefinition) (name : String) : Option ToolDefinition :=
  defs.find? (·.name = name)

variable (cwd : Option Path) (defs : List ToolDefinition)

/-- The safety of a call among the definitions. -/
def safety (call : ToolCall) : ParallelSafety := parallelSafety call.name (findDef defs call.name)

/-- The groups that are closed, the group that is open, and the scopes that it writes. -/
structure Buckets where
  groups : List (List ℕ)
  current : List ℕ
  currentPaths : List NormalizedPath
  deriving DecidableEq, Repr

/-- The open group is closed. -/
def Buckets.flush (b : Buckets) : Buckets := ⟨b.groups ++ [b.current], [], []⟩

/-- The loop of `plan_batch` at one call. -/
def place (b : Buckets) (i : ℕ) (call : ToolCall) : Buckets :=
  match safety defs call with
  -- unreachable in the source: such a batch is not planned by the loop
  | .exclusive => b
  | .writeShared =>
    let b := if b.current.isEmpty then b else b.flush
    { b with groups := b.groups ++ [[i]] }
  | .readOnly => { b with current := b.current ++ [i] }
  | .writeScoped =>
    match extractScopePath cwd call.name call.input with
    | some p =>
      let b := if b.currentPaths.any (pathsOverlap p) then b.flush else b
      { b with current := b.current ++ [i], currentPaths := b.currentPaths ++ [p] }
    | none =>
      let b := if b.current.isEmpty then b else b.flush
      { b with current := b.current ++ [i] }.flush

/-- The loop of `plan_batch` over the calls from the one with the given index. -/
def placeAll (b : Buckets) (i : ℕ) : List ToolCall → Buckets
  | [] => b
  | call :: calls => placeAll (place cwd defs b i call) (i + 1) calls

/-- `plan_batch`. -/
def planBatch (calls : List ToolCall) : ParallelPlan :=
  if calls.isEmpty then ⟨[]⟩
  else if calls.length = 1 then ⟨[[0]]⟩
  else if calls.any (safety defs · = .exclusive) then ⟨(List.range calls.length).map ([·])⟩
  else
    let b := placeAll cwd defs ⟨[], [], []⟩ 0 calls
    ⟨if b.current.isEmpty then b.groups else b.groups ++ [b.current]⟩

end LibreFang.Dispatch
