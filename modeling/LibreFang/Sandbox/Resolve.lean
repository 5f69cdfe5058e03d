import LibreFang.Lib.FileTree

/-!
# Resolving paths in a workspace

* `canonNew`: the path of a file that does not exist yet.
* `resolveSandboxPathExt`: the path that a tool may open for a path that a user gives.
-/

namespace LibreFang.Sandbox

open FileTree Paths

/-- `ERR_PATH_TRAVERSAL`. -/
def errPathTraversal : String := "Path traversal denied"

/-- `ERR_SANDBOX_ESCAPE`. -/
def errSandboxEscape : String := "resolves outside workspace"

/-- The hint of an error message. -/
def namedHint (additionalRoots : List Path) : String :=
  if additionalRoots.isEmpty then
    "If the path lives in a shared location, declare it under [workspaces] in agent.toml (e.g. " ++
      "`foo = \x7b path = \"shared/foo\", mode = \"rw\" \x7d`) so it becomes accessible as a named " ++
      "workspace. "
  else
    "The agent has named workspaces declared, but this path is not inside any of them. Check the " ++
      "[workspaces] entries in agent.toml and the @-prefixed roots listed in TOOLS.md. "

/-- The message for a path outside the roots. -/
def accessDenied (userPath : String) (additionalRoots : List Path) : String :=
  s!"Access denied: path '{userPath}' {errSandboxEscape}. " ++ namedHint additionalRoots ++
    "Alternatively, if you have an MCP filesystem server configured, use the mcp_filesystem_* " ++
    "tools (e.g. mcp_filesystem_read_file, mcp_filesystem_list_directory) to access files outside " ++
    "the workspace."

/-- The candidate for a path. -/
def candidateOf (path workspaceRoot : Path) : Path :=
  if path.isAbsolute then path else workspaceRoot.join path

/-- The path of a new file whose directory does not exist, on the root that it begins with. -/
def rebase (path workspaceRoot canonRoot : Path) (additionalRoots : List Path) : Path :=
  let candidate := candidateOf path workspaceRoot
  let rebased :=
    if path.isAbsolute then
      additionalRoots.findSome? fun root => (candidate.stripPrefix root).map root.join
    else none
  rebased.getD (canonRoot.join ((candidate.stripPrefix workspaceRoot).getD candidate))

/-- The path of a file that does not exist yet. -/
def canonNew (os : Os) (path workspaceRoot canonRoot : Path) (additionalRoots : List Path) :
    Except String Path :=
  let candidate := candidateOf path workspaceRoot
  match candidate.parent, candidate.fileName with
  | none, _ => .error "Invalid path: no parent directory"
  | some _, none => .error "Invalid path: no filename"
  | some parent, some filename =>
    if os.exists parent then
      match os.canonicalize parent with
      | .error e => .error s!"Failed to resolve parent directory: {e.text}"
      | .ok canonParent => .ok (canonParent.join ⟨[.normal filename], false⟩)
    else .ok (rebase path workspaceRoot canonRoot additionalRoots)

/-- The canonical path of a candidate. -/
def canonCandidate (os : Os) (path workspaceRoot canonRoot : Path) (additionalRoots : List Path) :
    Except String Path :=
  let candidate := candidateOf path workspaceRoot
  if os.exists candidate then
    match os.canonicalize candidate with
    | .error e => .error s!"Failed to resolve path: {e.text}"
    | .ok p => .ok p
  else canonNew os path workspaceRoot canonRoot additionalRoots

/-- `resolve_sandbox_path_ext`. -/
def resolveSandboxPathExt (os : Os) (userPath : String) (workspaceRoot : Path)
    (additionalRoots : List Path) : Except String Path :=
  let path := Path.ofString userPath
  if path.components.any (· == .parentDir) then
    .error s!"{errPathTraversal}: '..' components are forbidden"
  else
    match os.canonicalize workspaceRoot with
    | .error e => .error s!"Failed to resolve workspace root: {e.text}"
    | .ok canonRoot =>
      match canonCandidate os path workspaceRoot canonRoot additionalRoots with
      | .error e => .error e
      | .ok p =>
        if ¬ p.startsWith canonRoot ∧ ¬ additionalRoots.any fun root => p.startsWith root then
          .error (accessDenied userPath additionalRoots)
        else .ok p

/-- `resolve_sandbox_path`. -/
def resolveSandboxPath (os : Os) (userPath : String) (workspaceRoot : Path) : Except String Path :=
  resolveSandboxPathExt os userPath workspaceRoot []

end LibreFang.Sandbox
