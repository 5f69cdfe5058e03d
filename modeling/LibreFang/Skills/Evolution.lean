import Mathlib.Data.List.Sort
import LibreFang.Lib.Calendar
import LibreFang.Lib.Runs
import LibreFang.Lib.Text

/-!
# The evolution of a skill

A skill is a directory with a prompt, a manifest, a history of versions and snapshots of earlier
prompts. Snapshots are files, and the order of their names is that of their instants.

* `SkillDir`: the directory; `load`: a freshly loaded skill.
* `saveRollbackSnapshot`: one more snapshot, and the oldest ones are evicted.
* `updateSkill`, `patchSkill`, `rollbackSkill`: the calls, with their errors.
-/

namespace LibreFang.Skills

open Calendar

/-- `MAX_PROMPT_CONTEXT_CHARS`. -/
def maxPromptContextChars : ℕ := 160000

/-- `MAX_VERSION_HISTORY`. -/
def maxVersionHistory : ℕ := 10

/-- `SkillError`, the variants of the calls. -/
inductive SkillError
  | invalidManifest (message : String)
  | securityBlocked (message : String)
  | notFound (message : String)
  deriving DecidableEq, Repr

/-- `MatchStrategy`. -/
inductive MatchStrategy
  | exact
  | whitespaceStripped
  | lineTrimmed
  | whitespaceNormalized
  | indentFlexible
  | blockAnchor
  deriving DecidableEq, Repr

/-- The name of a strategy, as it is printed. -/
def MatchStrategy.name : MatchStrategy → String
  | exact => "Exact"
  | whitespaceStripped => "WhitespaceStripped"
  | lineTrimmed => "LineTrimmed"
  | whitespaceNormalized => "WhitespaceNormalized"
  | indentFlexible => "IndentFlexible"
  | blockAnchor => "BlockAnchor"

/-- `FuzzyReplaceResult`. -/
structure FuzzyReplaceResult where
  newContent : String
  matchCount : ℕ
  strategy : MatchStrategy
  deriving DecidableEq, Repr

/-- `WarningSeverity`. -/
inductive WarningSeverity
  | info
  | warning
  | critical
  deriving DecidableEq, Repr

/-- `SkillWarning`. -/
structure SkillWarning where
  severity : WarningSeverity
  message : String
  deriving DecidableEq, Repr

/-- The functions of texts that the calls use. -/
structure Host where
  /-- `SkillVerifier::scan_prompt_content`. -/
  scanPromptContent : String → List SkillWarning
  /-- `SkillVerifier::sha256_hex`. -/
  sha256Hex : String → String
  /-- `fuzzy_find_and_replace`. -/
  fuzzyFindAndReplace : String → String → String → Bool → Except SkillError FuzzyReplaceResult
  /-- `semver::Version::parse`, one more patch, and printed without its tags. -/
  semverBump : String → Option String

/-! ## The directory of a skill -/

/-- A file of `.rollback`. -/
structure Snapshot where
  name : List Char
  content : String
  deriving DecidableEq, Repr

/-- `SkillVersionEntry`. -/
structure SkillVersionEntry where
  version : String
  timestamp : List Char
  changelog : String
  contentHash : String
  author : Option String
  deriving DecidableEq, Repr

/-- `SkillEvolutionMeta`. -/
structure SkillEvolutionMeta where
  versions : List SkillVersionEntry
  useCount : ℕ
  evolutionCount : ℕ
  mutationCount : ℕ
  deriving DecidableEq, Repr

/-- The directory of a skill: `prompt_context.md`, the version and the prompt in `skill.toml`, the
files of `.rollback`, and `.evolution.json`. -/
structure SkillDir where
  prompt : Option String
  version : String
  inlinePrompt : Option String
  rollback : Option (List Snapshot)
  evolution : SkillEvolutionMeta
  deriving DecidableEq, Repr

/-- The files of `.rollback`, none if there is no such directory. -/
def SkillDir.files (dir : SkillDir) : List Snapshot := dir.rollback.getD []

/-- `InstalledSkill`, what the calls read of it. -/
structure InstalledSkill where
  name : String
  version : String
  promptContext : Option String
  deriving DecidableEq, Repr

/-- The text is there and not empty. -/
def nonempty (text : Option String) : Option String := text.filter (· ≠ "")

/-- `load_installed_skill_from_disk`. -/
def load (name : String) (dir : SkillDir) : InstalledSkill where
  name := name
  version := dir.version
  promptContext :=
    if (nonempty dir.inlinePrompt).isSome then dir.inlinePrompt
    else (nonempty dir.prompt).or dir.inlinePrompt

variable (host : Host)

/-- `validate_prompt_content`. -/
def validatePromptContent (content : String) : Except SkillError Unit :=
  if maxPromptContextChars < content.utf8ByteSize then
    .error (.invalidManifest (s!"Prompt context too large: {content.utf8ByteSize} chars " ++
      s!"(max {maxPromptContextChars})"))
  else
    let critical := (host.scanPromptContent content).filter (·.severity = .critical)
    if critical.isEmpty then .ok ()
    else .error (.securityBlocked
      ("Prompt content blocked: " ++ "; ".intercalate (critical.map (·.message))))

/-! ## Snapshots -/

/-- What the names of snapshots begin with. -/
def snapshotPrefix : List Char := "prompt_context_".toList

/-- The name of a snapshot without its ending. -/
def snapshotBase (now : Time) (pid : ℕ) : List Char :=
  snapshotPrefix ++ (compactText now ++ '_' :: Nat.toDigits 10 pid)

/-- The name of a snapshot that is tried after a number of others. -/
def snapshotName (now : Time) (pid : ℕ) : ℕ → List Char
  | 0 => snapshotBase now pid ++ ".md".toList
  | dedupe + 1 => snapshotBase now pid ++ '_' :: (Nat.toDigits 10 (dedupe + 1) ++ ".md".toList)

/-- `Path::exists`. -/
def hasFile (files : List Snapshot) (name : List Char) : Bool :=
  files.any fun f => decide (f.name = name)

theorem hasFile_iff {files : List Snapshot} {name : List Char} :
    hasFile files name = true ↔ ∃ f ∈ files, f.name = name := by
  unfold hasFile
  simp only [List.any_eq_true, decide_eq_true_eq]

/-- The first name that no file has. -/
def freeName (files : List Snapshot) (now : Time) (pid : ℕ) : List Char :=
  let isFree (n : ℕ) : Bool := !hasFile files (snapshotName now pid n)
  snapshotName now pid (((List.range (files.length + 1)).find? isFree).getD 0)

/-- The snapshots among the files, sorted by their names. -/
def sortedSnapshots (files : List Snapshot) : List Snapshot :=
  (files.filter fun f => snapshotPrefix.isPrefixOf f.name).insertionSort fun f g =>
    ¬ g.name < f.name

/-- Files are removed. -/
def removeFiles (files removed : List Snapshot) : List Snapshot :=
  files.filter fun f => !hasFile removed f.name

/-- `save_rollback_snapshot`. -/
def saveRollbackSnapshot (dir : SkillDir) (content : String) (now : Time) (pid : ℕ) : SkillDir :=
  let files := dir.files ++ [⟨freeName dir.files now pid, content⟩]
  let snapshots := sortedSnapshots files
  let old := snapshots.take (snapshots.length - maxVersionHistory)
  { dir with rollback := some (removeFiles files old) }

/-! ## Versions -/

/-- `bump_patch_version`. -/
def bumpPatchVersion (version : String) : String :=
  match host.semverBump version with
  | some bumped => bumped
  | none =>
    match version.toList.splitOn '.' with
    | [major, minor, patch] =>
      match Text.parseU32 patch with
      | some n => s!"{String.ofList major}.{String.ofList minor}.{(n + 1) % 2 ^ 32}"
      | none => s!"{version}.1"
    | _ => s!"{version}.1"

/-- `record_version`. -/
def recordVersion (dir : SkillDir) (version changelog promptContent : String)
    (author : Option String) (isMutation : Bool) (now : Time) : SkillDir :=
  let entry : SkillVersionEntry :=
    ⟨version, toRfc3339 now, changelog, host.sha256Hex promptContent, author⟩
  let versions := dir.evolution.versions ++ [entry]
  { dir with
    evolution :=
      { dir.evolution with
        versions := versions.drop (versions.length - maxVersionHistory)
        evolutionCount := dir.evolution.evolutionCount + 1
        mutationCount := dir.evolution.mutationCount + if isMutation then 1 else 0 } }

/-- `EvolutionResult`. -/
structure EvolutionResult where
  success : Bool
  message : String
  skillName : String
  version : Option String
  matchStrategy : Option MatchStrategy
  matchCount : Option ℕ
  evolutionCount : Option ℕ
  mutationCount : Option ℕ
  useCount : Option ℕ
  deriving DecidableEq, Repr

/-- A result with the counters of the directory. -/
def evolved (dir : SkillDir) (message skillName version : String)
    (match? : Option FuzzyReplaceResult) : EvolutionResult where
  success := true
  message := message
  skillName := skillName
  version := some version
  matchStrategy := match?.map (·.strategy)
  matchCount := match?.map (·.matchCount)
  evolutionCount := some dir.evolution.evolutionCount
  mutationCount := some dir.evolution.mutationCount
  useCount := some dir.evolution.useCount

/-- A new prompt and a new version are written, and the version is recorded. -/
def writePrompt (dir : SkillDir) (version prompt changelog : String) (author : Option String)
    (now : Time) : SkillDir :=
  recordVersion host { dir with version := version, inlinePrompt := none, prompt := some prompt }
    version changelog prompt author true now

/-! ## The calls -/

section Calls

variable (dir : SkillDir) (skill : InstalledSkill)

/-- `update_skill`. -/
def updateSkill (newPromptContext changelog : String) (author : Option String) (now : Time)
    (pid : ℕ) : Except SkillError EvolutionResult × SkillDir :=
  match validatePromptContent host newPromptContext with
  | .error e => (.error e, dir)
  | .ok () =>
    let saved := match dir.prompt.or skill.promptContext with
      | some oldContent => saveRollbackSnapshot dir oldContent now pid
      | none => dir
    let newVersion := bumpPatchVersion host dir.version
    let written := writePrompt host saved newVersion newPromptContext changelog author now
    (.ok (evolved written s!"Skill '{skill.name}' updated to v{newVersion}" skill.name newVersion
      none), written)

/-- `patch_skill`. -/
def patchSkill (oldStr newStr changelog : String) (replaceAll : Bool) (author : Option String)
    (now : Time) (pid : ℕ) : Except SkillError EvolutionResult × SkillDir :=
  match (nonempty dir.prompt).or (nonempty skill.promptContext) with
  | none =>
    (.error (.invalidManifest s!"Skill '{skill.name}' has no prompt_context to patch"), dir)
  | some currentContent =>
    -- the snapshot is saved before the patch is known to succeed
    let saved := saveRollbackSnapshot dir currentContent now pid
    match host.fuzzyFindAndReplace currentContent oldStr newStr replaceAll with
    | .error e => (.error e, saved)
    | .ok result =>
      match validatePromptContent host result.newContent with
      | .error e => (.error e, saved)
      | .ok () =>
        let newVersion := bumpPatchVersion host dir.version
        let written := writePrompt host saved newVersion result.newContent
          s!"{changelog} [strategy: {result.strategy.name}, matches: {result.matchCount}]" author
          now
        (.ok (evolved written (s!"Skill '{skill.name}' patched to v{newVersion} " ++
          s!"({result.strategy.name}, {result.matchCount} match(es))") skill.name newVersion
          (some result)), written)

/-- `rollback_skill`. -/
def rollbackSkill (author : Option String) (now : Time) (pid : ℕ) :
    Except SkillError EvolutionResult × SkillDir :=
  match (sortedSnapshots dir.files).getLast? with
  | none => (.error (.notFound s!"No rollback snapshots for skill '{skill.name}'"), dir)
  | some latest =>
    match validatePromptContent host latest.content with
    | .error e => (.error e, dir)
    | .ok () =>
      let newVersion := bumpPatchVersion host dir.version
      let saved := match skill.promptContext with
        | some current => saveRollbackSnapshot dir current now pid
        | none => dir
      let written := writePrompt host saved newVersion latest.content
        "Rolled back to previous version" author now
      let left := { written with rollback := written.rollback.map (removeFiles · [latest]) }
      (.ok (evolved left s!"Skill '{skill.name}' rolled back to v{newVersion}" skill.name newVersion
        none), left)

end Calls

/-- A call. -/
inductive Call
  | update (newPromptContext changelog : String) (author : Option String)
  | patch (oldStr newStr changelog : String) (replaceAll : Bool) (author : Option String)
  | rollback (author : Option String)
  deriving DecidableEq, Repr

/-- A call at an instant by a process. -/
structure Event where
  call : Call
  now : Time
  pid : ℕ
  deriving DecidableEq, Repr

/-- What a call gives, and the directory that it leaves. -/
def perform (name : String) (dir : SkillDir) (e : Event) :
    Except SkillError EvolutionResult × SkillDir :=
  match e.call with
  | .update newPromptContext changelog author =>
    updateSkill host dir (load name dir) newPromptContext changelog author e.now e.pid
  | .patch oldStr newStr changelog replaceAll author =>
    patchSkill host dir (load name dir) oldStr newStr changelog replaceAll author e.now e.pid
  | .rollback author => rollbackSkill host dir (load name dir) author e.now e.pid

end LibreFang.Skills
