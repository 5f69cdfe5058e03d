import LibreFang.Lib.Text

/-!
# Cron jobs

The definition of a scheduled job and the checks on its fields.

* `CronSchedule`, `CronAction`, `CronDelivery`, `CronDeliveryTarget`, `CronJob`: the data.
* `Host`: what lies outside: Unicode tables, the file system, the parsers of other packages.
* `CronJob.validateWithHome`: every check of a job, with the texts of its errors.
* `CronJob.WellFormed`: the checks pass under some reading of the clock;
  **`wellFormed_iff`**: field by field.
-/

namespace LibreFang.Cron

open Text

/-! ## Limits -/

/-- `MAX_JOBS_PER_AGENT`. -/
def maxJobsPerAgent : ℕ := 50

/-- `MAX_NAME_LEN`. -/
def maxNameLen : ℕ := 128

/-- `MIN_EVERY_SECS`. -/
def minEverySecs : ℕ := 60

/-- `MAX_EVERY_SECS`. -/
def maxEverySecs : ℕ := 86400

/-- `MAX_AT_HORIZON_SECS`. -/
def maxAtHorizonSecs : ℤ := 365 * 24 * 3600

/-- `MAX_EVENT_TEXT_LEN`. -/
def maxEventTextLen : ℕ := 4096

/-- `MAX_TURN_MESSAGE_LEN`. -/
def maxTurnMessageLen : ℕ := 16384

/-- `MAX_WORKFLOW_ID_LEN`. -/
def maxWorkflowIdLen : ℕ := 256

/-- `MIN_TIMEOUT_SECS`. -/
def minTimeoutSecs : ℕ := 10

/-- `MAX_TIMEOUT_SECS`. -/
def maxTimeoutSecs : ℕ := 600

/-- `MAX_WEBHOOK_URL_LEN`. -/
def maxWebhookUrlLen : ℕ := 2048

/-! ## Jobs -/

/-- A UTC time, in nanoseconds since the epoch. -/
abbrev Time := ℤ

/-- A second. -/
def second : Time := 1000000000

/-- `CronSchedule`. -/
inductive CronSchedule
  | at_ (time : Time)
  | every (everySecs : ℕ)
  | cron (expr : String) (tz : Option String)
  deriving DecidableEq, Repr

/-- `PreScript`, the parts that are checked. -/
structure PreScript where
  argv : List String
  env : List (String × String)
  deriving DecidableEq, Repr

/-- `CronAction`, the parts that are checked. -/
inductive CronAction
  | systemEvent (text : String)
  | agentTurn (message : String) (timeoutSecs : Option ℕ) (preScript : Option PreScript)
  | workflow (workflowId : String) (timeoutSecs : Option ℕ)
  deriving DecidableEq, Repr

/-- `CronDelivery`. -/
inductive CronDelivery
  | none
  | channel (channel to_ : String)
  | lastChannel
  | webhook (url : String)
  deriving DecidableEq, Repr

/-- `CronDeliveryTarget`, the parts that are checked. -/
inductive CronDeliveryTarget
  | channel (channelType recipient : String)
  | webhook (url : String)
  | localFile (path : String)
  | email (to_ : String)
  deriving DecidableEq, Repr

/-- `CronJob`, the parts that the scheduler reads or writes. -/
structure CronJob where
  id : String
  agentId : String
  name : String
  enabled : Bool
  schedule : CronSchedule
  action : CronAction
  delivery : CronDelivery
  deliveryTargets : List CronDeliveryTarget
  lastRun : Option Time
  nextRun : Option Time
  deriving DecidableEq, Repr

/-- A JSON value. -/
inductive Value
  | null
  | bool (b : Bool)
  | number (text : String)
  | string (s : String)
  | array (items : List Value)
  | object (fields : List (String × Value))

/-- What the scheduler uses of its surroundings. A cron expression and a time zone are known by
their texts. -/
structure Host where
  /-- `char::is_alphanumeric`. -/
  isAlphanumeric : Char → Bool
  /-- `Path::canonicalize`. -/
  canonicalize : String → Option String
  /-- The expression is accepted by the parser of seven fields. -/
  cronParses : String → Bool
  /-- The name is that of a time zone. -/
  tzParses : String → Bool
  /-- The first time the expression yields in the time zone, UTC if none is given, from the base. -/
  cronNext : String → Option String → Time → Option Time
  /-- `AgentId::from_str`. -/
  parseAgentId : String → Except String String
  /-- `serde_json::from_value` of the parts of a job. -/
  scheduleFromValue : Value → Except String CronSchedule
  actionFromValue : Value → Except String CronAction
  deliveryFromValue : Value → Except String CronDelivery
  targetsFromValue : Value → Except String (List CronDeliveryTarget)

variable (host : Host)

/-! ## The checks of each field -/

/-- The check of `name` in `CronJob::validate_with_home`. -/
def validateName (name : String) : Except String Unit :=
  if name = "" then .error "name must not be empty"
  else if maxNameLen < name.utf8ByteSize then
    .error s!"name too long ({name.utf8ByteSize} chars, max {maxNameLen})"
  else if ¬ name.toList.all fun c => host.isAlphanumeric c || c == ' ' || c == '-' || c == '_' then
    .error "name may only contain alphanumeric characters, spaces, hyphens, and underscores"
  else .ok ()

/-- A character that a field of a cron expression may contain. -/
def isCronChar (c : Char) : Bool :=
  ('0' ≤ c && c ≤ '9') || c == '*' || c == '/' || c == '-' || c == ',' || c == '?'

/-- The loop of `validate_cron_expr` over the fields. -/
def validateCronFields (i : ℕ) : List (List Char) → Except String Unit
  | [] => .ok ()
  | field :: fields =>
    if field = [] then .error s!"cron field {i} is empty"
    else if ¬ field.all isCronChar then
      .error s!"cron field {i} contains invalid characters: \"{String.ofList field}\""
    else validateCronFields (i + 1) fields

/-- `validate_cron_expr`. -/
def validateCronExpr (expr : String) : Except String Unit :=
  let trimmed := trim expr.toList
  if trimmed = [] then .error "cron expression must not be empty"
  else
    let fields := splitWhitespace trimmed
    if fields.length ≠ 5 then
      .error (s!"cron expression must have exactly 5 fields (got {fields.length}): " ++
        s!"\"{String.ofList trimmed}\"")
    else validateCronFields 0 fields

/-- `CronJob::validate_schedule`, at a time. -/
def validateSchedule (schedule : CronSchedule) (now : Time) : Except String Unit :=
  match schedule with
  | .every everySecs =>
    if everySecs < minEverySecs then
      .error s!"every_secs too small ({everySecs}, min {minEverySecs})"
    else if maxEverySecs < everySecs then
      .error s!"every_secs too large ({everySecs}, max {maxEverySecs})"
    else .ok ()
  | .at_ time =>
    if time ≤ now then .error "scheduled time must be in the future"
    else if maxAtHorizonSecs < (time - now).tdiv second then
      .error s!"scheduled time too far in the future (max {maxAtHorizonSecs}s / ~1 year)"
    else .ok ()
  | .cron expr _ => validateCronExpr expr

/-- `DANGEROUS_ENV_KEYS`. -/
def dangerousEnvKeys : List String :=
  ["LD_PRELOAD", "LD_LIBRARY_PATH", "LD_AUDIT", "DYLD_INSERT_LIBRARIES", "DYLD_LIBRARY_PATH",
    "DYLD_FALLBACK_LIBRARY_PATH", "PATH", "IFS"]

/-- `is_dangerous_env_key`. -/
def isDangerousEnvKey (key : String) : Bool :=
  dangerousEnvKeys.any fun k => k.toList.map Char.toLower == key.toList.map Char.toLower

/-- `validate_pre_script_env`; an error is the text of `DangerousEnvKey`. -/
def validatePreScriptEnv (script : PreScript) : Except String Unit :=
  match script.env.find? fun entry => isDangerousEnvKey entry.1 with
  | some (key, _) =>
    .error (s!"pre_script.env contains dangerous key `{key}` " ++
      "that would defeat the path allowlist")
  | none => .ok ()

/-- `Path::is_absolute`. -/
def isAbsolute (path : String) : Bool := path.toList.head? == some '/'

/-- `Path::join`. -/
def joinPath (base path : String) : String :=
  if isAbsolute path then path
  else if base = "" ∨ base.toList.getLast? = some '/' then base ++ path
  else base ++ "/" ++ path

/-- The components of a path, apart from its root. -/
def pathComponents (path : String) : List (List Char) :=
  (path.toList.splitOn '/').filter fun c => c ≠ [] ∧ c ≠ ['.']

/-- `Path::starts_with`, by components. -/
def pathStartsWith (path base : String) : Bool :=
  isAbsolute path == isAbsolute base && (pathComponents base).isPrefixOf (pathComponents path)

/-- `validate_pre_script`; an error is the text of `PreScriptValidationError`. -/
def validatePreScript (script : PreScript) (homeDir : String) : Except String Unit := do
  validatePreScriptEnv script
  match script.argv.head? with
  | none => .error "pre_script.argv must not be empty"
  | some argv0 =>
    if argv0 = "" then .error "pre_script.argv must not be empty"
    else
      let scriptsRoot := joinPath homeDir "scripts"
      let candidate := if isAbsolute argv0 then argv0 else joinPath scriptsRoot argv0
      match host.canonicalize candidate with
      | none => .error s!"pre_script binary `{candidate}` does not exist"
      | some resolved =>
        match host.canonicalize scriptsRoot with
        | none =>
          .error (s!"pre_script binary `{resolved}` is outside the scripts allowlist " ++
            s!"(must be under {scriptsRoot})")
        | some allowRoot =>
          if pathStartsWith resolved allowRoot then .ok ()
          else
            .error (s!"pre_script binary `{resolved}` is outside the scripts allowlist " ++
              s!"(must be under {allowRoot})")

/-- A text that must not be empty nor longer than a number of bytes. -/
def validateText (text empty tooLong : String) (maxLen : ℕ) : Except String Unit :=
  if text = "" then .error empty
  else if maxLen < text.utf8ByteSize then
    .error s!"{tooLong} ({text.utf8ByteSize} chars, max {maxLen})"
  else .ok ()

/-- `CronJob::validate_action`. -/
def validateAction (action : CronAction) (homeDir : Option String) : Except String Unit :=
  match action with
  | .systemEvent text =>
    validateText text "system event text must not be empty" "system event text too long"
      maxEventTextLen
  | .agentTurn message timeoutSecs preScript => do
    validateText message "agent turn message must not be empty" "agent turn message too long"
      maxTurnMessageLen
    match timeoutSecs with
    | some t =>
      if t < minTimeoutSecs then
        throw s!"timeout_secs too small ({t}, min {minTimeoutSecs})"
      if maxTimeoutSecs < t then
        throw s!"timeout_secs too large ({t}, max {maxTimeoutSecs})"
    | none => pure ()
    match preScript, homeDir with
    | some script, some home => validatePreScript host script home
    | some script, none => validatePreScriptEnv script
    | none, _ => pure ()
  | .workflow workflowId timeoutSecs => do
    validateText workflowId "workflow_id must not be empty" "workflow_id too long"
      maxWorkflowIdLen
    match timeoutSecs with
    | some t =>
      if t = 0 then
        throw "workflow timeout_secs must be > 0"
      if 3600 < t then
        throw s!"workflow timeout_secs too large ({t}, max 3600)"
    | none => pure ()

/-- The URL starts with `http://` or `https://`. -/
def hasWebScheme (url : String) : Bool :=
  "http://".toList.isPrefixOf url.toList || "https://".toList.isPrefixOf url.toList

/-- `CronJob::validate_delivery`. -/
def validateDelivery (delivery : CronDelivery) : Except String Unit :=
  match delivery with
  | .channel channel to_ =>
    if channel = "" then .error "delivery channel must not be empty"
    else if to_ = "" then .error "delivery recipient must not be empty"
    else .ok ()
  | .webhook url =>
    if ¬ hasWebScheme url then .error "webhook URL must start with http:// or https://"
    else if maxWebhookUrlLen < url.utf8ByteSize then
      .error s!"webhook URL too long ({url.utf8ByteSize} chars, max {maxWebhookUrlLen})"
    else .ok ()
  | .none | .lastChannel => .ok ()

/-- `str::strip_prefix`. -/
def stripPrefix? (s p : List Char) : Option (List Char) :=
  if p.isPrefixOf s then some (s.drop p.length) else none

/-- `extract_url_host`. An IPv6 host keeps its opening bracket and loses the closing one. -/
def extractUrlHost (url : String) : Option String := do
  let afterScheme ← (stripPrefix? url.toList "http://".toList).or
    (stripPrefix? url.toList "https://".toList)
  let hostPart := afterScheme.takeWhile fun c => c != '/' && c != '?' && c != '#'
  let hostPart := hostPart.rtakeWhile (· != '@')
  let host ←
    match hostPart with
    | '[' :: stripped =>
      if ']' ∈ stripped then some ('[' :: stripped.takeWhile (· != ']')) else none
    | _ => some (hostPart.takeWhile (· != ':'))
  if host = [] then none else some (String.ofList (host.map Char.toLower))

/-- `is_blocked_webhook_host`. -/
def isBlockedWebhookHost (host : String) : Bool :=
  host == "localhost" || host == "metadata" || host == "metadata.google.internal" ||
    host == "metadata.aws.amazon.com" || "127.".toList.isPrefixOf host.toList ||
    "169.254.".toList.isPrefixOf host.toList || host == "[::1]" ||
    "[fe80:".toList.isPrefixOf host.toList || "fe80:".toList.isPrefixOf host.toList

/-- A path that starts with a Windows drive letter. -/
def hasDriveLetter (path : String) : Bool :=
  match path.toList with
  | a :: ':' :: b :: _ => a.isAlpha && (b == '\\' || b == '/')
  | _ => false

/-- `str::trim` leaves nothing. -/
def isBlank (s : String) : Bool := (trim s.toList).isEmpty

/-- The checks of one entry in `CronJob::validate_delivery_targets`. -/
def validateDeliveryTarget (i : ℕ) : CronDeliveryTarget → Except String Unit
  | .channel channelType recipient =>
    if isBlank channelType then
      .error s!"delivery_targets[{i}]: channel_type must not be empty"
    else if isBlank recipient then
      .error s!"delivery_targets[{i}]: recipient must not be empty"
    else .ok ()
  | .webhook url =>
    if ¬ hasWebScheme url then
      .error s!"delivery_targets[{i}]: webhook URL must start with http:// or https://"
    else if maxWebhookUrlLen < url.utf8ByteSize then
      .error (s!"delivery_targets[{i}]: webhook URL too long ({url.utf8ByteSize} chars, " ++
        s!"max {maxWebhookUrlLen})")
    else
      match extractUrlHost url with
      | some host =>
        if isBlockedWebhookHost host then
          .error (s!"delivery_targets[{i}]: webhook host '{host}' is not allowed " ++
            "(loopback / link-local / metadata service)")
        else .ok ()
      | none => .ok ()
  | .localFile path =>
    if isBlank path then .error s!"delivery_targets[{i}]: file path must not be empty"
    else if isAbsolute path then
      .error (s!"delivery_targets[{i}]: LocalFile path must be workspace-relative, " ++
        s!"not absolute ({path})")
    else if hasDriveLetter path then
      .error s!"delivery_targets[{i}]: LocalFile path must be workspace-relative ({path})"
    else if ['.', '.'] ∈ pathComponents path then
      .error s!"delivery_targets[{i}]: LocalFile path must not contain '..' ({path})"
    else .ok ()
  | .email to_ =>
    if isBlank to_ then .error s!"delivery_targets[{i}]: email recipient must not be empty"
    else .ok ()

/-- The loop of `CronJob::validate_delivery_targets`. -/
def validateDeliveryTargets (i : ℕ) : List CronDeliveryTarget → Except String Unit
  | [] => .ok ()
  | target :: targets => do
    validateDeliveryTarget i target
    validateDeliveryTargets (i + 1) targets

/-- `CronJob::validate_with_home`, at a time. -/
def CronJob.validateWithHome (job : CronJob) (existingCount : ℕ) (homeDir : Option String)
    (now : Time) : Except String Unit := do
  if maxJobsPerAgent ≤ existingCount then
    throw s!"agent already has {existingCount} jobs (max {maxJobsPerAgent})"
  validateName host job.name
  validateSchedule job.schedule now
  validateAction host job.action homeDir
  validateDelivery job.delivery
  validateDeliveryTargets 0 job.deliveryTargets

/-- The schedule passes its check under some reading of the clock. -/
def CronSchedule.WellFormed (schedule : CronSchedule) : Prop :=
  ∃ now, validateSchedule schedule now = .ok ()

/-- Some reading of the clock lets the job pass every check of its fields. -/
def CronJob.WellFormed (homeDir : String) (job : CronJob) : Prop :=
  ∃ now, job.validateWithHome host 0 (some homeDir) now = .ok ()

/-! ## What passes the checks -/

theorem check_bind_eq_ok {x : Except String Unit} {f : Unit → Except String Unit} :
    (x >>= f) = .ok () ↔ x = .ok () ∧ f () = .ok () := by
  cases x with
  | error e => simp [bind, Except.bind]
  | ok u => simp [bind, Except.bind]

/-- **A job is well formed exactly when each of its fields passes its check.** -/
theorem CronJob.wellFormed_iff {homeDir : String} {job : CronJob} :
    job.WellFormed host homeDir ↔ validateName host job.name = .ok () ∧ job.schedule.WellFormed ∧
      validateAction host job.action (some homeDir) = .ok () ∧
      validateDelivery job.delivery = .ok () ∧
      validateDeliveryTargets 0 job.deliveryTargets = .ok () := by
  have hchecks (now : Time) : job.validateWithHome host 0 (some homeDir) now = .ok () ↔
      validateName host job.name = .ok () ∧ validateSchedule job.schedule now = .ok () ∧
      validateAction host job.action (some homeDir) = .ok () ∧
      validateDelivery job.delivery = .ok () ∧
      validateDeliveryTargets 0 job.deliveryTargets = .ok () := by
    unfold CronJob.validateWithHome
    rw [if_neg (by decide)]
    dsimp only
    rw [check_bind_eq_ok, check_bind_eq_ok, check_bind_eq_ok, check_bind_eq_ok]
  unfold CronJob.WellFormed CronSchedule.WellFormed
  constructor
  · rintro ⟨now, h⟩
    obtain ⟨hname, hschedule, hrest⟩ := (hchecks now).mp h
    exact ⟨hname, ⟨now, hschedule⟩, hrest⟩
  · rintro ⟨hname, ⟨now, hschedule⟩, hrest⟩
    exact ⟨now, (hchecks now).mpr ⟨hname, hschedule, hrest⟩⟩

theorem CronJob.wellFormed_of_validate {homeDir : String} {job : CronJob} {existingCount : ℕ}
    {now : Time} (h : job.validateWithHome host existingCount (some homeDir) now = .ok ()) :
    job.WellFormed host homeDir := by
  refine ⟨now, ?_⟩
  unfold CronJob.validateWithHome at h ⊢
  by_cases hcount : maxJobsPerAgent ≤ existingCount
  · rw [if_pos hcount] at h
    cases h
  · rw [if_neg hcount] at h
    exact h

theorem CronSchedule.wellFormed_every {everySecs : ℕ} :
    (CronSchedule.every everySecs).WellFormed ↔
      minEverySecs ≤ everySecs ∧ everySecs ≤ maxEverySecs := by
  constructor
  · rintro ⟨now, h⟩
    unfold validateSchedule at h
    dsimp only at h
    by_cases hsmall : everySecs < minEverySecs
    · rw [if_pos hsmall] at h
      cases h
    · by_cases hlarge : maxEverySecs < everySecs
      · rw [if_neg hsmall, if_pos hlarge] at h
        cases h
      · exact ⟨Nat.le_of_not_lt hsmall, Nat.le_of_not_lt hlarge⟩
  · rintro ⟨hmin, hmax⟩
    refine ⟨0, ?_⟩
    unfold validateSchedule
    dsimp only
    rw [if_neg (Nat.not_lt_of_le hmin), if_neg (Nat.not_lt_of_le hmax)]

/-- Surroundings without time zones, files or jobs written as JSON. -/
def sampleHost : Host where
  isAlphanumeric := Char.isAlphanum
  canonicalize _ := none
  cronParses _ := false
  tzParses _ := false
  cronNext _ _ _ := none
  parseAgentId text := .ok text
  scheduleFromValue _ := .error "unknown variant"
  actionFromValue _ := .error "unknown variant"
  deliveryFromValue _ := .error "unknown variant"
  targetsFromValue _ := .error "unknown variant"

/-- An hourly job. -/
def sampleJob : CronJob where
  id := "j"
  agentId := "a"
  name := "report"
  enabled := true
  schedule := .every 3600
  action := .systemEvent "ping"
  delivery := .none
  deliveryTargets := []
  lastRun := none
  nextRun := none

end LibreFang.Cron
