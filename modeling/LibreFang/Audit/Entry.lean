import Mathlib.Data.Vector.Basic
import LibreFang.Lib.Text
import LibreFang.Lib.HashChain

/-!
# Audit entries

The entries of the audit log and the hash each of them carries.

* `AuditAction` with `display` and `decode`, the match of `with_db` on the stored action.
* `AuditEntry`, and `computeEntryHash` over its fields and the previous hash.
* `Platform`: the functions of other crates the log uses.
* `IsChain`, `chainTip`: the hash chain of audit entries.
-/

namespace LibreFang.Audit

open Text

/-- Categories of auditable actions. -/
inductive AuditAction
  | ToolInvoke
  | CapabilityCheck
  | AgentSpawn
  | AgentKill
  | AgentMessage
  | MemoryAccess
  | FileAccess
  | NetworkAccess
  | ShellExec
  | AuthAttempt
  | WireConnect
  | ConfigChange
  | DreamConsolidation
  | UserLogin
  | RoleChange
  | PermissionDenied
  | BudgetExceeded
  | RetentionTrim
  | A2aDiscovered
  | A2aTrusted
  deriving DecidableEq, Repr

/-- `Display`: the name of the variant. -/
def AuditAction.display : AuditAction → String
  | ToolInvoke => "ToolInvoke"
  | CapabilityCheck => "CapabilityCheck"
  | AgentSpawn => "AgentSpawn"
  | AgentKill => "AgentKill"
  | AgentMessage => "AgentMessage"
  | MemoryAccess => "MemoryAccess"
  | FileAccess => "FileAccess"
  | NetworkAccess => "NetworkAccess"
  | ShellExec => "ShellExec"
  | AuthAttempt => "AuthAttempt"
  | WireConnect => "WireConnect"
  | ConfigChange => "ConfigChange"
  | DreamConsolidation => "DreamConsolidation"
  | UserLogin => "UserLogin"
  | RoleChange => "RoleChange"
  | PermissionDenied => "PermissionDenied"
  | BudgetExceeded => "BudgetExceeded"
  | RetentionTrim => "RetentionTrim"
  | A2aDiscovered => "A2aDiscovered"
  | A2aTrusted => "A2aTrusted"

/-- The action `with_db` reads from a stored string, with its fallback arm. -/
def AuditAction.decode : String → AuditAction
  | "ToolInvoke" => ToolInvoke
  | "CapabilityCheck" => CapabilityCheck
  | "AgentSpawn" => AgentSpawn
  | "AgentKill" => AgentKill
  | "AgentMessage" => AgentMessage
  | "MemoryAccess" => MemoryAccess
  | "FileAccess" => FileAccess
  | "NetworkAccess" => NetworkAccess
  | "ShellExec" => ShellExec
  | "AuthAttempt" => AuthAttempt
  | "WireConnect" => WireConnect
  | "ConfigChange" => ConfigChange
  | "DreamConsolidation" => DreamConsolidation
  | "UserLogin" => UserLogin
  | "RoleChange" => RoleChange
  | "PermissionDenied" => PermissionDenied
  | "BudgetExceeded" => BudgetExceeded
  | "RetentionTrim" => RetentionTrim
  | _ => ToolInvoke

/-- The variants `with_db` has an arm for. -/
def AuditAction.decodable (a : AuditAction) : Bool := a != A2aDiscovered && a != A2aTrusted

/-- **The decoder reads back exactly the variants it has an arm for.** -/
theorem decode_display (a : AuditAction) : AuditAction.decode a.display = a ↔ a.decodable = true := by
  cases a <;> decide

/-- A LibreFang user: a UUID. -/
structure UserId where
  bytes : Vector UInt8 16
  deriving DecidableEq, Repr

/-- A single entry of the audit log. -/
structure AuditEntry where
  seq : ℕ
  timestamp : String
  agentId : String
  action : AuditAction
  detail : String
  outcome : String
  userId : Option UserId
  channel : Option String
  prevHash : String
  hash : String
  deriving DecidableEq, Repr

/-- What the log uses of other crates: SHA-256, RFC 3339 timestamps (in nanoseconds since the
epoch), the textual form of UUIDs and the `Debug` form of strings and paths. -/
structure Platform where
  sha256 : List UInt8 → Vector UInt8 32
  toRfc3339 : ℤ → String
  parseRfc3339 : String → Option ℤ
  minUtc : ℤ
  showUuid : Vector UInt8 16 → String
  parseUuid : String → Option (Vector UInt8 16)
  debug : String → String

/-- The genesis sentinel: 64 zero characters. -/
def genesis : String := "0000000000000000000000000000000000000000000000000000000000000000"

/-- The bytes of the user, when there is one. -/
def userBytes : Option UserId → List UInt8
  | some uid => utf8 "\x1fuser_id=" ++ uid.bytes.toList
  | none => []

/-- The bytes of the channel, when there is one. -/
def channelBytes : Option String → List UInt8
  | some ch => utf8 "\x1fchannel=" ++ utf8 ch
  | none => []

/-- The bytes fed to the hasher of `compute_entry_hash`. -/
def hashInput (seq : ℕ) (timestamp agentId : String) (action : AuditAction)
    (detail outcome : String) (userId : Option UserId) (channel : Option String)
    (prevHash : String) : List UInt8 :=
  utf8 (toString seq) ++ utf8 timestamp ++ utf8 agentId ++ utf8 action.display ++ utf8 detail ++
    utf8 outcome ++ userBytes userId ++ channelBytes channel ++ utf8 prevHash

/-- `compute_entry_hash`. -/
def computeEntryHash (P : Platform) (seq : ℕ) (timestamp agentId : String) (action : AuditAction)
    (detail outcome : String) (userId : Option UserId) (channel : Option String)
    (prevHash : String) : String :=
  hexEncode (P.sha256
    (hashInput seq timestamp agentId action detail outcome userId channel prevHash)).toList

/-- The bytes hashed for an entry. -/
def AuditEntry.hashInput (e : AuditEntry) : List UInt8 :=
  Audit.hashInput e.seq e.timestamp e.agentId e.action e.detail e.outcome e.userId e.channel
    e.prevHash

/-- The hash recomputed from the fields of an entry. -/
def AuditEntry.recomputed (P : Platform) (e : AuditEntry) : String :=
  computeEntryHash P e.seq e.timestamp e.agentId e.action e.detail e.outcome e.userId e.channel
    e.prevHash

theorem recomputed_eq (P : Platform) (e : AuditEntry) :
    e.recomputed P = hexEncode (P.sha256 e.hashInput).toList := rfl

/-- The entries form a hash chain from `a`. -/
abbrev IsChain (P : Platform) (a : String) (es : List AuditEntry) : Prop :=
  HashChain.Linked AuditEntry.prevHash AuditEntry.hash (AuditEntry.recomputed P) a es

/-- The hash a chain from `a` ends in. -/
abbrev chainTip (a : String) (es : List AuditEntry) : String :=
  HashChain.tip AuditEntry.hash a es

/-! ## Digests -/

/-- A SHA-256 digest in hexadecimal: what the anchor file may hold. -/
structure IsDigest (s : String) : Prop where
  length : (utf8 s).length = 64
  hex : ∀ c ∈ s.toList, isAsciiHexdigit c = true
  noBlank : ∀ c ∈ s.toList, isWhitespace c = false

theorem isDigest_genesis : IsDigest genesis where
  length := by decide
  hex := List.all_eq_true.mp (by decide)
  noBlank := by
    have h : genesis.toList.all (fun c => !isWhitespace c) = true := by decide
    simpa using h

theorem isDigest_recomputed (P : Platform) (e : AuditEntry) : IsDigest (e.recomputed P) where
  length := by rw [recomputed_eq, length_utf8_hexEncode, Vector.length_toList]
  hex := isAsciiHexdigit_hexEncode _
  noBlank := not_isWhitespace_hexEncode _

/-! ## A platform to run on -/

/-- The UUID of the LibreFang user namespace. -/
def sampleUser : UserId := ⟨#v[0x4c, 0x46, 0x41, 0x47, 0x5f, 0x55, 0x53, 0x45, 0x52, 0x5f, 0x4e,
  0x53, 0x5f, 0x76, 0x35, 0x01]⟩

/-- A platform that hashes three sample entries as SHA-256 does and knows three dates: the first
of January and of March 2024, and the end of January. -/
def samplePlatform : Platform where
  sha256 bs :=
    if bs = hashInput 0 "2024-01-01T00:00:00+00:00" "agent-1" .ToolInvoke "ls" "ok" none none
        genesis then
      #v[0x2a, 0xe6, 0x00, 0xd2, 0x24, 0xcb, 0xc8, 0x4d, 0x8e, 0x47, 0x2d, 0x34, 0x26, 0x7e,
    0xc6, 0x9e, 0x11, 0x8a, 0x96, 0x85, 0x15, 0x8d, 0x00, 0x17, 0x7a, 0x64, 0xfe, 0xc7,
    0x57, 0xb3, 0xa6, 0x71]
    else if bs = hashInput 0 "2024-03-01T00:00:00+00:00" "agent-1" .ToolInvoke "ls" "ok" none none
        "2ae600d224cbc84d8e472d34267ec69e118a9685158d00177a64fec757b3a671" then
      #v[0x60, 0xd2, 0x0e, 0x24, 0xde, 0x2e, 0x9d, 0x9d, 0xce, 0x8d, 0x98, 0x36, 0x50, 0x52,
    0x43, 0x51, 0xb8, 0x7e, 0x89, 0x8f, 0x8f, 0x0c, 0x6c, 0xde, 0x73, 0x87, 0x39, 0x2e,
    0x68, 0xe3, 0x0c, 0xb6]
    else if bs = hashInput 0 "2024-01-01T00:00:00+00:00" "agent-1" .A2aDiscovered "card" "ok" none
        none genesis then
      #v[0x42, 0xf3, 0xc0, 0xfe, 0x5f, 0xaf, 0xf6, 0x23, 0x4c, 0x59, 0xe1, 0x9d, 0xfb, 0xbd,
    0x05, 0x10, 0x63, 0xa2, 0x31, 0x51, 0xbf, 0xa8, 0xce, 0xa2, 0x04, 0x6d, 0x12, 0x50,
    0x32, 0xc5, 0xdc, 0xe8]
    else Vector.replicate 32 0
  toRfc3339 t :=
    if t = 1704067200000000000 then "2024-01-01T00:00:00+00:00"
    else if t = 1706659200000000000 then "2024-01-31T00:00:00+00:00"
    else "2024-03-01T00:00:00+00:00"
  parseRfc3339 s :=
    if s = "2024-01-01T00:00:00+00:00" then some 1704067200000000000
    else if s = "2024-01-31T00:00:00+00:00" then some 1706659200000000000
    else if s = "2024-03-01T00:00:00+00:00" then some 1709251200000000000
    else none
  minUtc := -8334601228800000000000
  showUuid bs :=
    let s := (hexEncode bs.toList).toList
    String.ofList (s.take 8 ++ '-' :: (s.drop 8).take 4 ++ '-' :: (s.drop 12).take 4 ++
      '-' :: (s.drop 16).take 4 ++ '-' :: s.drop 20)
  parseUuid s :=
    if s = "4c464147-5f55-5345-525f-4e535f763501" then some sampleUser.bytes else none
  debug s := "\"" ++ s ++ "\""

end LibreFang.Audit
