import LibreFang.Session.Genuine
import LibreFang.Audit.Reopen
import LibreFang.Audit.Tamper
import LibreFang.Caps.Patterns
import LibreFang.Caps.Inherit
import LibreFang.Cron.Disabled
import LibreFang.Approval.Lockout
import LibreFang.Approval.Gate
import LibreFang.Cron.OneShot
import LibreFang.Triggers.Limits
import LibreFang.Net.Guarantee
import LibreFang.Auth.Reload
import LibreFang.Auth.RoleCache
import LibreFang.Memory.Appends
import LibreFang.Net.Agreement
import LibreFang.Sandbox.Contain
import LibreFang.Tasks.Assigned
import LibreFang.Tasks.Lifecycle
import LibreFang.A2a.Final
import LibreFang.Breaker.Probes
import LibreFang.Pairing.Limits
import LibreFang.Dream.Exclusion
import LibreFang.Dispatch.Serial
import LibreFang.Usage.Instants
import LibreFang.Skills.Undo
import LibreFang.Engine.Layers
import LibreFang.Engine.Collect
import LibreFang.Engine.Siblings
import LibreFang.Engine.Skips
import LibreFang.Memory.Searchable
import LibreFang.Registry.Indexes
import LibreFang.Engine.Tokens
import LibreFang.Journal.Torn
import LibreFang.Engine.Conditions
import LibreFang.Cron.Atomic
import LibreFang.Cron.NextRun
import LibreFang.Quota.Strict
import LibreFang.Triggers.Selection
import LibreFang.Triggers.Describe
import LibreFang.Wire.Completion
import LibreFang.Approval.Conserve
import LibreFang.Taint.Complete
import LibreFang.Dispatch.Contract
import LibreFang.Channels.Entities
import LibreFang.Patch.Frame
import LibreFang.Patch.Meaning
import LibreFang.Skills.FuzzySafe
import LibreFang.Auth.Namespaces
import LibreFang.Channels.Ownership
import LibreFang.Channels.Router
import LibreFang.Channels.Debounced
import LibreFang.Memory.Chunker
import LibreFang.Drivers.ThinkFilter
import LibreFang.Guard.PingPong
import LibreFang.Drivers.Selection
import LibreFang.Session.ResetPolicy
import LibreFang.Auth.ToolPolicy
import LibreFang.Privacy.Pseudonyms
import LibreFang.Memory.Keepers
import LibreFang.Cron.Webhook
import LibreFang.Drivers.SharedLockout
import LibreFang.Vault.Agreement
import LibreFang.Context.Protected
import LibreFang.Agent.Life
