import Mathlib.Data.List.Induction
import LibreFang.Auth.Manager

/-!
# Roles derived from a platform

* `ChannelRoleMapping`: which role of a platform stands for which role of the system.
* `translatePlatformRoleForSender`: the translation, with the exception for private chats.
* `derivedRole`: the role of a sender who is not a registered user.
* **`translateDiscordRole_isBest`**: of several roles the highest counts.
-/

namespace LibreFang.Auth

/-! ## The mapping -/

/-- `TelegramRoleMapping`. -/
structure TelegramRoleMapping where
  adminRole : Option String
  creatorRole : Option String
  memberRole : Option String

/-- `DiscordRoleMapping`. -/
structure DiscordRoleMapping where
  roleMap : Table String String

/-- `SlackRoleMapping`. -/
structure SlackRoleMapping where
  ownerRole : Option String
  adminRole : Option String
  memberRole : Option String
  guestRole : Option String

/-- `ChannelRoleMapping`. -/
structure ChannelRoleMapping where
  telegram : Option TelegramRoleMapping
  discord : Option DiscordRoleMapping
  slack : Option SlackRoleMapping

/-- `PlatformRole`. -/
structure PlatformRole where
  roles : List String

/-- `SenderContext`, with what the resolution of roles reads. -/
structure SenderContext where
  channel : String
  userId : String
  chatId : Option String
  isGroup : Bool
  accountId : Option String

/-- `RoleCacheKey::from_sender`. -/
def RoleCacheKey.fromSender (sender : SenderContext) : RoleCacheKey :=
  ⟨sender.channel, sender.accountId.getD "", sender.chatId.getD "", sender.userId⟩

/-! ## The translation -/

/-- `translate_telegram_role`. -/
def translateTelegramRole (cfg : TelegramRoleMapping) (role : PlatformRole) : Option UserRole := do
  let primary ← role.roles.head?
  let mapped ←
    if primary = "creator" then cfg.creatorRole
    else if primary = "administrator" then cfg.adminRole
    else if primary = "member" then cfg.memberRole
    else none
  UserRole.tryFromStrRole mapped

/-- One round of the loop of `translate_discord_role`. -/
def betterRole (cfg : DiscordRoleMapping) (best : Option UserRole) (name : String) :
    Option UserRole :=
  match (cfg.roleMap.lookup name).bind UserRole.tryFromStrRole with
  | none => best
  | some candidate =>
    match best with
    | some prev => some (max prev candidate)
    | none => some candidate

/-- `translate_discord_role`. -/
def translateDiscordRole (cfg : DiscordRoleMapping) (role : PlatformRole) : Option UserRole :=
  role.roles.foldl (betterRole cfg) none

/-- `translate_slack_role`. -/
def translateSlackRole (cfg : SlackRoleMapping) (role : PlatformRole) : Option UserRole := do
  let primary ← role.roles.head?
  let mapped ←
    if primary = "owner" then cfg.ownerRole
    else if primary = "admin" then cfg.adminRole
    else if primary = "member" then cfg.memberRole
    else if primary = "guest" then cfg.guestRole
    else none
  UserRole.tryFromStrRole mapped

/-- `translate_platform_role`. -/
def translatePlatformRole (mapping : ChannelRoleMapping) (channel : String) (role : PlatformRole) :
    Option UserRole :=
  if channel = "telegram" then mapping.telegram.bind (translateTelegramRole · role)
  else if channel = "discord" then mapping.discord.bind (translateDiscordRole · role)
  else if channel = "slack" then mapping.slack.bind (translateSlackRole · role)
  else none

/-- `is_telegram_self_dm`. -/
def isTelegramSelfDm (sender : SenderContext) : Bool :=
  !sender.isGroup && sender.chatId == some sender.userId

/-- `translate_platform_role_for_sender`. -/
def translatePlatformRoleForSender (mapping : ChannelRoleMapping) (sender : SenderContext)
    (role : PlatformRole) : Option UserRole :=
  if sender.channel = "telegram" ∧ isTelegramSelfDm sender ∧ role.roles.head? = some "creator" then
    none
  else translatePlatformRole mapping sender.channel role

/-- What `lookup_role` of the platform answers. -/
abbrev Answer := Except String (Option PlatformRole)

/-- There is a mapping for the channel. -/
def hasMappingForChannel (mapping : ChannelRoleMapping) (channel : String) : Bool :=
  if channel = "telegram" then mapping.telegram.isSome
  else if channel = "discord" then mapping.discord.isSome
  else if channel = "slack" then mapping.slack.isSome
  else false

/-- The platform is asked; without a chat it is asked about Slack only. -/
def asksPlatform (mapping : ChannelRoleMapping) (sender : SenderContext) (roleQuery : Bool) : Bool :=
  roleQuery && hasMappingForChannel mapping sender.channel &&
    !((sender.chatId.getD "").isEmpty && sender.channel != "slack")

/-- The role that is found, if any; `none` as the answer is a platform that is not asked. -/
def derivedRole (mapping : ChannelRoleMapping) (sender : SenderContext) : Option Answer → UserRole
  | some (.ok (some role)) => (translatePlatformRoleForSender mapping sender role).getD .viewer
  | _ => .viewer

/-- The platform failed to answer. -/
def isTransient : Option Answer → Bool
  | some (.error _) => true
  | _ => false

/-! ## What the translations give -/

theorem UserRole.le_max_left (a b : UserRole) : a ≤ max a b := by
  cases a <;> cases b <;> decide

theorem UserRole.le_max_right (a b : UserRole) : b ≤ max a b := by
  cases a <;> cases b <;> decide

/-- The roles that the platform names and the mapping knows. -/
def Mapped (cfg : DiscordRoleMapping) (names : List String) (role : UserRole) : Prop :=
  ∃ name ∈ names, (cfg.roleMap.lookup name).bind UserRole.tryFromStrRole = some role

/-- The best of the roles that the platform names, if one of them is mapped. -/
def IsBest (cfg : DiscordRoleMapping) (names : List String) : Option UserRole → Prop
  | none => ∀ role, ¬ Mapped cfg names role
  | some best => Mapped cfg names best ∧ ∀ role, Mapped cfg names role → role ≤ best

theorem mapped_append {cfg : DiscordRoleMapping} {names : List String} {name : String}
    {role : UserRole} :
    Mapped cfg (names ++ [name]) role ↔
      Mapped cfg names role ∨
        (cfg.roleMap.lookup name).bind UserRole.tryFromStrRole = some role := by
  unfold Mapped
  simp only [List.mem_append, List.mem_singleton, or_and_right, exists_or, exists_eq_left]

theorem isBest_betterRole {cfg : DiscordRoleMapping} {names : List String} {name : String}
    {best : Option UserRole} (h : IsBest cfg names best) :
    IsBest cfg (names ++ [name]) (betterRole cfg best name) := by
  unfold betterRole
  cases hcand : (cfg.roleMap.lookup name).bind UserRole.tryFromStrRole with
  | none =>
    have hsame (role : UserRole) : Mapped cfg (names ++ [name]) role ↔ Mapped cfg names role := by
      rw [mapped_append, hcand]
      exact or_iff_left nofun
    cases best with
    | none => exact fun role hrole => h role ((hsame role).mp hrole)
    | some prev => exact ⟨(hsame prev).mpr h.1, fun role hrole => h.2 role ((hsame role).mp hrole)⟩
  | some candidate =>
    have hhere : Mapped cfg (names ++ [name]) candidate := mapped_append.mpr (.inr hcand)
    cases best with
    | none =>
      refine ⟨hhere, fun role hrole => ?_⟩
      rcases mapped_append.mp hrole with hrole | hrole
      · exact absurd hrole (h role)
      · obtain rfl : candidate = role := Option.some.inj (hcand.symm.trans hrole)
        exact Nat.le_refl _
    | some prev =>
      constructor
      · unfold max instMaxUserRole
        dsimp only
        split_ifs
        · exact hhere
        · exact mapped_append.mpr (.inl h.1)
      · intro role hrole
        rcases mapped_append.mp hrole with hrole | hrole
        · exact Nat.le_trans (h.2 role hrole) (UserRole.le_max_left prev candidate)
        · obtain rfl : candidate = role := Option.some.inj (hcand.symm.trans hrole)
          exact UserRole.le_max_right prev candidate

/-- **Of several roles on the platform the highest counts**, whatever their order. -/
theorem translateDiscordRole_isBest (cfg : DiscordRoleMapping) (role : PlatformRole) :
    IsBest cfg role.roles (translateDiscordRole cfg role) := by
  unfold translateDiscordRole
  induction role.roles using List.reverseRecOn with
  | nil => exact fun role ⟨_, hmem, _⟩ => nomatch hmem
  | append_singleton names name ih =>
    rw [List.foldl_append]
    exact isBest_betterRole ih

end LibreFang.Auth
