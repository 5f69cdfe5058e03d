import LibreFang.Lib.Runs
import LibreFang.Lib.Table

/-!
# The agent router

A message is routed to an agent by bindings, the most specific first, and by defaults.

* `AgentRouter`: the bindings and defaults; `resolve`, `resolveWithContext`: the agent of a message.
* **`routed_after`**: after every run, a message goes to the most specific live binding that matches,
  and to the defaults only if there is none; both ways to ask agree.
-/

namespace LibreFang.Channels

/-! ## Bindings -/

/-- `ChannelType`. -/
inductive ChannelType
  | telegram | whatsApp | slack | discord | signal | matrix | email | teams | mattermost | weChat
  | webChat | cli
  | custom (name : String)
  deriving DecidableEq, Repr

/-- `channel_type_to_str`. -/
def channelTypeToStr : ChannelType → String
  | .telegram => "telegram"
  | .discord => "discord"
  | .slack => "slack"
  | .whatsApp => "whatsapp"
  | .signal => "signal"
  | .matrix => "matrix"
  | .email => "email"
  | .teams => "teams"
  | .mattermost => "mattermost"
  | .weChat => "wechat"
  | .webChat => "webchat"
  | .cli => "cli"
  | .custom s => s

/-- `BindingMatchRule`. -/
structure BindingMatchRule where
  channel : Option String
  accountId : Option String
  peerId : Option String
  guildId : Option String
  roles : List String
  deriving DecidableEq, Repr

/-- `BindingMatchRule::specificity`. -/
def BindingMatchRule.specificity (rule : BindingMatchRule) : ℕ :=
  (if rule.peerId.isSome then 8 else 0) + (if rule.guildId.isSome then 4 else 0) +
    (if rule.roles ≠ [] then 2 else 0) + (if rule.accountId.isSome then 2 else 0) +
    (if rule.channel.isSome then 1 else 0)

/-- `AgentBinding`. -/
structure AgentBinding where
  agent : String
  matchRule : BindingMatchRule
  deriving DecidableEq, Repr

/-- `BindingContext`. -/
structure BindingContext where
  channel : String
  accountId : Option String
  peerId : String
  guildId : Option String
  roles : List String
  deriving DecidableEq, Repr

/-- `binding_matches`. -/
def bindingMatches (binding : AgentBinding) (ctx : BindingContext) : Bool :=
  let rule := binding.matchRule
  (rule.channel.all fun ch => ch == ctx.channel) &&
    (rule.accountId.all fun acc => ctx.accountId == some acc) &&
    (rule.peerId.all fun pid => pid == ctx.peerId) &&
    (rule.guildId.all fun gid => ctx.guildId == some gid) &&
    (rule.roles.isEmpty || rule.roles.any fun r => ctx.roles.any fun cr => cr == r)

/-! ## The router -/

variable {AgentId : Type}

/-- `AgentRouter`, what routing reads. -/
structure AgentRouter (AgentId : Type) where
  userDefaults : Table String AgentId
  directRoutes : Table (String × String) AgentId
  defaultAgent : Option AgentId
  channelDefaults : Table String AgentId
  bindings : List (AgentBinding × String)
  agentNameCache : Table String AgentId

/-- `AgentRouter::new`. -/
def AgentRouter.new : AgentRouter AgentId := ⟨∅, ∅, none, ∅, [], ∅⟩

/-- `sort_by` of the bindings, most specific first. -/
def sortBindings (bindings : List (AgentBinding × String)) : List (AgentBinding × String) :=
  bindings.mergeSort fun a b => b.1.matchRule.specificity ≤ a.1.matchRule.specificity

namespace AgentRouter

/-- `load_bindings`. -/
def loadBindings (r : AgentRouter AgentId) (bindings : List AgentBinding) : AgentRouter AgentId :=
  { r with bindings := sortBindings (bindings.map fun b => (b, b.agent)) }

/-- `add_binding`. -/
def addBinding (r : AgentRouter AgentId) (binding : AgentBinding) : AgentRouter AgentId :=
  { r with bindings := sortBindings (r.bindings ++ [(binding, binding.agent)]) }

/-- `remove_binding`. -/
def removeBinding (r : AgentRouter AgentId) (index : ℕ) : AgentRouter AgentId :=
  { r with bindings := r.bindings.eraseIdx index }

/-- `register_agent`. -/
def registerAgent (r : AgentRouter AgentId) (name : String) (id : AgentId) : AgentRouter AgentId :=
  { r with agentNameCache := r.agentNameCache.insert name id }

/-- `resolve_binding`. -/
def resolveBinding (r : AgentRouter AgentId) (ctx : BindingContext) : Option AgentId :=
  r.bindings.findSome? fun entry =>
    if bindingMatches entry.1 ctx then r.agentNameCache.lookup entry.1.agent else none

section Resolve

variable (channelKey : ChannelType → String)

/-- `resolve`; `channelKey` is the `Debug` text of a channel type. -/
def resolve (r : AgentRouter AgentId) (channelType : ChannelType) (platformUserId : String)
    (userKey : Option String) : Option AgentId :=
  let key := channelKey channelType
  let ctx : BindingContext := ⟨channelTypeToStr channelType, none, platformUserId, none, []⟩
  (r.resolveBinding ctx).or <|
  (r.directRoutes.lookup (key, platformUserId)).or <|
  (userKey.bind fun k => r.userDefaults.lookup k).or <|
  (r.userDefaults.lookup platformUserId).or <|
  (r.channelDefaults.lookup key).or
  r.defaultAgent

/-- `resolve_with_context`. -/
def resolveWithContext (r : AgentRouter AgentId) (channelType : ChannelType) (platformUserId : String)
    (userKey : Option String) (ctx : BindingContext) : Option AgentId :=
  let key := channelKey channelType
  (r.resolveBinding ctx).or <|
  (r.directRoutes.lookup (key, platformUserId)).or <|
  (userKey.bind fun k => r.userDefaults.lookup k).or <|
  (r.userDefaults.lookup platformUserId).or <|
  (ctx.accountId.bind fun acc => r.channelDefaults.lookup (key ++ ":" ++ acc)).or <|
  (r.channelDefaults.lookup key).or
  r.defaultAgent

end Resolve

/-! ## Calls -/

/-- A call that changes the router. -/
inductive Action (AgentId : Type)
  | loadBindings (bindings : List AgentBinding)
  | addBinding (binding : AgentBinding)
  | removeBinding (index : ℕ)
  | registerAgent (name : String) (id : AgentId)
  | setDefault (id : AgentId)
  | setChannelDefault (channelKey : String) (id : AgentId)
  | setUserDefault (userKey : String) (id : AgentId)
  | setDirectRoute (channelKey platformUserId : String) (id : AgentId)

/-- The router after a call. -/
def step (r : AgentRouter AgentId) : Action AgentId → AgentRouter AgentId
  | .loadBindings bindings => r.loadBindings bindings
  | .addBinding binding => r.addBinding binding
  | .removeBinding index => r.removeBinding index
  | .registerAgent name id => r.registerAgent name id
  | .setDefault id => { r with defaultAgent := some id }
  | .setChannelDefault key id => { r with channelDefaults := r.channelDefaults.insert key id }
  | .setUserDefault key id => { r with userDefaults := r.userDefaults.insert key id }
  | .setDirectRoute key user id => { r with directRoutes := r.directRoutes.insert (key, user) id }

/-- The bindings are in order, the most specific first. -/
def Sorted (r : AgentRouter AgentId) : Prop :=
  r.bindings.Pairwise fun a b => b.1.matchRule.specificity ≤ a.1.matchRule.specificity

theorem sorted_sortBindings (bindings : List (AgentBinding × String)) :
    (sortBindings bindings).Pairwise fun a b =>
      b.1.matchRule.specificity ≤ a.1.matchRule.specificity := by
  refine (List.pairwise_mergeSort (fun a b c hab hbc => ?_) (fun a b => ?_) bindings).imp
    fun h => of_decide_eq_true h
  · exact decide_eq_true (le_trans (of_decide_eq_true hbc) (of_decide_eq_true hab))
  · rw [Bool.or_eq_true, decide_eq_true_iff, decide_eq_true_iff]
    exact le_total _ _

theorem Sorted.step {r : AgentRouter AgentId} (h : r.Sorted) (a : Action AgentId) :
    (r.step a).Sorted := by
  cases a with
  | loadBindings bindings => exact sorted_sortBindings _
  | addBinding binding => exact sorted_sortBindings _
  | removeBinding index => exact h.sublist (List.eraseIdx_sublist _ _)
  | registerAgent name id => exact h
  | setDefault id => exact h
  | setChannelDefault key id => exact h
  | setUserDefault key id => exact h
  | setDirectRoute key user id => exact h

theorem sorted_after (as : List (Action AgentId)) : (Runs.after step new as).Sorted := by
  have hnew : (new : AgentRouter AgentId).Sorted := .nil
  generalize (new : AgentRouter AgentId) = r at hnew
  induction as generalizing r with
  | nil => exact hnew
  | cons a as ih => exact ih _ (hnew.step a)

/-! ## Where messages go -/

/-- The binding matches and its agent is registered. -/
def Live (r : AgentRouter AgentId) (ctx : BindingContext) (binding : AgentBinding) (id : AgentId) :
    Prop := bindingMatches binding ctx = true ∧ r.agentNameCache.lookup binding.agent = some id

/-- The agent of the most specific live binding; of several, the first in the list. -/
def MostSpecific (r : AgentRouter AgentId) (ctx : BindingContext) (id : AgentId) : Prop :=
  ∃ front binding back, r.bindings.map Prod.fst = front ++ binding :: back ∧ r.Live ctx binding id ∧
    (∀ b ∈ front, ∀ other, r.Live ctx b other →
      b.matchRule.specificity < binding.matchRule.specificity) ∧
    ∀ b ∈ back, ∀ other, r.Live ctx b other →
      b.matchRule.specificity ≤ binding.matchRule.specificity

/-- No binding is live. -/
def NoneLive (r : AgentRouter AgentId) (ctx : BindingContext) : Prop :=
  ∀ b ∈ r.bindings.map Prod.fst, ∀ id, ¬ r.Live ctx b id

/-- The first of the defaults that is set. -/
def firstDefault (r : AgentRouter AgentId) (key platformUserId : String) (userKey : Option String)
    (accountId : Option String) : Option AgentId :=
  [r.directRoutes.lookup (key, platformUserId),
    userKey.bind fun k => r.userDefaults.lookup k,
    r.userDefaults.lookup platformUserId,
    accountId.bind fun acc => r.channelDefaults.lookup (key ++ ":" ++ acc),
    r.channelDefaults.lookup key,
    r.defaultAgent].findSome? id

/-- Where the router sends a message of the context. -/
structure Routed (r : AgentRouter AgentId) (channelKey : ChannelType → String)
    (channelType : ChannelType) (platformUserId : String) (userKey : Option String)
    (ctx : BindingContext) : Prop where
  live : ∀ id, r.MostSpecific ctx id →
    r.resolveWithContext channelKey channelType platformUserId userKey ctx = some id
  exhaustive : (∃ id, r.MostSpecific ctx id) ∨ r.NoneLive ctx
  default : r.NoneLive ctx → r.resolveWithContext channelKey channelType platformUserId userKey ctx =
    r.firstDefault (channelKey channelType) platformUserId userKey ctx.accountId
  agree : r.resolve channelKey channelType platformUserId userKey =
    r.resolveWithContext channelKey channelType platformUserId userKey
      ⟨channelTypeToStr channelType, none, platformUserId, none, []⟩

/-! ### The bindings in order -/

section Order

variable {r : AgentRouter AgentId} {ctx : BindingContext}

/-- The agent of a binding if it is live. -/
def liveAgent (r : AgentRouter AgentId) (ctx : BindingContext) (binding : AgentBinding) :
    Option AgentId :=
  if bindingMatches binding ctx then r.agentNameCache.lookup binding.agent else none

theorem live_iff {binding : AgentBinding} {id : AgentId} :
    r.Live ctx binding id ↔ r.liveAgent ctx binding = some id := by
  unfold Live liveAgent
  by_cases hmatch : bindingMatches binding ctx = true
  · rw [if_pos hmatch]
    exact and_iff_right hmatch
  · rw [if_neg hmatch]
    exact iff_of_false (fun h => hmatch h.1) (Option.some_ne_none id).symm

theorem resolveBinding_eq :
    r.resolveBinding ctx = (r.bindings.map Prod.fst).findSome? (r.liveAgent ctx) := by
  rw [List.findSome?_map]
  rfl

theorem Sorted.map (h : r.Sorted) : (r.bindings.map Prod.fst).Pairwise fun a b =>
    b.matchRule.specificity ≤ a.matchRule.specificity := List.pairwise_map.mpr h

theorem mostSpecific_of_resolveBinding (h : r.Sorted) {id : AgentId}
    (hid : r.resolveBinding ctx = some id) : r.MostSpecific ctx id := by
  rw [resolveBinding_eq] at hid
  obtain ⟨front, binding, back, hbindings, hlive, hfront⟩ := List.findSome?_eq_some_iff.mp hid
  have hsorted := h.map
  rw [hbindings] at hsorted
  obtain ⟨-, hback, -⟩ := List.pairwise_append.mp hsorted
  refine ⟨front, binding, back, hbindings, live_iff.mpr hlive, fun b hb other hother => ?_,
    fun b hb other _ => (List.pairwise_cons.mp hback).1 b hb⟩
  rw [live_iff, hfront b hb] at hother
  cases hother

theorem resolveBinding_of_mostSpecific (h : r.Sorted) {id : AgentId}
    (hid : r.MostSpecific ctx id) : r.resolveBinding ctx = some id := by
  obtain ⟨front, binding, back, hbindings, hlive, hfront, -⟩ := hid
  have hsorted := h.map
  rw [hbindings] at hsorted
  obtain ⟨-, -, hbefore⟩ := List.pairwise_append.mp hsorted
  rw [resolveBinding_eq]
  refine List.findSome?_eq_some_iff.mpr
    ⟨front, binding, back, hbindings, live_iff.mp hlive, fun b hb => ?_⟩
  by_contra hsome
  obtain ⟨other, hother⟩ := Option.ne_none_iff_exists'.mp hsome
  exact absurd (hfront b hb other (live_iff.mpr hother))
    (Nat.not_lt.mpr (hbefore b hb binding List.mem_cons_self))

theorem findSome?_id_cons (o : Option AgentId) (os : List (Option AgentId)) :
    (o :: os).findSome? id = o.or (os.findSome? id) := by
  cases o <;> rfl

theorem resolveBinding_eq_none : r.resolveBinding ctx = none ↔ r.NoneLive ctx := by
  rw [resolveBinding_eq, List.findSome?_eq_none_iff]
  unfold NoneLive
  simp only [live_iff, Option.eq_none_iff_forall_ne_some, ne_eq]

end Order

/-- **Where the router sends messages after every run.** -/
theorem routed_after (as : List (Action AgentId)) (channelKey : ChannelType → String)
    (channelType : ChannelType) (platformUserId : String) (userKey : Option String)
    (ctx : BindingContext) :
    (Runs.after step new as).Routed channelKey channelType platformUserId userKey ctx := by
  have hsorted := sorted_after as
  generalize Runs.after step new as = r at hsorted
  refine ⟨fun id hid => ?_, ?_, fun hnone => ?_, ?_⟩
  · unfold resolveWithContext
    rw [resolveBinding_of_mostSpecific hsorted hid]
    rfl
  · cases hbinding : r.resolveBinding ctx with
    | none => exact .inr (resolveBinding_eq_none.mp hbinding)
    | some id => exact .inl ⟨id, mostSpecific_of_resolveBinding hsorted hbinding⟩
  · unfold resolveWithContext firstDefault
    rw [resolveBinding_eq_none.mpr hnone]
    simp only [findSome?_id_cons, List.findSome?_nil, Option.none_or, Option.or_none]
  · rfl

end AgentRouter

end LibreFang.Channels
