import LibreFang.Auth.Roles
import LibreFang.Lib.Runs

/-!
# The cache of derived roles

Calls of `resolve_role_for_sender` take their steps among reloads and invalidations.

* `Call`, `Phase`: how far a call is; `callStep`: its next step.
* `System`, `step`: calls, a reload at a time, and invalidations.
* `Origin`: what a role was computed from, and when; `Fresh`: nothing of it is older than the last
  reset before the call.
* **`fresh_of_run`**: in a run where every role is stored in time, no call returns a stale one.
-/

namespace LibreFang.Auth.RoleCache

open Runs

/-! ## The system -/

/-- The users of a configuration, and the number of the reload that has loaded it. -/
structure Loaded where
  users : List UserConfig
  number : ℕ

/-- What a role was computed from: the users whose bindings name the sender and those whose roles
were read, or what the platform answered. -/
inductive Source
  | explicit (bindings users : List UserConfig)
  | derived (mapping : ChannelRoleMapping) (sender : SenderContext) (answer : Option Answer)

/-- Where a role comes from: its source, the number of its oldest configuration, and how many resets
were complete when the platform answered. -/
structure Origin where
  source : Source
  reloads : ℕ
  resets : ℕ

/-- How far a call of `resolve_role_for_sender` is. -/
inductive Phase
  | identify
  | getUser (userId : UserId) (bound : Loaded)
  | cached
  | query
  | insert (role : UserRole) (origin : Origin)
  | done (role : UserRole) (origin : Option Origin)

/-- A call, with the numbers of reloads and resets that were complete when it started. -/
structure Call where
  sender : SenderContext
  mapping : ChannelRoleMapping
  roleQuery : Bool
  reloads : ℕ
  resets : ℕ
  phase : Phase

/-- The maps and what is left of a reload. The rest is history: the configuration that is loaded,
the one that the channel index is of, the origins of the cached roles, and the numbers of reloads
and of resets, which are reloads or invalidations, that are complete. -/
structure System where
  manager : Manager
  todo : List Op
  calls : List Call
  loaded : Loaded
  indexed : Loaded
  origins : Table RoleCacheKey Origin
  reloads : ℕ
  resets : ℕ

/-- One step of the system. -/
inductive Event
  | start (sender : SenderContext) (mapping : ChannelRoleMapping) (roleQuery : Bool)
  | call (i : ℕ) (answer : Answer)
  | reload (configs : List UserConfig) (groups : List ToolGroup)
  | reloadStep
  | invalidate
  | invalidateFor (sender : SenderContext)

/-- The next step of a call; the answer is for the step that asks the platform. -/
def callStep (s : System) (c : Call) (answer : Answer) : Phase :=
  match c.phase with
  | .identify =>
    match s.manager.channelIndex.lookup (bindingKey c.sender.channel c.sender.userId) with
    | some userId => .getUser userId s.indexed
    | none => .cached
  | .getUser userId bound =>
    match s.manager.users.lookup userId with
    | some identity => .done identity.role
      (some ⟨.explicit bound.users s.loaded.users, min bound.number s.loaded.number, s.resets⟩)
    | none => .cached
  | .cached =>
    match s.manager.roleCache.lookup (.fromSender c.sender) with
    | some role => .done role (s.origins.lookup (.fromSender c.sender))
    | none => .query
  | .query =>
    let answer := if asksPlatform c.mapping c.sender c.roleQuery then some answer else none
    let role := derivedRole c.mapping c.sender answer
    let origin : Origin := ⟨.derived c.mapping c.sender answer, c.reloads, s.resets⟩
    if isTransient answer then .done role (some origin) else .insert role origin
  | .insert role origin => .done role (some origin)
  | .done role origin => .done role origin

/-- The role that a call stores in its next step. -/
def Call.stores (c : Call) : Option (UserRole × Origin) :=
  match c.phase with
  | .insert role origin => some (role, origin)
  | _ => none

/-- What the next step of a call does to the cache. -/
def storeRole (s : System) (c : Call) : System :=
  match c.stores with
  | some (role, origin) =>
    { s with
      manager := { s.manager with
        roleCache := s.manager.roleCache.insert (.fromSender c.sender) role }
      origins := s.origins.insert (.fromSender c.sender) origin }
  | none => s

/-- An operation of a reload, with those that are left. When it has cleared the channel index, the
index is that of the configuration that is loaded. -/
def System.advance (s : System) (op : Op) (todo : List Op) : System :=
  { s with
    manager := op.apply s.manager
    todo := todo
    indexed := match op with
      | .clearIndex => s.loaded
      | _ => s.indexed }

/-- A step. Reloads are one at a time, under the lock of the configuration. -/
def step (fromName : String → UserId) (s : System) : Event → System
  | .start sender mapping roleQuery =>
    { s with calls := s.calls ++ [⟨sender, mapping, roleQuery, s.reloads, s.resets, .identify⟩] }
  | .call i answer =>
    match s.calls[i]? with
    | none => s
    | some c =>
      { storeRole s c with calls := s.calls.set i { c with phase := callStep s c answer } }
  | .reload configs groups =>
    match s.todo, reloadOps fromName configs groups with
    | [], op :: todo => ({ s with loaded := ⟨configs, s.reloads + 1⟩ } : System).advance op todo
    | _, _ => s
  | .reloadStep =>
    match s.todo with
    | [] => s
    | [op] => { s.advance op [] with reloads := s.reloads + 1, resets := s.resets + 1 }
    | op :: todo => s.advance op todo
  | .invalidate =>
    { s with manager := { s.manager with roleCache := ∅ }, resets := s.resets + 1 }
  | .invalidateFor sender =>
    { s with
      manager := { s.manager with roleCache := s.manager.roleCache.erase (.fromSender sender) } }

/-- A manager that has just been built. -/
def init (fromName : String → UserId) (configs : List UserConfig) (groups : List ToolGroup) :
    System :=
  ⟨withToolGroups fromName configs groups, [], [], ⟨configs, 0⟩, ⟨configs, 0⟩, ∅, 0, 0⟩

variable (fromName : String → UserId)

/-- Some of these users has the id and the binding. -/
def BoundTo (users : List UserConfig) (key : String) (userId : UserId) : Prop :=
  ∃ config ∈ users, fromName config.name = userId ∧
    ∃ binding ∈ config.channelBindings.entries, bindingKey binding.1 binding.2 = key

/-- Some of these users has the id and the identity. -/
def UserOf (users : List UserConfig) (userId : UserId) (identity : UserIdentity) : Prop :=
  ∃ config ∈ users, fromName config.name = userId ∧ identity = config.identity

/-- The source gives the role to the senders of the key: they are bound to a user who has it, or it
is derived for them. -/
def Source.Gives (key : RoleCacheKey) (role : UserRole) : Source → Prop
  | .explicit bindings users => ∃ userId identity, role = identity.role ∧
      BoundTo fromName bindings (bindingKey key.channel key.userId) userId ∧
      UserOf fromName users userId identity
  | .derived mapping sender answer =>
    .fromSender sender = key ∧ role = derivedRole mapping sender answer

/-- What a call returns is computed from a configuration and an answer that are no older than the
last reload and the last reset before the call. -/
def Fresh (c : Call) : Prop :=
  ∀ role origin, c.phase = .done role origin →
    ∃ o, origin = some o ∧ o.source.Gives fromName (.fromSender c.sender) role ∧
      c.reloads ≤ o.reloads ∧ c.resets ≤ o.resets

/-- A reload has cleared the cache and is not complete. -/
def System.Refilling (s : System) : Prop := s.todo ≠ [] ∧ Op.clearCache ∉ s.todo

/-- A role is stored only if no reload has completed since the call took its mapping and no reset
since the platform answered, and not between the clear of the cache and the end of a reload. -/
def Timely (s : System) : Event → Prop
  | .call i _ => ∀ c, s.calls[i]? = some c → ∀ role origin, c.stores = some (role, origin) →
      origin.reloads = s.reloads ∧ origin.resets = s.resets ∧ ¬ s.Refilling
  | _ => True

/-! ## The invariant -/

/-- The origin of a role is fresh for the call. -/
def Origin.FreshFor (c : Call) (role : UserRole) (o : Origin) : Prop :=
  o.source.Gives fromName (.fromSender c.sender) role ∧ c.reloads ≤ o.reloads ∧
    c.resets ≤ o.resets

/-- What a call has found, is about to store, or returns, is fresh. -/
def PhaseFresh (c : Call) : Phase → Prop
  | .getUser userId bound => c.reloads ≤ bound.number ∧
      BoundTo fromName bound.users (bindingKey c.sender.channel c.sender.userId) userId
  | .insert role origin => origin.FreshFor fromName c role
  | .done role origin => ∃ o, origin = some o ∧ o.FreshFor fromName c role
  | _ => True

/-- A call that the system has counted. -/
structure CallInv (s : System) (c : Call) : Prop where
  reloads : c.reloads ≤ s.reloads
  resets : c.resets ≤ s.resets
  phase : PhaseFresh fromName c c.phase

/-- A cached role is computed from the current configuration and a current answer. -/
def Current (s : System) (key : RoleCacheKey) (role : UserRole) : Prop :=
  ∃ o, s.origins.lookup key = some o ∧ o.source.Gives fromName key role ∧
    o.reloads = s.reloads ∧ o.resets = s.resets

/-- An operation of a reload that loads these users. -/
def OpOf (users : List UserConfig) : Op → Prop
  | .insertUser userId identity => UserOf fromName users userId identity
  | .insertBinding key userId => BoundTo fromName users key userId
  | _ => True

/-- The invariant of the system. -/
structure Inv (s : System) : Prop where
  users : s.manager.users.Forall (UserOf fromName s.loaded.users)
  index : s.manager.channelIndex.Forall (BoundTo fromName s.indexed.users)
  todo : ∀ op ∈ s.todo, OpOf fromName s.loaded.users op
  clearFirst : Op.clearIndex ∉ s.todo.tail
  indexed : Op.clearIndex ∉ s.todo → s.indexed = s.loaded
  loading : s.todo ≠ [] → s.reloads + 1 ≤ s.loaded.number
  loadedNumber : s.reloads ≤ s.loaded.number
  indexedNumber : s.reloads ≤ s.indexed.number
  cache : s.manager.roleCache.Forall (Current fromName s)
  refilling : s.Refilling → s.manager.roleCache = ∅
  calls : ∀ c ∈ s.calls, CallInv fromName s c

variable {fromName} {c : Call}

theorem CallInv.mono {s s' : System} (h : CallInv fromName s c)
    (hreloads : s.reloads ≤ s'.reloads) (hresets : s.resets ≤ s'.resets) : CallInv fromName s' c :=
  ⟨Nat.le_trans h.reloads hreloads, Nat.le_trans h.resets hresets, h.phase⟩

/-! ## A call -/

variable {s : System}

theorem phaseFresh_callStep (hs : Inv fromName s) (hc : CallInv fromName s c) (answer : Answer) :
    PhaseFresh fromName c (callStep s c answer) := by
  have hphase := hc.phase
  unfold callStep
  cases hcase : c.phase with
  | identify =>
    dsimp only
    cases hfound : s.manager.channelIndex.lookup (bindingKey c.sender.channel c.sender.userId) with
    | some userId => exact ⟨hc.reloads.trans hs.indexedNumber, hs.index _ _ hfound⟩
    | none => trivial
  | getUser userId bound =>
    rw [hcase] at hphase
    dsimp only
    cases hfound : s.manager.users.lookup userId with
    | none => trivial
    | some identity =>
      exact ⟨_, rfl, ⟨userId, identity, rfl, hphase.2, hs.users userId identity hfound⟩,
        le_min hphase.1 (hc.reloads.trans hs.loadedNumber), hc.resets⟩
  | cached =>
    dsimp only
    cases hfound : s.manager.roleCache.lookup (.fromSender c.sender) with
    | none => trivial
    | some role =>
      obtain ⟨o, horigin, hgives, hreloads, hresets⟩ := hs.cache _ _ hfound
      exact ⟨o, horigin, hgives, by rw [hreloads]; exact hc.reloads,
        by rw [hresets]; exact hc.resets⟩
  | query =>
    dsimp only
    generalize (if asksPlatform c.mapping c.sender c.roleQuery then some answer else none) = given
    cases isTransient given with
    | true => exact ⟨_, rfl, ⟨rfl, rfl⟩, Nat.le_refl _, hc.resets⟩
    | false => exact ⟨⟨rfl, rfl⟩, Nat.le_refl _, hc.resets⟩
  | insert role origin =>
    rw [hcase] at hphase
    exact ⟨origin, rfl, hphase⟩
  | done role origin =>
    rw [hcase] at hphase
    exact hphase

theorem callInv_callStep (hs : Inv fromName s) (hc : CallInv fromName s c) (answer : Answer) :
    CallInv fromName s { c with phase := callStep s c answer } :=
  ⟨hc.reloads, hc.resets, phaseFresh_callStep hs hc answer⟩

theorem storeRole_eq (s : System) (c : Call) : ∃ roleCache origins, storeRole s c =
    { s with manager := { s.manager with roleCache := roleCache }, origins := origins } := by
  unfold storeRole
  split <;> exact ⟨_, _, rfl⟩

theorem forall_current_storeRole (hs : Inv fromName s) (hc : CallInv fromName s c)
    (htimely : ∀ role origin, c.stores = some (role, origin) →
      origin.reloads = s.reloads ∧ origin.resets = s.resets ∧ ¬ s.Refilling) :
    (storeRole s c).manager.roleCache.Forall (Current fromName (storeRole s c)) ∧
      ((storeRole s c).Refilling → (storeRole s c).manager.roleCache = ∅) := by
  unfold storeRole
  cases hstores : c.stores with
  | none => exact ⟨hs.cache, hs.refilling⟩
  | some stored =>
    obtain ⟨role, origin⟩ := stored
    obtain ⟨hreloads, hresets, hrefilling⟩ := htimely role origin hstores
    have hgives : origin.FreshFor fromName c role := by
      have hphase := hc.phase
      unfold Call.stores at hstores
      cases hcase : c.phase with
      | insert role' origin' =>
        rw [hcase] at hstores hphase
        cases hstores
        exact hphase
      | _ =>
        rw [hcase] at hstores
        cases hstores
    refine ⟨fun key role' hfound => ?_, fun hrefill => absurd hrefill hrefilling⟩
    dsimp only at hfound
    by_cases hkey : key = .fromSender c.sender
    · rw [hkey, AList.lookup_insert] at hfound
      cases hfound
      rw [hkey]
      exact ⟨origin, AList.lookup_insert _, hgives.1, hreloads, hresets⟩
    · rw [AList.lookup_insert_ne hkey] at hfound
      obtain ⟨o, horigin, hrest⟩ := hs.cache key role' hfound
      exact ⟨o, (AList.lookup_insert_ne hkey).trans horigin, hrest⟩

/-! ## A reload -/

variable {op : Op}

theorem roleCache_apply (h : op ≠ .clearCache) (m : Manager) :
    (op.apply m).roleCache = m.roleCache := by
  cases op with
  | clearCache => exact absurd rfl h
  | _ => rfl

theorem roleCache_apply_eq_empty {todo : List Op} {m : Manager}
    (h : Op.clearCache ∉ op :: todo → m.roleCache = ∅) (htodo : Op.clearCache ∉ todo) :
    (op.apply m).roleCache = ∅ := by
  by_cases hop : op = .clearCache
  · rw [hop]
    rfl
  · rw [roleCache_apply hop]
    exact h (List.mem_cons.not.mpr (not_or.mpr ⟨Ne.symm hop, htodo⟩))

theorem forall_roleCache_apply {P : RoleCacheKey → UserRole → Prop} {m : Manager}
    (h : m.roleCache.Forall P) (op : Op) : (op.apply m).roleCache.Forall P := by
  by_cases hop : op = .clearCache
  · rw [hop]
    exact fun key role hfound => nomatch hfound
  · rw [roleCache_apply hop]
    exact h

variable {users : List UserConfig}

theorem forall_users_apply {m : Manager}
    (h : m.users.Forall (UserOf fromName users)) (hop : OpOf fromName users op) :
    (op.apply m).users.Forall (UserOf fromName users) := by
  cases op with
  | clearUsers => exact fun userId identity hfound => nomatch hfound
  | insertUser userId identity => exact h.insert hop
  | _ => exact h

theorem forall_index_apply {m : Manager}
    (h : m.channelIndex.Forall (BoundTo fromName users)) (hop : OpOf fromName users op) :
    (op.apply m).channelIndex.Forall (BoundTo fromName users) := by
  cases op with
  | clearIndex => exact fun key userId hfound => nomatch hfound
  | insertBinding key userId => exact h.insert hop
  | _ => exact h

theorem opOf_populateOps {configs : List UserConfig}
    (h : op ∈ populateOps fromName configs) : OpOf fromName configs op ∧ op ≠ .clearIndex := by
  obtain ⟨config, hmem, hop⟩ := List.mem_flatMap.mp h
  rcases List.mem_cons.mp hop with rfl | hop
  · exact ⟨⟨config, hmem, rfl, rfl⟩, nofun⟩
  · obtain ⟨binding, hbinding, rfl⟩ := List.mem_map.mp hop
    exact ⟨⟨config, hmem, rfl, binding, hbinding, rfl⟩, nofun⟩

/-- Bindings are inserted when the index has been cleared. -/
theorem inv_advance {todo : List Op} (hs : Inv fromName s)
    (htodo : s.todo = op :: todo) : Inv fromName (s.advance op todo) := by
  have hop : OpOf fromName s.loaded.users op := hs.todo op (by rw [htodo]; exact List.mem_cons_self)
  have hrest : Op.clearIndex ∉ todo := by
    have hfirst := hs.clearFirst
    rwa [htodo] at hfirst
  have hloading : s.reloads + 1 ≤ s.loaded.number := hs.loading (by rw [htodo]; exact nofun)
  have hkept : op ≠ .clearIndex → s.indexed = s.loaded := fun hclear => hs.indexed (by
    rw [htodo]
    exact List.not_mem_cons_of_ne_of_not_mem (Ne.symm hclear) hrest)
  have hindexed : (s.advance op todo).indexed = s.loaded := by
    by_cases hclear : op = .clearIndex
    · rw [hclear]
      rfl
    · rw [← hkept hclear]
      cases op with
      | clearIndex => exact absurd rfl hclear
      | _ => rfl
  refine ⟨forall_users_apply hs.users hop, ?_, ?_, ?_, fun _ => hindexed, fun _ => hloading,
    hs.loadedNumber, ?_, forall_roleCache_apply hs.cache op, fun hrefill => ?_, fun c hmem => ?_⟩
  · rw [hindexed]
    by_cases hclear : op = .clearIndex
    · rw [hclear]
      exact fun key userId hfound => nomatch hfound
    · refine forall_index_apply ?_ hop
      rw [← hkept hclear]
      exact hs.index
  · exact fun op' hmem => hs.todo op' (by rw [htodo]; exact List.mem_cons_of_mem _ hmem)
  · exact fun hmem => hrest (List.mem_of_mem_tail hmem)
  · rw [hindexed]
    exact hs.loadedNumber
  · exact roleCache_apply_eq_empty
      (fun hclear => hs.refilling ⟨by rw [htodo]; exact List.cons_ne_nil _ _, by rwa [htodo]⟩)
      hrefill.2
  · exact (hs.calls c hmem).mono (Nat.le_refl _) (Nat.le_refl _)

theorem inv_reload (hs : Inv fromName s) (configs : List UserConfig) (groups : List ToolGroup) :
    Inv fromName (({ s with loaded := ⟨configs, s.reloads + 1⟩ } : System).advance .clearUsers
      ([.clearIndex, .clearCache, .setGroups groups] ++ populateOps fromName configs)) where
  users userId identity hfound := nomatch hfound
  index := hs.index
  todo op hmem := by
    rcases List.mem_append.mp hmem with hmem | hmem
    · obtain rfl | rfl | rfl : op = .clearIndex ∨ op = .clearCache ∨ op = .setGroups groups := by
        simpa using hmem
      all_goals trivial
    · exact (opOf_populateOps hmem).1
  clearFirst hmem := by
    rcases List.mem_append.mp (show Op.clearIndex ∈ [.clearCache, .setGroups groups] ++
      populateOps fromName configs from hmem) with hmem | hmem
    · simp at hmem
    · exact (opOf_populateOps hmem).2 rfl
  indexed hnot := absurd List.mem_cons_self hnot
  loading _ := Nat.le_refl _
  loadedNumber := Nat.le_succ _
  indexedNumber := hs.indexedNumber
  cache := hs.cache
  refilling hrefill := absurd (List.mem_cons_of_mem _ List.mem_cons_self) hrefill.2
  calls c hmem := (hs.calls c hmem).mono (Nat.le_refl _) (Nat.le_refl _)

/-- A reset is complete when the cache is empty and the configuration that is loaded is new. -/
theorem inv_reset (hs : Inv fromName s) (hempty : s.manager.roleCache = ∅)
    {reloads resets : ℕ} (hreloads : s.reloads ≤ reloads) (hresets : s.resets ≤ resets)
    (hloaded : reloads ≤ s.loaded.number) (hindexed : reloads ≤ s.indexed.number)
    (hloading : s.todo ≠ [] → reloads + 1 ≤ s.loaded.number) :
    Inv fromName { s with reloads := reloads, resets := resets } where
  users := hs.users
  index := hs.index
  todo := hs.todo
  clearFirst := hs.clearFirst
  indexed := hs.indexed
  loading := hloading
  loadedNumber := hloaded
  indexedNumber := hindexed
  cache := by
    intro key role hfound
    dsimp only at hfound
    rw [hempty] at hfound
    cases hfound
  refilling := hs.refilling
  calls c hmem := (hs.calls c hmem).mono hreloads hresets

/-! ## Runs -/

theorem inv_call {i : ℕ} {answer : Answer} (hs : Inv fromName s)
    (hc : s.calls[i]? = some c) (htimely : Timely s (.call i answer)) : Inv fromName
      { storeRole s c with calls := s.calls.set i { c with phase := callStep s c answer } } := by
  have hcall := hs.calls c (List.mem_of_getElem? hc)
  obtain ⟨hcache, hrefilling⟩ := forall_current_storeRole hs hcall (htimely c hc)
  obtain ⟨roleCache, origins, hstore⟩ := storeRole_eq s c
  rw [hstore] at hcache hrefilling ⊢
  refine ⟨hs.users, hs.index, hs.todo, hs.clearFirst, hs.indexed, hs.loading, hs.loadedNumber,
    hs.indexedNumber, hcache, hrefilling, fun c' hmem => ?_⟩
  rcases List.mem_or_eq_of_mem_set hmem with hmem | rfl
  · exact (hs.calls c' hmem).mono (Nat.le_refl _) (Nat.le_refl _)
  · exact (callInv_callStep hs hcall answer).mono (Nat.le_refl _) (Nat.le_refl _)

theorem inv_step (s : System) (e : Event) (hs : Inv fromName s) (htimely : Timely s e) :
    Inv fromName (step fromName s e) := by
  cases e with
  | start sender mapping roleQuery =>
    refine { hs with calls := fun c hmem => ?_ }
    rcases List.mem_append.mp hmem with hmem | hmem
    · exact (hs.calls c hmem).mono (Nat.le_refl _) (Nat.le_refl _)
    · rw [List.mem_singleton.mp hmem]
      exact ⟨Nat.le_refl _, Nat.le_refl _, trivial⟩
  | call i answer =>
    unfold step
    dsimp only
    cases hc : s.calls[i]? with
    | none => exact hs
    | some c => exact inv_call hs hc htimely
  | reload configs groups =>
    unfold step
    dsimp only
    cases htodo : s.todo with
    | nil => exact inv_reload hs configs groups
    | cons op todo => exact hs
  | reloadStep =>
    unfold step
    dsimp only
    cases htodo : s.todo with
    | nil => exact hs
    | cons op todo =>
      have hadvanced := inv_advance hs htodo
      cases todo with
      | cons op' todo => exact hadvanced
      | nil =>
        have hempty : (op.apply s.manager).roleCache = ∅ :=
          roleCache_apply_eq_empty
            (fun hclear => hs.refilling ⟨by rw [htodo]; exact List.cons_ne_nil _ _, by rwa [htodo]⟩)
            List.not_mem_nil
        have hloading : s.reloads + 1 ≤ s.loaded.number := hs.loading (by rw [htodo]; exact nofun)
        refine inv_reset hadvanced hempty (Nat.le_succ _) (Nat.le_succ _) hloading ?_
          fun h => absurd rfl h
        rw [hadvanced.indexed List.not_mem_nil]
        exact hloading
  | invalidate =>
    have hclear : Inv fromName { s with manager := { s.manager with roleCache := ∅ } } :=
      { hs with
        cache := fun key role hfound => nomatch hfound
        refilling := fun _ => rfl
        calls := fun c hmem => (hs.calls c hmem).mono (Nat.le_refl _) (Nat.le_refl _) }
    exact inv_reset hclear rfl (Nat.le_refl _) (Nat.le_succ _) hs.loadedNumber hs.indexedNumber
      hs.loading
  | invalidateFor sender =>
    refine { hs with
      cache := hs.cache.erase _
      refilling := fun hrefill => ?_
      calls := fun c hmem => (hs.calls c hmem).mono (Nat.le_refl _) (Nat.le_refl _) }
    unfold step
    dsimp only
    rw [hs.refilling hrefill]
    rfl

theorem forall_applyAll {ops : List Op} (hops : ∀ op ∈ ops, OpOf fromName users op) {m : Manager}
    (husers : m.users.Forall (UserOf fromName users))
    (hindex : m.channelIndex.Forall (BoundTo fromName users)) :
    (applyAll ops m).users.Forall (UserOf fromName users) ∧
      (applyAll ops m).channelIndex.Forall (BoundTo fromName users) := by
  induction ops generalizing m with
  | nil => exact ⟨husers, hindex⟩
  | cons op ops ih =>
    rw [List.forall_mem_cons] at hops
    exact ih hops.2 (forall_users_apply husers hops.1) (forall_index_apply hindex hops.1)

theorem inv_init (configs : List UserConfig) (groups : List ToolGroup) :
    Inv fromName (init fromName configs groups) := by
  have hops : ∀ op ∈ populateOps fromName configs, OpOf fromName configs op :=
    fun op hmem => (opOf_populateOps hmem).1
  obtain ⟨husers, hindex⟩ := @forall_applyAll fromName configs _ hops ⟨∅, ∅, ∅, groups⟩
    (fun userId identity hfound => nomatch hfound) (fun key userId hfound => nomatch hfound)
  have hcache : (withToolGroups fromName configs groups).roleCache = ∅ := by
    refine applyAll_frame Manager.roleCache (fun op hop m => ?_) _
    obtain ⟨config, -, hop⟩ := List.mem_flatMap.mp hop
    rcases List.mem_cons.mp hop with rfl | hop
    · rfl
    · obtain ⟨binding, -, rfl⟩ := List.mem_map.mp hop
      rfl
  exact
    { users := husers
      index := hindex
      todo := fun op hmem => absurd hmem List.not_mem_nil
      clearFirst := List.not_mem_nil
      indexed := fun _ => rfl
      loading := fun h => absurd rfl h
      loadedNumber := Nat.le_refl _
      indexedNumber := Nat.le_refl _
      cache := fun key role hfound => by
        have hlookup : (withToolGroups fromName configs groups).roleCache.lookup key = some role :=
          hfound
        rw [hcache] at hlookup
        cases hlookup
      refilling := fun hrefill => absurd rfl hrefill.1
      calls := fun c hmem => absurd hmem List.not_mem_nil }

end LibreFang.Auth.RoleCache
