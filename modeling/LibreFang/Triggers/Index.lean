import LibreFang.Lib.Index
import LibreFang.Lib.Runs
import LibreFang.Triggers.Steps

/-!
# The index of the triggers

The engine keeps the triggers, a list of ids for each agent, and when each trigger last fired.

* `Exact`: every trigger is listed once, under its agent, and only triggers have fired.
* `Change`, `change`: the operations on the engine; `Fresh`: new ids are not in use.
* **`exact_iff_loadsInPlace`**: the index is exact in every state of a run exactly if every file
  that is loaded keeps the agents of its ids.
-/

namespace LibreFang.Triggers

open Index Runs

/-! ## The exact index -/

/-- The ids listed for an agent. -/
def TriggerEngine.listed (e : TriggerEngine) (agentId : AgentId) : List TriggerId :=
  (e.agentTriggers.lookup agentId).getD []

/-- The agent of a stored trigger. -/
def TriggerEngine.owner (e : TriggerEngine) (id : TriggerId) : Option AgentId :=
  (e.triggers.lookup id).map (·.agentId)

/-- Every trigger is stored under its id and listed once, under its agent; nothing else is listed,
and only stored triggers have fired. -/
structure Exact (e : TriggerEngine) : Prop where
  keyed : e.triggers.Forall fun id t => t.id = id
  index : Inverts e.listed e.owner
  last : ∀ id, e.lastFired.lookup id ≠ none → e.triggers.lookup id ≠ none

variable {e e' : TriggerEngine} {id : TriggerId} {t : Trigger}

theorem listed_onIndex (e : TriggerEngine) (agentId : AgentId)
    (f : List TriggerId → List TriggerId) :
    (e.onIndex agentId f).listed = Function.update e.listed agentId (f (e.listed agentId)) := by
  funext a
  unfold TriggerEngine.onIndex TriggerEngine.listed
  by_cases ha : a = agentId
  · subst ha
    rw [Function.update_self]
    dsimp only
    rw [AList.lookup_insert]
    rfl
  · rw [Function.update_of_ne ha]
    dsimp only
    rw [AList.lookup_insert_ne ha]

theorem owner_store (e : TriggerEngine) (t : Trigger) :
    (e.store t).owner = Function.update e.owner t.id (some t.agentId) := by
  funext id
  unfold TriggerEngine.store TriggerEngine.owner
  by_cases hid : id = t.id
  · subst hid
    rw [Function.update_self]
    dsimp only
    rw [AList.lookup_insert]
    rfl
  · rw [Function.update_of_ne hid]
    dsimp only
    rw [AList.lookup_insert_ne hid]

theorem listed_erase (e : TriggerEngine) (agentId : AgentId) :
    TriggerEngine.listed { e with agentTriggers := e.agentTriggers.erase agentId } =
      Function.update e.listed agentId [] := by
  funext a
  unfold TriggerEngine.listed
  by_cases ha : a = agentId
  · subst ha
    rw [Function.update_self]
    dsimp only
    rw [AList.lookup_erase]
    rfl
  · rw [Function.update_of_ne ha]
    dsimp only
    rw [AList.lookup_erase_ne ha]

theorem lookup_drop_eq (e : TriggerEngine) (id key : TriggerId) :
    (e.drop id).triggers.lookup key = if key = id then none else e.triggers.lookup key := by
  unfold TriggerEngine.drop
  split_ifs with hkey
  · subst hkey
    exact AList.lookup_erase _ _
  · exact AList.lookup_erase_ne hkey

theorem lastFired_drop_eq (e : TriggerEngine) (id key : TriggerId) :
    (e.drop id).lastFired.lookup key = if key = id then none else e.lastFired.lookup key := by
  unfold TriggerEngine.drop
  split_ifs with hkey
  · subst hkey
    exact AList.lookup_erase _ _
  · exact AList.lookup_erase_ne hkey

/-! ## One operation -/

theorem Exact.push (h : Exact e) (hfresh : e.triggers.lookup t.id = none) :
    Exact ((e.store t).onIndex t.agentId (· ++ [t.id])) where
  keyed := Table.Forall.insert h.keyed rfl
  index := by
    have howner : e.owner t.id = none := by
      unfold TriggerEngine.owner
      rw [hfresh]
      rfl
    rw [listed_onIndex]
    exact (owner_store e t) ▸ h.index.push t.agentId howner
  last key hkey := by
    by_cases hid : key = t.id
    · subst hid
      exact fun hnone => nomatch (AList.lookup_insert e.triggers).symm.trans hnone
    · exact fun hnone => h.last key hkey ((AList.lookup_insert_ne hid).symm.trans hnone)

theorem Exact.inPlace (h : Exact e) (hindex : e'.agentTriggers = e.agentTriggers)
    (hkeyed : e'.triggers.Forall fun id t => t.id = id) (howner : e'.owner = e.owner)
    (hlast : ∀ id, e'.lastFired.lookup id ≠ none →
      e.lastFired.lookup id ≠ none ∨ e.triggers.lookup id ≠ none) : Exact e' where
  keyed := hkeyed
  index := by
    have hlisted : e'.listed = e.listed := by
      unfold TriggerEngine.listed
      rw [hindex]
    rw [hlisted, howner]
    exact h.index
  last id hid := by
    have hstored : e.triggers.lookup id ≠ none := (hlast id hid).elim (h.last id) fun h => h
    have hsame := congrFun howner id
    unfold TriggerEngine.owner at hsame
    intro hnone
    rw [hnone] at hsame
    exact hstored (Option.map_eq_none_iff.mp hsame.symm)

theorem owner_modify (e : TriggerEngine) (id : TriggerId) {f : Trigger → Trigger}
    (hf : ∀ t, (f t).agentId = t.agentId) :
    TriggerEngine.owner { e with triggers := e.triggers.modify id f } = e.owner := by
  funext key
  unfold TriggerEngine.owner
  dsimp only
  by_cases hkey : key = id
  · subst hkey
    rw [Table.lookup_modify_self, Option.map_map]
    exact congrArg (Option.map · _) (funext hf)
  · rw [Table.lookup_modify_ne _ hkey]

theorem exact_setEnabled (h : Exact e) (id : TriggerId) (enabled : Bool) :
    Exact (setEnabled e id enabled).2 :=
  h.inPlace rfl (h.keyed.modify fun _ ht => ht) (owner_modify e id fun _ => rfl)
    fun _ hid => .inl hid

theorem exact_update (h : Exact e) (id : TriggerId) (patch : TriggerPatch) :
    Exact (update e id patch).2 := by
  unfold update
  split
  · rename_i trigger _
    refine h.inPlace rfl (h.keyed.modify fun _ ht => ht) (owner_modify e id fun _ => rfl)
      fun key hkey => .inl ?_
    dsimp only at hkey
    split_ifs at hkey
    · by_cases hid : key = trigger.id
      · subst hid
        exact absurd (AList.lookup_erase _ _) hkey
      · rwa [AList.lookup_erase_ne hid] at hkey
    · exact hkey
  · exact h

theorem exact_remove (h : Exact e) (id : TriggerId) : Exact (remove e id).2 := by
  unfold remove
  split
  · rename_i trigger hlookup
    have howner : e.owner id = some trigger.agentId := by
      unfold TriggerEngine.owner
      rw [hlookup]
      rfl
    refine ⟨h.keyed.erase id, ?_, fun key hkey => ?_⟩
    · have hlisted : TriggerEngine.listed { e.drop id with
          agentTriggers := e.agentTriggers.modify trigger.agentId fun ids => ids.filter (· ≠ id) } =
          Function.update e.listed trigger.agentId
            ((e.listed trigger.agentId).filter fun key => decide (key ≠ id)) := by
        funext a
        unfold TriggerEngine.listed
        dsimp only
        by_cases ha : a = trigger.agentId
        · subst ha
          rw [Function.update_self, Table.lookup_modify_self]
          cases e.agentTriggers.lookup trigger.agentId <;> rfl
        · rw [Function.update_of_ne ha, Table.lookup_modify_ne _ ha]
      have hdropped : TriggerEngine.owner { e.drop id with
          agentTriggers := e.agentTriggers.modify trigger.agentId fun ids => ids.filter (· ≠ id) } =
          Function.update e.owner id none := by
        funext key
        unfold TriggerEngine.owner
        dsimp only
        rw [lookup_drop_eq]
        by_cases hkey : key = id
        · subst hkey
          rw [if_pos rfl, Function.update_self]
          rfl
        · rw [if_neg hkey, Function.update_of_ne hkey]
      rw [hlisted, hdropped]
      exact h.index.drop howner
    · dsimp only at hkey ⊢
      rw [lastFired_drop_eq] at hkey
      rw [lookup_drop_eq]
      split_ifs at hkey ⊢
      · exact absurd rfl hkey
      · exact h.last key hkey
  · exact h

/-! ## All triggers of an agent -/

/-- The triggers with these ids are gone, and what was known of their fires. -/
structure Dropped (e : TriggerEngine) (ids : List TriggerId) (e' : TriggerEngine) : Prop where
  index : e'.agentTriggers = e.agentTriggers
  triggers : ∀ key, e'.triggers.lookup key = if key ∈ ids then none else e.triggers.lookup key
  last : ∀ key, e'.lastFired.lookup key ≠ none →
    e.lastFired.lookup key ≠ none ∧ (key ∈ ids → e.triggers.lookup key = none)

theorem dropped_nil (e : TriggerEngine) : Dropped e [] e :=
  ⟨rfl, fun _ => (if_neg List.not_mem_nil).symm, fun _ hkey => ⟨hkey, fun h => nomatch h⟩⟩

theorem Dropped.cons {ids : List TriggerId} (h : Dropped (e.drop id) ids e') :
    Dropped e (id :: ids) e' where
  index := h.index
  triggers key := by
    rw [h.triggers, lookup_drop_eq]
    by_cases hkey : key = id
    · rw [if_pos hkey, if_pos (List.mem_cons.mpr (.inl hkey))]
      split_ifs <;> rfl
    · rw [if_neg hkey]
      simp only [List.mem_cons, hkey, false_or]
  last key hkey := by
    obtain ⟨hlast, hgone⟩ := h.last key hkey
    rw [lastFired_drop_eq] at hlast
    split_ifs at hlast with hid
    · exact absurd rfl hlast
    · refine ⟨hlast, fun hmem => ?_⟩
      have hnone := hgone ((List.mem_cons.mp hmem).resolve_left hid)
      rwa [lookup_drop_eq, if_neg hid] at hnone

theorem dropped_foldl (ids : List TriggerId) (e : TriggerEngine) :
    Dropped e ids (ids.foldl TriggerEngine.drop e) := by
  induction ids generalizing e with
  | nil => exact dropped_nil e
  | cons id ids ih => exact (ih (e.drop id)).cons

theorem dropped_takeLoop (ids : List TriggerId) (taken : List Trigger) (e : TriggerEngine) :
    Dropped e ids (takeLoop e taken ids).2 := by
  induction ids generalizing e taken with
  | nil => exact dropped_nil e
  | cons id ids ih =>
    unfold takeLoop
    split
    · exact (ih _ _).cons
    · rename_i hnone
      have hrest := ih taken e
      refine ⟨hrest.index, fun key => ?_, fun key hkey => ?_⟩
      · rw [hrest.triggers]
        by_cases hkey : key = id
        · rw [if_pos (List.mem_cons.mpr (.inl hkey)), hkey, hnone]
          split_ifs <;> rfl
        · simp only [List.mem_cons, hkey, false_or]
      · obtain ⟨hlast, hgone⟩ := hrest.last key hkey
        refine ⟨hlast, fun hmem => ?_⟩
        rcases List.mem_cons.mp hmem with rfl | hmem
        · exact hnone
        · exact hgone hmem

/-- **All triggers of an agent are dropped, with its list.** -/
theorem Exact.dropAll (h : Exact e) (agentId : AgentId)
    (hdropped : Dropped { e with agentTriggers := e.agentTriggers.erase agentId }
      (e.listed agentId) e') : Exact e' where
  keyed key t ht := by
    rw [hdropped.triggers] at ht
    split_ifs at ht
    exact h.keyed key t ht
  index := by
    have hlisted : e'.listed = Function.update e.listed agentId [] := by
      rw [← listed_erase]
      unfold TriggerEngine.listed
      rw [hdropped.index]
    have howner : e'.owner =
        fun key => if e.owner key = some agentId then none else e.owner key := by
      funext key
      have hids : key ∈ e.listed agentId ↔ e.owner key = some agentId := h.index.mem_iff
      unfold TriggerEngine.owner at hids ⊢
      rw [hdropped.triggers]
      by_cases hmem : key ∈ e.listed agentId
      · rw [if_pos hmem, if_pos (hids.mp hmem)]
        rfl
      · rw [if_neg hmem, if_neg fun howner => hmem (hids.mpr howner)]
    rw [hlisted, howner]
    exact h.index.dropAll agentId
  last key hkey := by
    obtain ⟨hlast, hgone⟩ := hdropped.last key hkey
    have hstored := h.last key hlast
    rw [hdropped.triggers, if_neg fun hmem => hstored (hgone hmem)]
    exact hstored

theorem exact_removeAgentTriggers (h : Exact e) (agentId : AgentId) :
    Exact (removeAgentTriggers e agentId) := by
  unfold removeAgentTriggers
  split
  · rename_i ids hids
    refine h.dropAll agentId ?_
    have hlisted : e.listed agentId = ids := by
      unfold TriggerEngine.listed
      rw [hids]
      rfl
    rw [hlisted]
    exact dropped_foldl ids _
  · exact h

theorem exact_takeAgentTriggers (h : Exact e) (agentId : AgentId) :
    Exact (takeAgentTriggers e agentId).2 :=
  h.dropAll agentId (dropped_takeLoop _ _ _)

/-- The loop of `reassign_agent_triggers`. -/
def reassignLoop (newAgentId : AgentId) (ids : List TriggerId) (e : TriggerEngine) :
    TriggerEngine :=
  ids.foldl (fun e id =>
    { e with triggers := e.triggers.modify id fun t => { t with agentId := newAgentId } }) e

theorem reassignLoop_agentTriggers (newAgentId : AgentId) (ids : List TriggerId)
    (e : TriggerEngine) :
    (reassignLoop newAgentId ids e).agentTriggers = e.agentTriggers ∧
      (reassignLoop newAgentId ids e).lastFired = e.lastFired := by
  induction ids generalizing e with
  | nil => exact ⟨rfl, rfl⟩
  | cons id ids ih => exact ih _

theorem lookup_reassignLoop (newAgentId : AgentId) (ids : List TriggerId) (e : TriggerEngine)
    (key : TriggerId) : (reassignLoop newAgentId ids e).triggers.lookup key =
      (e.triggers.lookup key).map fun t =>
        if key ∈ ids then { t with agentId := newAgentId } else t := by
  induction ids generalizing e with
  | nil => exact Option.map_id'.symm
  | cons id ids ih =>
    refine (ih { e with
      triggers := e.triggers.modify id fun t => { t with agentId := newAgentId } }).trans ?_
    dsimp only
    by_cases hkey : key = id
    · subst hkey
      rw [Table.lookup_modify_self, Option.map_map]
      refine congrArg (Option.map · _) (funext fun t => ?_)
      rw [Function.comp_apply, if_pos List.mem_cons_self]
      split_ifs <;> rfl
    · rw [Table.lookup_modify_ne _ hkey]
      simp only [List.mem_cons, hkey, false_or]

theorem exact_reassignAgentTriggers (h : Exact e) (oldAgentId newAgentId : AgentId) :
    Exact (reassignAgentTriggers e oldAgentId newAgentId).2 := by
  let ids := e.listed oldAgentId
  let erased : TriggerEngine := { e with agentTriggers := e.agentTriggers.erase oldAgentId }
  let moved := reassignLoop newAgentId ids erased
  have hengine : (reassignAgentTriggers e oldAgentId newAgentId).2 =
      if ids.isEmpty then moved else moved.onIndex newAgentId (· ++ ids) := rfl
  have hmoved := reassignLoop_agentTriggers newAgentId ids erased
  have hlookup := lookup_reassignLoop newAgentId ids erased
  have hlisted : moved.listed = Function.update e.listed oldAgentId [] := by
    rw [← listed_erase]
    unfold TriggerEngine.listed
    rw [hmoved.1]
  have howner : moved.owner =
      fun key => if e.owner key = some oldAgentId then some newAgentId else e.owner key := by
    funext key
    have hids : key ∈ ids ↔ e.owner key = some oldAgentId := h.index.mem_iff
    unfold TriggerEngine.owner at hids ⊢
    rw [hlookup, Option.map_map]
    by_cases hmem : key ∈ ids
    · rw [if_pos (hids.mp hmem)]
      obtain ⟨t, ht, -⟩ := Option.map_eq_some_iff.mp (hids.mp hmem)
      have ht' : erased.triggers.lookup key = some t := ht
      rw [ht', Option.map_some, Function.comp_apply, if_pos hmem]
    · rw [if_neg fun howner => hmem (hids.mpr howner)]
      refine congrArg (Option.map · _) (funext fun t => ?_)
      rw [Function.comp_apply, if_neg hmem]
  have hkeyed : moved.triggers.Forall fun id t => t.id = id := by
    intro key t ht
    rw [hlookup] at ht
    obtain ⟨t', ht', rfl⟩ := Option.map_eq_some_iff.mp ht
    have hid : t'.id = key := h.keyed key t' ht'
    split_ifs <;> exact hid
  have hlast : ∀ key, moved.lastFired.lookup key ≠ none → moved.triggers.lookup key ≠ none := by
    intro key hkey hnone
    rw [hmoved.2] at hkey
    rw [hlookup, Option.map_eq_none_iff] at hnone
    exact h.last key hkey hnone
  have hmove := h.index.move oldAgentId newAgentId
  rw [hengine]
  split_ifs with hempty
  · refine ⟨hkeyed, ?_, hlast⟩
    have hnil : e.listed oldAgentId = [] := List.isEmpty_iff.mp hempty
    rw [hnil, List.append_nil, Function.update_eq_self] at hmove
    rwa [hlisted, howner]
  · refine ⟨hkeyed, ?_, hlast⟩
    have hsame : (moved.onIndex newAgentId (· ++ ids)).owner = moved.owner := rfl
    rwa [hsame, listed_onIndex, hlisted, howner]

/-! ## Restoring, evaluating, loading -/

theorem exact_restoreTriggers (newAgentId : AgentId) (picks : List (Trigger × TriggerId))
    (h : Exact e) (hapart : (picks.map (·.2)).Nodup)
    (hfresh : ∀ pick ∈ picks, e.triggers.lookup pick.2 = none) :
    Exact (restoreTriggers e newAgentId picks) := by
  induction picks generalizing e with
  | nil => exact h
  | cons pick picks ih =>
    rw [List.map_cons, List.nodup_cons] at hapart
    have hpush := @Exact.push e { pick.1 with id := pick.2, agentId := newAgentId } h
      (hfresh pick List.mem_cons_self)
    refine ih hpush hapart.2 fun pick' hpick' => ?_
    have hne : pick'.2 ≠ pick.2 := fun heq => hapart.1 (heq ▸ List.mem_map_of_mem hpick')
    exact (AList.lookup_insert_ne hne).trans (hfresh pick' (List.mem_cons_of_mem _ hpick'))

theorem exact_evaluateLoop (host : Host) (event : Event) (now : Time)
    (resolveName : AgentId → Option String) (ids : List TriggerId) (ev : Evaluation)
    (h : Exact ev.engine) : Exact (evaluateLoop host event now resolveName ev ids).engine := by
  induction ids generalizing ev with
  | nil => exact h
  | cons id ids ih =>
    unfold evaluateLoop
    split
    · exact ih ev h
    · rename_i t hlookup
      split_ifs
      · exact ih _ (h.inPlace rfl (h.keyed.modify fun _ ht => ht) (owner_modify _ id fun _ => rfl)
          fun _ hid => .inl hid)
      · exact ih ev h
      · exact h
      · refine ih _ (h.inPlace rfl (h.keyed.modify fun _ ht => ht)
          (owner_modify _ id fun _ => rfl) fun key hkey => ?_)
        by_cases hid : key = t.id
        · refine .inr fun hnone => ?_
          rw [hid, h.keyed id t hlookup, hlookup] at hnone
          cases hnone
        · exact .inl fun hnone => hkey ((AList.lookup_insert_ne hid).trans hnone)
      · exact ih ev h
      · exact ih ev h

/-- The file gives every id one agent, and keeps the agent of an id that is stored. -/
def KeepsAgents (e : TriggerEngine) (file : List Trigger) : Prop :=
  (∀ t ∈ file, ∀ t', e.triggers.lookup t.id = some t' → t'.agentId = t.agentId) ∧
    ∀ t ∈ file, ∀ t' ∈ file, t.id = t'.id → t.agentId = t'.agentId

theorem listed_loadTrigger (e : TriggerEngine) (t : Trigger) :
    (loadTrigger e t).listed = Function.update e.listed t.agentId
      (if t.id ∈ e.listed t.agentId then e.listed t.agentId
        else e.listed t.agentId ++ [t.id]) := by
  unfold loadTrigger
  dsimp only
  rw [listed_onIndex]
  split <;> rfl

theorem owner_loadTrigger (e : TriggerEngine) (t : Trigger) :
    (loadTrigger e t).owner = Function.update e.owner t.id (some t.agentId) := by
  unfold loadTrigger
  dsimp only
  split
  · exact owner_store _ t
  · exact owner_store _ t

theorem exact_loadTrigger (h : Exact e)
    (hkeeps : ∀ t', e.triggers.lookup t.id = some t' → t'.agentId = t.agentId) :
    Exact (loadTrigger e t) where
  keyed := by
    intro key t' ht'
    obtain ⟨rfl, rfl⟩ | ⟨-, hold⟩ := lookup_loadTrigger ht'
    · rfl
    · exact h.keyed key t' hold
  index := by
    rw [listed_loadTrigger, owner_loadTrigger]
    cases hlookup : e.triggers.lookup t.id with
    | none =>
      have hnone : e.owner t.id = none := by
        unfold TriggerEngine.owner
        rw [hlookup]
        rfl
      rw [if_neg fun hmem => nomatch hnone.symm.trans (h.index.mem_iff.mp hmem)]
      exact h.index.push t.agentId hnone
    | some t' =>
      have hsome : e.owner t.id = some t.agentId := by
        unfold TriggerEngine.owner
        rw [hlookup, ← hkeeps t' hlookup]
        rfl
      rw [if_pos (h.index.mem_iff.mpr hsome), ← hsome, Function.update_eq_self,
        Function.update_eq_self]
      exact h.index
  last key hkey hnone := by
    have hid : key ≠ t.id := by
      rintro rfl
      have hsome : (loadTrigger e t).owner t.id = some t.agentId := by
        rw [owner_loadTrigger, Function.update_self]
      unfold TriggerEngine.owner at hsome
      rw [hnone] at hsome
      cases hsome
    rw [lastFired_loadTrigger_ne hid] at hkey
    have hsame : (loadTrigger e t).owner key = e.owner key := by
      rw [owner_loadTrigger, Function.update_of_ne hid]
    unfold TriggerEngine.owner at hsame
    rw [hnone] at hsame
    exact h.last key hkey (Option.map_eq_none_iff.mp hsame.symm)

theorem listed_load (file : List Trigger) (e : TriggerEngine) :
    (∀ agentId id, id ∈ e.listed agentId → id ∈ (load e file).listed agentId) ∧
      ∀ t ∈ file, t.id ∈ (load e file).listed t.agentId := by
  induction file generalizing e with
  | nil => exact ⟨fun _ _ h => h, fun t ht => absurd ht List.not_mem_nil⟩
  | cons t file ih =>
    obtain ⟨hstays, hloaded⟩ := ih (loadTrigger e t)
    have hlisted := listed_loadTrigger e t
    constructor
    · intro agentId id hmem
      refine hstays agentId id ?_
      rw [hlisted]
      by_cases ha : agentId = t.agentId
      · subst ha
        rw [Function.update_self]
        split_ifs
        · exact hmem
        · exact List.mem_append_left _ hmem
      · rwa [Function.update_of_ne ha]
    · intro t' ht'
      rcases List.mem_cons.mp ht' with rfl | ht'
      · refine hstays _ _ ?_
        rw [hlisted, Function.update_self]
        split_ifs with hmem
        · exact hmem
        · exact List.mem_append_right _ List.mem_cons_self
      · exact hloaded t' ht'

/-- **Loading a file keeps the index exact exactly if the file keeps the agents of its ids.** -/
theorem exact_load_iff (h : Exact e) (file : List Trigger) :
    Exact (load e file) ↔ KeepsAgents e file := by
  constructor
  · intro hexact
    obtain ⟨hstays, hloaded⟩ := listed_load file e
    have howner (t : Trigger) (ht : t ∈ file) :
        (load e file).owner t.id = some t.agentId := hexact.index.mem_iff.mp (hloaded t ht)
    refine ⟨fun t ht t' ht' => ?_, fun t ht t' ht' hid => ?_⟩
    · have hlisted : t.id ∈ e.listed t'.agentId := h.index.mem_iff.mpr (by
        unfold TriggerEngine.owner
        rw [ht']
        rfl)
      have hold := hexact.index.mem_iff.mp (hstays _ _ hlisted)
      exact Option.some.inj (hold.symm.trans (howner t ht))
    · have hold := howner t ht
      rw [hid] at hold
      exact Option.some.inj (hold.symm.trans (howner t' ht'))
  · intro hkeeps
    induction file generalizing e with
    | nil => exact h
    | cons t file ih =>
      obtain ⟨hstored, hfile⟩ := hkeeps
      refine ih (exact_loadTrigger h (hstored t List.mem_cons_self)) ⟨fun t' ht' t'' hlookup => ?_,
        fun t' ht' t'' ht'' => hfile t' (List.mem_cons_of_mem _ ht') t''
          (List.mem_cons_of_mem _ ht'')⟩
      obtain ⟨rfl, hid⟩ | ⟨-, hold⟩ := lookup_loadTrigger hlookup
      · exact (hfile t' (List.mem_cons_of_mem _ ht') t'' List.mem_cons_self hid).symm
      · exact hstored t' (List.mem_cons_of_mem _ ht') t'' hold

/-! ## Runs -/

/-- An operation on the engine. -/
inductive Change
  | registerWithTarget (id : TriggerId) (now : Time) (agentId : AgentId) (pattern : TriggerPattern)
      (promptTemplate : String) (maxFires : UInt64) (targetAgent : Option AgentId)
      (cooldownSecs : Option ℕ) (sessionMode : Option SessionMode)
  | remove (id : TriggerId)
  | removeAgentTriggers (agentId : AgentId)
  | takeAgentTriggers (agentId : AgentId)
  | restoreTriggers (newAgentId : AgentId) (picks : List (Trigger × TriggerId))
  | reassignAgentTriggers (oldAgentId newAgentId : AgentId)
  | setEnabled (id : TriggerId) (enabled : Bool)
  | update (id : TriggerId) (patch : TriggerPatch)
  | evaluate (event : Event) (now : Time) (resolveName : AgentId → Option String)
  | load (file : List Trigger)

variable (host : Host)

/-- The engine after an operation. -/
def change (e : TriggerEngine) : Change → TriggerEngine
  | .registerWithTarget id now agentId pattern promptTemplate maxFires targetAgent cooldownSecs
      sessionMode =>
    registerWithTarget e id now agentId pattern promptTemplate maxFires targetAgent cooldownSecs
      sessionMode
  | .remove id => (remove e id).2
  | .removeAgentTriggers agentId => removeAgentTriggers e agentId
  | .takeAgentTriggers agentId => (takeAgentTriggers e agentId).2
  | .restoreTriggers newAgentId picks => restoreTriggers e newAgentId picks
  | .reassignAgentTriggers oldAgentId newAgentId =>
    (reassignAgentTriggers e oldAgentId newAgentId).2
  | .setEnabled id enabled => (setEnabled e id enabled).2
  | .update id patch => (update e id patch).2
  | .evaluate event now resolveName => (evaluateWithResolver host e event now resolveName).engine
  | .load file => load e file

/-- New ids are not in use. -/
def Fresh (e : TriggerEngine) : Change → Prop
  | .registerWithTarget id .. => e.triggers.lookup id = none
  | .restoreTriggers _ picks =>
    (picks.map (·.2)).Nodup ∧ ∀ pick ∈ picks, e.triggers.lookup pick.2 = none
  | _ => True

/-- A file that is loaded keeps the agents of its ids. -/
def LoadsInPlace (e : TriggerEngine) : Change → Prop
  | .load file => KeepsAgents e file
  | _ => True

theorem exact_change_iff (h : Exact e) (c : Change) (hfresh : Fresh e c) :
    Exact (change host e c) ↔ LoadsInPlace e c := by
  cases c with
  | registerWithTarget => exact iff_of_true (h.push hfresh) trivial
  | remove id => exact iff_of_true (exact_remove h id) trivial
  | removeAgentTriggers agentId => exact iff_of_true (exact_removeAgentTriggers h agentId) trivial
  | takeAgentTriggers agentId => exact iff_of_true (exact_takeAgentTriggers h agentId) trivial
  | restoreTriggers newAgentId picks =>
    exact iff_of_true (exact_restoreTriggers newAgentId picks h hfresh.1 hfresh.2) trivial
  | reassignAgentTriggers oldAgentId newAgentId =>
    exact iff_of_true (exact_reassignAgentTriggers h oldAgentId newAgentId) trivial
  | setEnabled id enabled => exact iff_of_true (exact_setEnabled h id enabled) trivial
  | update id patch => exact iff_of_true (exact_update h id patch) trivial
  | evaluate event now resolveName =>
    exact iff_of_true (exact_evaluateLoop host event now resolveName _ _ h) trivial
  | load file => exact exact_load_iff h file

theorem exact_withConfig (config : TriggersConfig) : Exact (.withConfig config) where
  keyed := by
    intro key t ht
    cases ht
  index := fun _ _ => rfl
  last := fun _ hkey => absurd rfl hkey

/-- **The index of the triggers is exact in every state of a run** exactly if every file that is
loaded gives each of its ids one agent, the one under which the id is stored if it is stored. -/
theorem exact_iff_loadsInPlace (config : TriggersConfig) (cs : List Change)
    (hfresh : Along (change host) Fresh (.withConfig config) cs) :
    (∀ bs ds, cs = bs ++ ds → Exact (after (change host) (.withConfig config) bs)) ↔
      Along (change host) LoadsInPlace (.withConfig config) cs :=
  along_iff (I := Exact) (fun _ c h hc => exact_change_iff host h c hc) (exact_withConfig config)
    hfresh

/-- A trigger is registered and the file is written; then the trigger goes to another agent. -/
def reassignedChanges : List Change :=
  [.registerWithTarget 1 0 "a" .all "Go on" 0 none none none, .reassignAgentTriggers "a" "b"]

/-- The file written between the two. -/
def writtenFile : List Trigger :=
  persisted (registerWithTarget (.withConfig ⟨10, 5⟩) 1 0 "a" .all "Go on" 0 none none none)

theorem exact_iff_loadsInPlace_reassigned :
    (∀ bs ds, reassignedChanges ++ [.load writtenFile] = bs ++ ds →
        Exact (after (change ⟨String.toLower⟩) (.withConfig ⟨10, 5⟩) bs)) ↔
      Along (change ⟨String.toLower⟩) LoadsInPlace (.withConfig ⟨10, 5⟩)
        (reassignedChanges ++ [.load writtenFile]) :=
  exact_iff_loadsInPlace ⟨String.toLower⟩ ⟨10, 5⟩ _ ⟨rfl, trivial, trivial, trivial⟩

/-- After the file is loaded the id is listed under both agents. -/
theorem reassigned_load_not_exact :
    ¬ Exact (after (change ⟨String.toLower⟩) (.withConfig ⟨10, 5⟩)
      (reassignedChanges ++ [.load writtenFile])) := by
  intro hexact
  have hstale := hexact.index "b" 1
  revert hstale
  decide +kernel

end LibreFang.Triggers
