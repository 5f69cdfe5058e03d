import Mathlib.Tactic.SplitIfs
import LibreFang.Lib.Claims
import LibreFang.Lib.Runs
import LibreFang.Lib.Table

/-!
# The registry of the agents

Three concurrent maps, and calls that change them entry by entry.

* `AgentEntry`, `AgentRegistry`: the agents, the index of their names and the index of their tags.
* `Pending`: what a call of `register`, `remove` or `update_name` does next; `Pending.step`: its next
  step, which takes the lock of one entry of one map.
* **`exact_of_apart`**: in every interleaving along `Apart`, the indexes are exact when all calls
  have returned.
-/

namespace LibreFang.Registry

/-- `AgentId`, by its text. -/
abbrev AgentId := String

/-- `AgentEntry`, the parts that the indexes are about. -/
structure AgentEntry where
  id : AgentId
  name : String
  manifestName : String
  tags : List String
  deriving DecidableEq, Repr

/-- The errors of the registry. -/
inductive RegistryError
  | agentAlreadyExists (name : String)
  | agentNotFound (id : AgentId)
  deriving DecidableEq, Repr

/-- `AgentRegistry`. -/
structure AgentRegistry where
  agents : Table AgentId AgentEntry
  nameIndex : Table String AgentId
  tagIndex : Table String (List AgentId)

/-- `AgentRegistry::new`. -/
def AgentRegistry.new : AgentRegistry := ⟨∅, ∅, ∅⟩

/-- The agents that are listed with a tag. -/
def AgentRegistry.listed (r : AgentRegistry) (tag : String) : List AgentId :=
  (r.tagIndex.lookup tag).getD []

/-! ## Calls -/

/-- What a call does next. -/
inductive Pending
  /-- `register`: put the name into its index -/
  | claimName (entry : AgentEntry)
  /-- `register`: push the id to the list of the next tag, or store the entry -/
  | pushTag (entry : AgentEntry) (next : ℕ)
  /-- `remove`: take the entry out -/
  | take (id : AgentId)
  /-- `remove`: take its name out of the index -/
  | dropName (id : AgentId) (entry : AgentEntry)
  /-- `remove`: take the id out of the list of the next tag -/
  | dropTag (id : AgentId) (entry : AgentEntry) (left : List String)
  /-- `update_name`: put the new name into its index -/
  | reserve (id : AgentId) (newName : String)
  /-- `update_name`: rename the entry -/
  | rename (id : AgentId) (newName : String)
  /-- `update_name`: take the new name out again, the entry being gone -/
  | rollBack (id : AgentId) (newName : String)
  /-- `update_name`: take the old name out of the index -/
  | release (id : AgentId) (oldName : String)
  /-- nothing, having returned -/
  | returned (result : Except RegistryError (Option AgentEntry))
  deriving DecidableEq

/-- The next step of a call: the maps after it, and what the call does then. -/
def Pending.step (r : AgentRegistry) : Pending → AgentRegistry × Pending
  | .claimName entry =>
    match r.nameIndex.lookup entry.name with
    | some _ => (r, .returned (.error (.agentAlreadyExists entry.name)))
    | none => ({ r with nameIndex := r.nameIndex.insert entry.name entry.id }, .pushTag entry 0)
  | .pushTag entry next =>
    match entry.tags[next]? with
    | some tag =>
      ({ r with tagIndex := r.tagIndex.insert tag (r.listed tag ++ [entry.id]) },
        .pushTag entry (next + 1))
    | none => ({ r with agents := r.agents.insert entry.id entry }, .returned (.ok none))
  | .take id =>
    match r.agents.lookup id with
    | some entry => ({ r with agents := r.agents.erase id }, .dropName id entry)
    | none => (r, .returned (.error (.agentNotFound id)))
  | .dropName id entry =>
    ({ r with nameIndex := r.nameIndex.erase entry.name }, .dropTag id entry entry.tags)
  | .dropTag _ entry [] => (r, .returned (.ok (some entry)))
  | .dropTag id entry (tag :: left) =>
    ({ r with tagIndex := r.tagIndex.modify tag fun ids => ids.filter (· ≠ id) },
      .dropTag id entry left)
  | .reserve id newName =>
    match r.nameIndex.lookup newName with
    | some _ => (r, .returned (.error (.agentAlreadyExists newName)))
    | none => ({ r with nameIndex := r.nameIndex.insert newName id }, .rename id newName)
  | .rename id newName =>
    match r.agents.lookup id with
    | some entry =>
      let renamed := { entry with name := newName, manifestName := newName }
      ({ r with agents := r.agents.insert id renamed }, .release id entry.name)
    | none => (r, .rollBack id newName)
  | .rollBack id newName =>
    ({ r with nameIndex := r.nameIndex.erase newName },
      .returned (.error (.agentNotFound id)))
  | .release _ oldName =>
    ({ r with nameIndex := r.nameIndex.erase oldName }, .returned (.ok none))
  | .returned result => (r, .returned result)

/-! ## Runs -/

/-- The registry, and the calls that have begun. -/
structure World where
  registry : AgentRegistry
  calls : List Pending

/-- A call of the registry. -/
inductive Call
  | register (entry : AgentEntry)
  | remove (id : AgentId)
  | updateName (id : AgentId) (newName : String)

/-- What a call does first. -/
def Call.first : Call → Pending
  | .register entry => .claimName entry
  | .remove id => .take id
  | .updateName id newName => .reserve id newName

/-- What can happen: a call begins, or one of those that have begun takes its next step. -/
inductive Event
  | begin (call : Call)
  | step (i : ℕ)

/-- The world after an event. -/
def World.handle (w : World) : Event → World
  | .begin call => { w with calls := w.calls ++ [call.first] }
  | .step i =>
    match w.calls[i]? with
    | some p => ⟨(p.step w.registry).1, w.calls.set i (p.step w.registry).2⟩
    | none => w

/-- No agents and no calls. -/
def World.new : World := ⟨.new, []⟩

/-- All calls have returned. -/
def World.Quiet (w : World) : Prop := ∀ p ∈ w.calls, ∃ result, p = .returned result

end LibreFang.Registry

namespace LibreFang.Registry

open Claims Runs

/-- The entry stored for an agent has the name. -/
def AgentRegistry.named (r : AgentRegistry) (name : String) (id : AgentId) : Bool :=
  (r.agents.lookup id).any fun entry => decide (entry.name = name)

/-- The entry stored for an agent has the tag. -/
def AgentRegistry.tagged (r : AgentRegistry) (tag : String) (id : AgentId) : Bool :=
  (r.agents.lookup id).any fun entry => decide (tag ∈ entry.tags)

/-- The indexes are exact: a name leads to the agent that has it, no two agents have the same name,
and an agent is listed once with each of its tags. -/
structure Exact (r : AgentRegistry) : Prop where
  names : ∀ name id, r.nameIndex.lookup name = some id ↔ r.named name id = true
  apart : ∀ name id id', r.named name id = true → r.named name id' = true → id = id'
  tags : ∀ tag id, (r.listed tag).count id = if r.tagged tag id then 1 else 0

/-! ## Claims -/

/-- The call has put the name into the index for the id, or has still to take it out. -/
def Pending.claimsName (k : String × AgentId) : Pending → Bool
  | .pushTag entry _ => decide (k = (entry.name, entry.id))
  | .dropName id entry => decide (k = (entry.name, id))
  | .rename id newName => decide (k = (newName, id))
  | .rollBack id newName => decide (k = (newName, id))
  | .release id oldName => decide (k = (oldName, id))
  | _ => false

/-- The call has put the id into the list of the tag, or has still to take it out. -/
def Pending.claimsTag (k : String × AgentId) : Pending → Bool
  | .pushTag entry next => decide (k.2 = entry.id ∧ k.1 ∈ entry.tags.take next)
  | .dropName id entry => decide (k.2 = id ∧ k.1 ∈ entry.tags)
  | .dropTag id _ left => decide (k.2 = id ∧ k.1 ∈ left)
  | _ => false

/-- The tags that the call has still to deal with, or has dealt with, are different ones. -/
def Pending.Proper : Pending → Prop
  | .pushTag entry next => (entry.tags.take next).Nodup
  | .dropName _ entry => entry.tags.Nodup
  | .dropTag _ _ left => left.Nodup
  | _ => True

/-- The entries in the index of the names. -/
def AgentRegistry.namesListed (r : AgentRegistry) (k : String × AgentId) : ℕ :=
  (decide (r.nameIndex.lookup k.1 = some k.2)).toNat

/-- The entries in the lists of the tags. -/
def AgentRegistry.tagsListed (r : AgentRegistry) (k : String × AgentId) : ℕ :=
  (r.listed k.1).count k.2

/-- Everything is listed once, for an entry or for a call that has not finished. -/
structure Coherent (w : World) : Prop where
  names : Balanced (fun k => (w.registry.named k.1 k.2).toNat) (fun p k => p.claimsName k) w.calls
    w.registry.namesListed
  tags : Balanced (fun k => (w.registry.tagged k.1 k.2).toNat) (fun p k => p.claimsTag k) w.calls
    w.registry.tagsListed
  single : ∀ k, w.registry.tagsListed k ≤ 1
  proper : ∀ p ∈ w.calls, p.Proper
  stored : ∀ id entry, w.registry.agents.lookup id = some entry → entry.tags.Nodup

/-- An id that is pushed to the list of a tag is not yet in it, and an entry that is stored replaces
no other one. -/
def Pending.Apart (r : AgentRegistry) : Pending → Prop
  | .pushTag entry next =>
    match entry.tags[next]? with
    | some tag => entry.id ∉ r.listed tag
    | none => r.agents.lookup entry.id = none
  | _ => True

/-- The step of a call is of this kind. -/
def Apart (w : World) : Event → Prop
  | .begin _ => True
  | .step i => ∀ p, w.calls[i]? = some p → p.Apart w.registry

instance Pending.decidableApart (r : AgentRegistry) : ∀ p : Pending, Decidable (p.Apart r)
  | .pushTag entry next =>
    match h : entry.tags[next]? with
    | some tag => decidable_of_iff (entry.id ∉ r.listed tag) (by simp [Pending.Apart, h])
    | none => decidable_of_iff (r.agents.lookup entry.id = none) (by simp [Pending.Apart, h])
  | .claimName _ | .take _ | .dropName _ _ | .dropTag _ _ _ | .reserve _ _ | .rename _ _
  | .rollBack _ _ | .release _ _ | .returned _ => isTrue trivial

instance (w : World) : ∀ e : Event, Decidable (Apart w e)
  | .begin _ => isTrue trivial
  | .step i => decidable_of_iff (∀ p ∈ w.calls[i]?, p.Apart w.registry) Iff.rfl

/-! ## One step -/

/-- What a step of one call has to keep. -/
structure Pending.Keeps (r : AgentRegistry) (p : Pending) (r' : AgentRegistry) (p' : Pending) :
    Prop where
  names : ∀ k : String × AgentId,
    (r'.named k.1 k.2).toNat + (p'.claimsName k).toNat + r.namesListed k =
      (r.named k.1 k.2).toNat + (p.claimsName k).toNat + r'.namesListed k
  tags : ∀ k : String × AgentId,
    (r'.tagged k.1 k.2).toNat + (p'.claimsTag k).toNat + r.tagsListed k =
      (r.tagged k.1 k.2).toNat + (p.claimsTag k).toNat + r'.tagsListed k
  single : ∀ k, r'.tagsListed k ≤ 1
  proper : p'.Proper
  stored : ∀ id entry, r'.agents.lookup id = some entry → entry.tags.Nodup

theorem Coherent.step {w : World} (h : Coherent w) {i : ℕ} {p p' : Pending} {r' : AgentRegistry}
    (hi : w.calls[i]? = some p) (hkeeps : p.Keeps w.registry r' p') :
    Coherent ⟨r', w.calls.set i p'⟩ where
  names := h.names.step hi hkeeps.names
  tags := h.tags.step hi hkeeps.tags
  single := hkeeps.single
  proper q hq := by
    rcases List.mem_or_eq_of_mem_set hq with hq | rfl
    · exact h.proper q hq
    · exact hkeeps.proper
  stored := hkeeps.stored

/-! ### The maps -/

section Maps

variable {r : AgentRegistry} {id : AgentId} {entry : AgentEntry} {name tag : String}

/-- One if the pair is this one. -/
def one (k k' : String × AgentId) : ℕ := (decide (k = k')).toNat

theorem one_self (k : String × AgentId) : one k k = 1 := by
  unfold one
  rw [decide_eq_true rfl]
  rfl

theorem one_of_ne {k k' : String × AgentId} (h : k ≠ k') : one k k' = 0 := by
  unfold one
  rw [decide_eq_false h]
  rfl

theorem namesListed_insert (h : r.nameIndex.lookup name = none) (id : AgentId)
    (k : String × AgentId) :
    AgentRegistry.namesListed { r with nameIndex := r.nameIndex.insert name id } k =
      r.namesListed k + one k (name, id) := by
  obtain ⟨name', id'⟩ := k
  unfold AgentRegistry.namesListed
  dsimp only
  by_cases hname : name' = name
  · subst hname
    rw [AList.lookup_insert, h]
    by_cases hid : id' = id
    · subst hid
      rw [one_self]
      simp
    · rw [one_of_ne fun heq => hid (congrArg Prod.snd heq)]
      simp [Ne.symm hid]
  · rw [AList.lookup_insert_ne hname, one_of_ne fun heq => hname (congrArg Prod.fst heq),
      Nat.add_zero]

theorem namesListed_erase (h : r.nameIndex.lookup name = some id) (k : String × AgentId) :
    AgentRegistry.namesListed { r with nameIndex := r.nameIndex.erase name } k + one k (name, id) =
      r.namesListed k := by
  obtain ⟨name', id'⟩ := k
  unfold AgentRegistry.namesListed
  dsimp only
  by_cases hname : name' = name
  · subst hname
    rw [AList.lookup_erase, h]
    by_cases hid : id' = id
    · subst hid
      rw [one_self]
      simp
    · rw [one_of_ne fun heq => hid (congrArg Prod.snd heq)]
      simp [Ne.symm hid]
  · rw [AList.lookup_erase_ne hname, one_of_ne fun heq => hname (congrArg Prod.fst heq),
      Nat.add_zero]

theorem namesListed_le (k : String × AgentId) : r.namesListed k ≤ 1 := Bool.toNat_le _

theorem lookup_of_namesListed (h : r.namesListed (name, id) = 1) :
    r.nameIndex.lookup name = some id := by
  unfold AgentRegistry.namesListed at h
  by_contra hne
  rw [decide_eq_false hne] at h
  cases h

theorem tagsListed_push (r : AgentRegistry) (tag : String) (id : AgentId) (k : String × AgentId) :
    AgentRegistry.tagsListed
        { r with tagIndex := r.tagIndex.insert tag (r.listed tag ++ [id]) } k =
      r.tagsListed k + one k (tag, id) := by
  obtain ⟨tag', id'⟩ := k
  unfold AgentRegistry.tagsListed
  dsimp only
  by_cases htag : tag' = tag
  · subst htag
    have hlisted : AgentRegistry.listed
        { r with tagIndex := r.tagIndex.insert tag' (r.listed tag' ++ [id]) } tag' =
        r.listed tag' ++ [id] := by
      unfold AgentRegistry.listed
      rw [AList.lookup_insert]
      rfl
    rw [hlisted, List.count_append]
    by_cases hid : id' = id
    · subst hid
      rw [one_self, List.count_singleton_self]
    · rw [one_of_ne fun heq => hid (congrArg Prod.snd heq),
        List.count_eq_zero_of_not_mem fun hmem => hid (List.mem_singleton.mp hmem)]
  · rw [one_of_ne fun heq => htag (congrArg Prod.fst heq), Nat.add_zero]
    unfold AgentRegistry.listed
    rw [AList.lookup_insert_ne htag]

theorem tagsListed_retain (h : r.tagsListed (tag, id) = 1) (k : String × AgentId) :
    AgentRegistry.tagsListed
          { r with tagIndex := r.tagIndex.modify tag fun ids => ids.filter (· ≠ id) } k +
        one k (tag, id) =
      r.tagsListed k := by
  obtain ⟨tag', id'⟩ := k
  unfold AgentRegistry.tagsListed at h ⊢
  dsimp only at h ⊢
  by_cases htag : tag' = tag
  · subst htag
    have hlisted : AgentRegistry.listed
        { r with tagIndex := r.tagIndex.modify tag' fun ids => ids.filter (· ≠ id) } tag' =
        (r.listed tag').filter (· ≠ id) := by
      unfold AgentRegistry.listed
      rw [Table.lookup_modify_self]
      cases r.tagIndex.lookup tag' <;> rfl
    rw [hlisted]
    by_cases hid : id' = id
    · subst hid
      rw [one_self, h, List.count_eq_zero_of_not_mem]
      exact fun hmem => of_decide_eq_true (List.mem_filter.mp hmem).2 rfl
    · rw [one_of_ne fun heq => hid (congrArg Prod.snd heq), Nat.add_zero]
      exact List.count_filter (decide_eq_true hid)
  · rw [one_of_ne fun heq => htag (congrArg Prod.fst heq), Nat.add_zero]
    unfold AgentRegistry.listed
    rw [Table.lookup_modify_ne _ htag]

theorem named_of_lookup (h : r.agents.lookup id = some entry) (name : String) :
    r.named name id = decide (entry.name = name) := by
  unfold AgentRegistry.named
  rw [h]
  rfl

theorem tagged_of_lookup (h : r.agents.lookup id = some entry) (tag : String) :
    r.tagged tag id = decide (tag ∈ entry.tags) := by
  unfold AgentRegistry.tagged
  rw [h]
  rfl

theorem named_of_none (h : r.agents.lookup id = none) (name : String) :
    r.named name id = false := by
  unfold AgentRegistry.named
  rw [h]
  rfl

theorem tagged_of_none (h : r.agents.lookup id = none) (tag : String) :
    r.tagged tag id = false := by
  unfold AgentRegistry.tagged
  rw [h]
  rfl

theorem named_congr {r' : AgentRegistry} (h : r'.agents.lookup id = r.agents.lookup id) :
    (∀ name, r'.named name id = r.named name id) ∧ ∀ tag, r'.tagged tag id = r.tagged tag id := by
  unfold AgentRegistry.named AgentRegistry.tagged
  rw [h]
  exact ⟨fun _ => rfl, fun _ => rfl⟩

end Maps

/-! ### The steps of the calls -/

section Steps

variable {w : World} {i : ℕ} {id : AgentId} {entry : AgentEntry}

theorem Coherent.idle (h : Coherent w) {p p' : Pending} (hproper : p'.Proper)
    (hnames : ∀ k, p'.claimsName k = p.claimsName k) (htags : ∀ k, p'.claimsTag k = p.claimsTag k) :
    p.Keeps w.registry w.registry p' where
  names k := by rw [hnames]
  tags k := by rw [htags]
  single := h.single
  proper := hproper
  stored := h.stored

theorem Coherent.claimName (h : Coherent w) (hfree : w.registry.nameIndex.lookup entry.name = none) :
    (Pending.claimName entry).Keeps w.registry
      { w.registry with nameIndex := w.registry.nameIndex.insert entry.name entry.id }
      (.pushTag entry 0) where
  names k := by
    have hlisted := namesListed_insert hfree entry.id k
    have hclaim : ((Pending.pushTag entry 0).claimsName k).toNat = one k (entry.name, entry.id) := rfl
    have hnone : ((Pending.claimName entry).claimsName k).toNat = 0 := rfl
    rw [hlisted, hclaim, hnone, Nat.add_zero, Nat.add_right_comm, Nat.add_assoc]
    rfl
  tags k := by
    have hclaim : (Pending.pushTag entry 0).claimsTag k = false :=
      decide_eq_false fun hmem => List.not_mem_nil hmem.2
    rw [hclaim]
    rfl
  single := h.single
  proper := List.nodup_nil
  stored := h.stored

theorem Coherent.pushTag (h : Coherent w) {next : ℕ} {tag : String}
    (hi : w.calls[i]? = some (.pushTag entry next)) (htag : entry.tags[next]? = some tag)
    (hfresh : entry.id ∉ w.registry.listed tag) :
    (Pending.pushTag entry next).Keeps w.registry
      { w.registry with
        tagIndex := w.registry.tagIndex.insert tag (w.registry.listed tag ++ [entry.id]) }
      (.pushTag entry (next + 1)) := by
  have hnot : w.registry.tagsListed (tag, entry.id) = 0 := List.count_eq_zero_of_not_mem hfresh
  have hunclaimed := (h.tags.unclaimed hnot).2 _ (List.mem_of_getElem? hi)
  have hnew : tag ∉ entry.tags.take next := fun hmem =>
    of_decide_eq_false hunclaimed ⟨rfl, hmem⟩
  have htake : entry.tags.take (next + 1) = entry.tags.take next ++ [tag] := by
    rw [List.take_add_one, htag]
    rfl
  refine ⟨fun k => rfl, fun k => ?_, fun k => ?_, ?_, h.stored⟩
  · have hclaim : ((Pending.pushTag entry (next + 1)).claimsTag k).toNat =
        ((Pending.pushTag entry next).claimsTag k).toNat + one k (tag, entry.id) := by
      obtain ⟨tag', id'⟩ := k
      unfold Pending.claimsTag
      dsimp only
      rw [htake]
      by_cases htag' : tag' = tag
      · subst htag'
        by_cases hid : id' = entry.id
        · subst hid
          rw [one_self]
          simp [hnew]
        · rw [one_of_ne fun heq => hid (congrArg Prod.snd heq)]
          simp [hid]
      · rw [one_of_ne fun heq => htag' (congrArg Prod.fst heq)]
        simp [htag']
    have hstored : AgentRegistry.tagged { w.registry with
        tagIndex := w.registry.tagIndex.insert tag (w.registry.listed tag ++ [entry.id]) }
        k.1 k.2 = w.registry.tagged k.1 k.2 := rfl
    rw [tagsListed_push, hclaim, hstored]
    omega
  · rw [tagsListed_push]
    by_cases hk : k = (tag, entry.id)
    · rw [hk, one_self, hnot]
    · rw [one_of_ne hk]
      exact h.single k
  · have hold := h.proper _ (List.mem_of_getElem? hi)
    have hproper : (entry.tags.take (next + 1)).Nodup := by
      rw [htake]
      exact List.nodup_append.mpr ⟨hold, List.nodup_singleton _, fun a ha b hb heq =>
        hnew (List.mem_singleton.mp hb ▸ heq ▸ ha)⟩
    exact hproper

theorem Coherent.store (h : Coherent w) {next : ℕ}
    (hi : w.calls[i]? = some (.pushTag entry next)) (htag : entry.tags[next]? = none)
    (hfresh : w.registry.agents.lookup entry.id = none) :
    (Pending.pushTag entry next).Keeps w.registry
      { w.registry with agents := w.registry.agents.insert entry.id entry }
      (.returned (.ok none)) := by
  have htake : entry.tags.take next = entry.tags :=
    List.take_of_length_le (List.getElem?_eq_none_iff.mp htag)
  have hlookup : (w.registry.agents.insert entry.id entry).lookup entry.id = some entry :=
    AList.lookup_insert _
  have hother {id' : AgentId} (hid : id' ≠ entry.id) := @named_congr w.registry id'
    { w.registry with agents := w.registry.agents.insert entry.id entry }
    (AList.lookup_insert_ne hid)
  refine ⟨fun k => ?_, fun k => ?_, h.single, trivial, fun id' entry' hentry' => ?_⟩
  · obtain ⟨name', id'⟩ := k
    by_cases hid : id' = entry.id
    · subst hid
      rw [named_of_lookup hlookup, named_of_none hfresh]
      unfold Pending.claimsName
      simp [AgentRegistry.namesListed, eq_comm]
    · rw [(hother hid).1]
      unfold Pending.claimsName
      simp [AgentRegistry.namesListed, hid]
  · obtain ⟨tag', id'⟩ := k
    by_cases hid : id' = entry.id
    · subst hid
      rw [tagged_of_lookup hlookup, tagged_of_none hfresh]
      unfold Pending.claimsTag
      dsimp only
      rw [htake]
      simp [AgentRegistry.tagsListed, AgentRegistry.listed]
    · rw [(hother hid).2]
      unfold Pending.claimsTag
      simp [AgentRegistry.tagsListed, AgentRegistry.listed, hid]
  · by_cases hid : id' = entry.id
    · subst hid
      obtain rfl := Option.some.inj (hlookup.symm.trans hentry')
      have hproper : (entry.tags.take next).Nodup := h.proper _ (List.mem_of_getElem? hi)
      rwa [htake] at hproper
    · exact h.stored id' entry' ((AList.lookup_insert_ne hid).symm.trans hentry')

theorem Coherent.take (h : Coherent w) (hlookup : w.registry.agents.lookup id = some entry) :
    (Pending.take id).Keeps w.registry
      { w.registry with agents := w.registry.agents.erase id } (.dropName id entry) := by
  have hgone : (w.registry.agents.erase id).lookup id = none := AList.lookup_erase _ _
  have hother {id' : AgentId} (hid : id' ≠ id) := @named_congr w.registry id'
    { w.registry with agents := w.registry.agents.erase id } (AList.lookup_erase_ne hid)
  refine ⟨fun k => ?_, fun k => ?_, h.single, h.stored id entry hlookup,
    fun id' entry' hentry' => ?_⟩
  · obtain ⟨name', id'⟩ := k
    by_cases hid : id' = id
    · subst hid
      rw [named_of_none hgone, named_of_lookup hlookup]
      unfold Pending.claimsName
      simp [AgentRegistry.namesListed, eq_comm]
    · rw [(hother hid).1]
      unfold Pending.claimsName
      simp [AgentRegistry.namesListed, hid]
  · obtain ⟨tag', id'⟩ := k
    by_cases hid : id' = id
    · subst hid
      rw [tagged_of_none hgone, tagged_of_lookup hlookup]
      unfold Pending.claimsTag
      simp [AgentRegistry.tagsListed, AgentRegistry.listed]
    · rw [(hother hid).2]
      unfold Pending.claimsTag
      simp [AgentRegistry.tagsListed, AgentRegistry.listed, hid]
  · by_cases hid : id' = id
    · rw [hid, hgone] at hentry'
      cases hentry'
    · exact h.stored id' entry' ((AList.lookup_erase_ne hid).symm.trans hentry')

theorem Coherent.dropName (h : Coherent w) {p p' : Pending} {name : String}
    (hi : w.calls[i]? = some p) (hproper : p'.Proper)
    (hnames : ∀ k, (p.claimsName k).toNat = one k (name, id)) (hnone : ∀ k, p'.claimsName k = false)
    (htags : ∀ k, p'.claimsTag k = p.claimsTag k) :
    p.Keeps w.registry { w.registry with nameIndex := w.registry.nameIndex.erase name } p' where
  names k := by
    have hclaim : p.claimsName (name, id) = true := by
      have hone := hnames (name, id)
      rw [one_self] at hone
      cases hp : p.claimsName (name, id) with
      | true => rfl
      | false =>
        rw [hp] at hone
        cases hone
    have hown := h.names.own hi hclaim (namesListed_le _)
    have hlisted := namesListed_erase (lookup_of_namesListed hown.2) k
    have hstored : AgentRegistry.named { w.registry with
        nameIndex := w.registry.nameIndex.erase name } k.1 k.2 = w.registry.named k.1 k.2 := rfl
    dsimp only at hlisted hstored ⊢
    rw [hnames, hnone, hstored, Bool.toNat_false]
    omega
  tags k := by
    rw [htags]
    rfl
  single := h.single
  proper := hproper
  stored := h.stored

theorem Coherent.dropTag (h : Coherent w) {tag : String} {left : List String}
    (hi : w.calls[i]? = some (.dropTag id entry (tag :: left))) :
    (Pending.dropTag id entry (tag :: left)).Keeps w.registry
      { w.registry with
        tagIndex := w.registry.tagIndex.modify tag fun ids => ids.filter (· ≠ id) }
      (.dropTag id entry left) := by
  have hproper : (tag :: left).Nodup := h.proper _ (List.mem_of_getElem? hi)
  rw [List.nodup_cons] at hproper
  have hclaim : (Pending.dropTag id entry (tag :: left)).claimsTag (tag, id) = true :=
    decide_eq_true ⟨rfl, List.mem_cons_self⟩
  have hown := h.tags.own hi hclaim (h.single _)
  have hlisted := tagsListed_retain hown.2
  refine ⟨fun k => rfl, fun k => ?_, fun k => ?_, hproper.2, h.stored⟩
  · have hclaims : ((Pending.dropTag id entry (tag :: left)).claimsTag k).toNat =
        ((Pending.dropTag id entry left).claimsTag k).toNat + one k (tag, id) := by
      obtain ⟨tag', id'⟩ := k
      unfold Pending.claimsTag
      dsimp only
      by_cases htag' : tag' = tag
      · subst htag'
        by_cases hid : id' = id
        · subst hid
          rw [one_self]
          simp [hproper.1]
        · rw [one_of_ne fun heq => hid (congrArg Prod.snd heq)]
          simp [hid]
      · rw [one_of_ne fun heq => htag' (congrArg Prod.fst heq)]
        simp [htag']
    have hstored : AgentRegistry.tagged { w.registry with
        tagIndex := w.registry.tagIndex.modify tag fun ids => ids.filter (· ≠ id) } k.1 k.2 =
        w.registry.tagged k.1 k.2 := rfl
    have hk := hlisted k
    dsimp only at hk hstored ⊢
    rw [hclaims, hstored]
    omega
  · have hk := hlisted k
    have hold := h.single k
    dsimp only at hk ⊢
    omega

theorem Coherent.reserve (h : Coherent w) {newName : String}
    (hfree : w.registry.nameIndex.lookup newName = none) (id : AgentId) :
    (Pending.reserve id newName).Keeps w.registry
      { w.registry with nameIndex := w.registry.nameIndex.insert newName id }
      (.rename id newName) where
  names k := by
    have hlisted := namesListed_insert hfree id k
    have hclaim : ((Pending.rename id newName).claimsName k).toNat = one k (newName, id) := rfl
    have hnone : ((Pending.reserve id newName).claimsName k).toNat = 0 := rfl
    rw [hlisted, hclaim, hnone, Nat.add_zero, Nat.add_right_comm, Nat.add_assoc]
    rfl
  tags k := rfl
  single := h.single
  proper := trivial
  stored := h.stored

theorem Coherent.rename (h : Coherent w) {newName : String} {renamed : AgentEntry}
    (hlookup : w.registry.agents.lookup id = some entry) (hname : renamed.name = newName)
    (htags : renamed.tags = entry.tags) :
    (Pending.rename id newName).Keeps w.registry
      { w.registry with agents := w.registry.agents.insert id renamed }
      (.release id entry.name) := by
  have hnew : (w.registry.agents.insert id renamed).lookup id = some renamed :=
    AList.lookup_insert _
  have hother {id' : AgentId} (hid : id' ≠ id) := @named_congr w.registry id'
    { w.registry with agents := w.registry.agents.insert id renamed } (AList.lookup_insert_ne hid)
  refine ⟨fun k => ?_, fun k => ?_, h.single, trivial, fun id' entry' hentry' => ?_⟩
  · obtain ⟨name', id'⟩ := k
    by_cases hid : id' = id
    · subst hid
      rw [named_of_lookup hnew, named_of_lookup hlookup, hname]
      unfold Pending.claimsName
      simp [AgentRegistry.namesListed, eq_comm]
      omega
    · rw [(hother hid).1]
      unfold Pending.claimsName
      simp [AgentRegistry.namesListed, hid]
  · obtain ⟨tag', id'⟩ := k
    by_cases hid : id' = id
    · subst hid
      rw [tagged_of_lookup hnew, tagged_of_lookup hlookup, htags]
      rfl
    · rw [(hother hid).2]
      rfl
  · by_cases hid : id' = id
    · subst hid
      obtain rfl := Option.some.inj (hnew.symm.trans hentry')
      rw [htags]
      exact h.stored id' entry hlookup
    · exact h.stored id' entry' ((AList.lookup_insert_ne hid).symm.trans hentry')

/-- **A step of a call keeps the indexes coherent.** -/
theorem Coherent.keeps (h : Coherent w) {p : Pending} (hi : w.calls[i]? = some p)
    (hapart : p.Apart w.registry) :
    p.Keeps w.registry (p.step w.registry).1 (p.step w.registry).2 := by
  cases p with
  | claimName entry =>
    dsimp only [Pending.step]
    cases hlookup : w.registry.nameIndex.lookup entry.name with
    | some _ => exact h.idle trivial (fun _ => rfl) fun _ => rfl
    | none => exact h.claimName hlookup
  | pushTag entry next =>
    dsimp only [Pending.Apart] at hapart
    dsimp only [Pending.step]
    cases htag : entry.tags[next]? with
    | some tag =>
      rw [htag] at hapart
      exact h.pushTag hi htag hapart
    | none =>
      rw [htag] at hapart
      exact h.store hi htag hapart
  | take id =>
    dsimp only [Pending.step]
    cases hlookup : w.registry.agents.lookup id with
    | some entry => exact h.take hlookup
    | none => exact h.idle trivial (fun _ => rfl) fun _ => rfl
  | dropName id entry =>
    have hproper : entry.tags.Nodup := h.proper _ (List.mem_of_getElem? hi)
    exact h.dropName hi hproper (fun _ => rfl) (fun _ => rfl) fun _ => rfl
  | dropTag id entry left =>
    cases left with
    | nil =>
      refine h.idle trivial (fun _ => rfl) fun k => ?_
      exact (decide_eq_false fun hmem => List.not_mem_nil hmem.2).symm
    | cons tag left => exact h.dropTag hi
  | reserve id newName =>
    dsimp only [Pending.step]
    cases hlookup : w.registry.nameIndex.lookup newName with
    | some _ => exact h.idle trivial (fun _ => rfl) fun _ => rfl
    | none => exact h.reserve hlookup id
  | rename id newName =>
    dsimp only [Pending.step]
    cases hlookup : w.registry.agents.lookup id with
    | some entry => exact h.rename hlookup rfl rfl
    | none => exact h.idle trivial (fun _ => rfl) fun _ => rfl
  | rollBack id newName => exact h.dropName hi trivial (fun _ => rfl) (fun _ => rfl) fun _ => rfl
  | release id oldName => exact h.dropName hi trivial (fun _ => rfl) (fun _ => rfl) fun _ => rfl
  | returned result => exact h.idle trivial (fun _ => rfl) fun _ => rfl

end Steps

/-! ## Runs -/

theorem coherent_new : Coherent .new where
  names := fun _ => rfl
  tags := fun _ => rfl
  single := fun _ => Nat.zero_le 1
  proper := nofun
  stored := nofun

theorem Coherent.handle {w : World} (h : Coherent w) (e : Event) (hapart : Apart w e) :
    Coherent (w.handle e) := by
  cases e with
  | begin call =>
    have hnone (k : String × AgentId) :
        call.first.claimsName k = false ∧ call.first.claimsTag k = false := by
      cases call <;> exact ⟨rfl, rfl⟩
    refine ⟨h.names.begin fun k => (hnone k).1, h.tags.begin fun k => (hnone k).2, h.single,
      fun p hp => ?_, h.stored⟩
    rcases List.mem_append.mp hp with hp | hp
    · exact h.proper p hp
    · obtain rfl := List.mem_singleton.mp hp
      cases call <;> trivial
  | step i =>
    dsimp only [World.handle]
    cases hi : w.calls[i]? with
    | none => exact h
    | some p => exact h.step hi (h.keeps hi (hapart p hi))

theorem Coherent.exact {w : World} (h : Coherent w) (hquiet : w.Quiet) : Exact w.registry := by
  have hreturned (p : Pending) (hp : p ∈ w.calls) (k : String × AgentId) :
      p.claimsName k = false ∧ p.claimsTag k = false := by
    obtain ⟨result, rfl⟩ := hquiet p hp
    exact ⟨rfl, rfl⟩
  have hnames := h.names.quiet fun p hp k => (hreturned p hp k).1
  have htags := h.tags.quiet fun p hp k => (hreturned p hp k).2
  have hiff (name : String) (id : AgentId) :
      w.registry.nameIndex.lookup name = some id ↔ w.registry.named name id = true := by
    have hname := hnames (name, id)
    unfold AgentRegistry.namesListed at hname
    dsimp only at hname
    cases hnamed : w.registry.named name id with
    | true =>
      rw [hnamed] at hname
      refine iff_of_true ?_ rfl
      by_contra hne
      rw [decide_eq_false hne] at hname
      cases hname
    | false =>
      rw [hnamed] at hname
      refine iff_of_false (fun heq => ?_) Bool.false_ne_true
      rw [decide_eq_true heq] at hname
      cases hname
  refine ⟨hiff, fun name id id' hid hid' => ?_, fun tag id => ?_⟩
  · exact Option.some.inj (((hiff name id).mpr hid).symm.trans ((hiff name id').mpr hid'))
  · have htag := htags (tag, id)
    unfold AgentRegistry.tagsListed at htag
    dsimp only at htag
    rw [htag]
    cases w.registry.tagged tag id <;> rfl

/-- **In every interleaving in which an id that is pushed is not yet listed, and an entry that is
stored replaces none, the indexes are exact when all calls have returned.** -/
theorem exact_of_apart (events : List Event) (hapart : Along World.handle Apart .new events)
    (front rest : List Event) (hevents : events = front ++ rest)
    (hquiet : (after World.handle .new front).Quiet) :
    Exact (after World.handle .new front).registry := by
  subst hevents
  have hfront := ((along_append World.handle).mp hapart).1
  have hcoherent := invariant (I := Coherent) (fun _ e h ha => h.handle e ha) coherent_new hfront
  exact hcoherent.exact hquiet

/-- The registration of an agent under a name. -/
def sampleCall (name : String) (tags : List String) : Call := .register ⟨"id", name, name, tags⟩

/-- The `i`-th call begins, and takes so many steps. -/
def Call.run (call : Call) (i steps : ℕ) : List Event :=
  .begin call :: List.replicate steps (.step i)

theorem exact_of_apart_renamed :
    Exact (after World.handle .new ((sampleCall "coder" ["rust"]).run 0 3 ++
      (Call.updateName "id" "writer").run 1 3)).registry := by
  refine exact_of_apart _ (by decide) _ [] (List.append_nil _).symm fun p hp => ?_
  have hcalls : p ∈ [Pending.returned (.ok none), .returned (.ok none)] := hp
  exact ⟨.ok none, by simpa using hcalls⟩

/-- The entry that is stored in place of another leaves the name of that one in the index. -/
theorem replaced_not_exact :
    ¬ ∀ events, (after World.handle .new events).Quiet →
      Exact (after World.handle .new events).registry := by
  intro hall
  have hexact := hall ((sampleCall "A" []).run 0 2 ++ (sampleCall "B" []).run 1 2) fun p hp => by
    have hcalls : p ∈ [Pending.returned (.ok none), .returned (.ok none)] := hp
    exact ⟨.ok none, by simpa using hcalls⟩
  exact absurd ((hexact.names "A" "id").mp rfl) (by decide)

end LibreFang.Registry
