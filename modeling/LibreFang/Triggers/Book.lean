import LibreFang.Triggers.Engine

/-!
# The book of the triggers

A trigger keeps its identity when it is saved, loaded, or moved to another agent under a new id.

* `Book`: where each trigger comes from, and every fire; `Daemon`: the engine and its book.
* `Op`, `perform`: what happens to a daemon; `Allowed`: ids are fresh, the clock does not go back,
  no pattern changes, and what is restored has been taken.
* **`Sound.inPlace`**: operations that fire nothing and move nothing keep it.
-/

namespace LibreFang.Triggers

variable (host : Host)

/-! ## The book -/

/-- A trigger, by its first id, has fired; its cooldown then, in seconds. -/
structure Fire where
  trigger : TriggerId
  time : Time
  cooldown : ℕ
  deriving DecidableEq, Repr

/-- What has become of the triggers. -/
structure Book where
  /-- Triggers that were taken and not restored yet. -/
  held : List Trigger
  /-- The last reading of the clock. -/
  clock : Time
  /-- Every id drawn so far. -/
  issued : List TriggerId
  /-- The id under which a trigger was registered. -/
  origin : TriggerId → TriggerId
  /-- The trigger has been restored and has not fired since. -/
  moved : TriggerId → Bool
  /-- The limit a trigger was registered with, unless it has been raised. -/
  bound : TriggerId → Option UInt64
  /-- Every fire, the last one first. -/
  fires : List Fire

/-- How often a trigger has fired. -/
def Book.count (b : Book) (origin : TriggerId) : ℕ := b.fires.countP (·.trigger = origin)

/-- When a trigger last fired. -/
def Book.last (b : Book) (origin : TriggerId) : Option Time :=
  (b.fires.find? (·.trigger = origin)).map (·.time)

/-- A trigger is registered. -/
def Book.register (b : Book) (id : TriggerId) (maxFires : UInt64) : Book :=
  { b with
    issued := id :: b.issued
    origin := Function.update b.origin id id
    moved := Function.update b.moved id false
    bound := Function.update b.bound id (if 0 < maxFires then some maxFires else none) }

/-- A limit is changed. -/
def Book.limit (b : Book) (id : TriggerId) (maxFires : UInt64) : Book :=
  if (b.bound (b.origin id)).any fun m => maxFires = 0 || m < maxFires then
    { b with bound := Function.update b.bound (b.origin id) none }
  else b

/-- A trigger that was held is restored under a new id. -/
def Book.handBack (b : Book) (pick : Trigger × TriggerId) : Book :=
  { b with
    held := b.held.filter (·.id ≠ pick.1.id)
    issued := pick.2 :: b.issued
    origin := Function.update b.origin pick.2 (b.origin pick.1.id)
    moved := Function.update b.moved pick.2 true }

/-- A trigger fires. -/
def Book.fire (cooldown : TriggerId → ℕ) (now : Time) (b : Book) (id : TriggerId) : Book :=
  { b with
    moved := Function.update b.moved id false
    fires := ⟨b.origin id, now, cooldown id⟩ :: b.fires }

/-- The cooldown of a stored trigger, by its id. -/
def TriggerEngine.cooldownOf (e : TriggerEngine) (id : TriggerId) : ℕ :=
  (e.triggers.lookup id).elim 0 e.cooldown

/-! ## Runs -/

/-- The engine, and what has become of its triggers. -/
structure Daemon where
  engine : TriggerEngine
  book : Book

/-- A daemon without triggers, started at a time. -/
def Daemon.new (config : TriggersConfig) (start : Time) : Daemon where
  engine := .withConfig config
  book := ⟨[], start, [], id, fun _ => false, fun _ => none, []⟩

/-- What can happen to a daemon. -/
inductive Op
  | register (id : TriggerId) (now : Time) (agentId : AgentId) (pattern : TriggerPattern)
      (promptTemplate : String) (maxFires : UInt64) (targetAgent : Option AgentId)
      (cooldownSecs : Option ℕ) (sessionMode : Option SessionMode)
  | evaluate (event : Event) (now : Time) (resolveName : AgentId → Option String)
  | setEnabled (id : TriggerId) (enabled : Bool)
  | update (id : TriggerId) (patch : TriggerPatch)
  | persistAndLoad (config : TriggersConfig)
  | take (agentId : AgentId)
  | restore (newAgentId : AgentId) (picks : List (Trigger × TriggerId))
  | remove (id : TriggerId)
  | removeAgentTriggers (agentId : AgentId)
  | reassignAgentTriggers (oldAgentId newAgentId : AgentId)

/-- The daemon after an operation. -/
def perform (d : Daemon) : Op → Daemon
  | .register id now agentId pattern promptTemplate maxFires targetAgent cooldownSecs sessionMode =>
    ⟨registerWithTarget d.engine id now agentId pattern promptTemplate maxFires targetAgent
      cooldownSecs sessionMode, d.book.register id maxFires⟩
  | .evaluate event now resolveName =>
    let ev := evaluateWithResolver host d.engine event now resolveName
    ⟨ev.engine, ev.log.foldl (Book.fire d.engine.cooldownOf now) { d.book with clock := now }⟩
  | .setEnabled id enabled => ⟨(setEnabled d.engine id enabled).2, d.book⟩
  | .update id patch =>
    ⟨(update d.engine id patch).2,
      if (d.engine.triggers.lookup id).isSome then patch.maxFires.elim d.book (d.book.limit id)
      else d.book⟩
  | .persistAndLoad config => ⟨load (.withConfig config) (persisted d.engine), d.book⟩
  | .take agentId =>
    ⟨(takeAgentTriggers d.engine agentId).2,
      { d.book with held := d.book.held ++ (takeAgentTriggers d.engine agentId).1 }⟩
  | .restore newAgentId picks =>
    ⟨restoreTriggers d.engine newAgentId picks, picks.foldl Book.handBack d.book⟩
  | .remove id => ⟨(remove d.engine id).2, d.book⟩
  | .removeAgentTriggers agentId => ⟨removeAgentTriggers d.engine agentId, d.book⟩
  | .reassignAgentTriggers oldAgentId newAgentId =>
    ⟨(reassignAgentTriggers d.engine oldAgentId newAgentId).2, d.book⟩

/-- What is restored is held, once, and gets ids of its own that are new. -/
structure Book.Returns (b : Book) (picks : List (Trigger × TriggerId)) : Prop where
  held : ∀ pick ∈ picks, pick.1 ∈ b.held
  once : (picks.map (·.1.id)).Nodup
  fresh : ∀ pick ∈ picks, pick.2 ∉ b.issued
  apart : (picks.map (·.2)).Nodup

/-- What the surroundings keep to: ids are fresh, the clock does not go back, no update changes the
pattern, and what is restored has been taken. -/
def Allowed (d : Daemon) : Op → Prop
  | .register id .. => id ∉ d.book.issued
  | .evaluate _ now _ => d.book.clock ≤ now
  | .update _ patch => patch.pattern = none
  | .restore _ picks => d.book.Returns picks
  | _ => True

/-! ## What holds in every state -/

/-- A trigger that is in the engine or held. -/
def Daemon.Present (d : Daemon) (t : Trigger) : Prop :=
  d.engine.triggers.lookup t.id = some t ∨ t ∈ d.book.held

/-- The fires of a trigger with a limit are counted in it. -/
def Book.Counts (b : Book) (t : Trigger) : Prop :=
  ∀ m, b.bound (b.origin t.id) = some m →
    0 < t.maxFires ∧ t.maxFires ≤ m ∧ t.fireCount.toNat = b.count (b.origin t.id)

/-- A trigger that never fired has no time in the file. -/
def TriggerEngine.Stamped (e : TriggerEngine) (id : TriggerId) (t : Trigger) : Prop :=
  e.lastFired.lookup id = none → t.lastFiredAt = none

/-- The engine knows when a trigger last fired. -/
structure Daemon.Knows (d : Daemon) (id : TriggerId) (t : Trigger) : Prop where
  last : d.engine.lastFired.lookup id = d.book.last (d.book.origin id)
  stamped : d.engine.Stamped id t

/-- The book is in order: no trigger has fired more often than it may, and so on. -/
structure Book.Sound (b : Book) : Prop where
  bound : ∀ origin m, b.bound origin = some m → b.count origin ≤ m.toNat
  ordered : b.fires.Pairwise fun later earlier => earlier.time ≤ later.time
  clock : ∀ fire ∈ b.fires, fire.time ≤ b.clock
  issued : ∀ fire ∈ b.fires, fire.trigger ∈ b.issued

/-- The engine agrees with its book. -/
structure Sound (d : Daemon) : Prop where
  book : d.book.Sound
  keyed : d.engine.triggers.Forall fun id t => t.id = id
  issued : ∀ t, d.Present t → t.id ∈ d.book.issued ∧ d.book.origin t.id ∈ d.book.issued
  counts : ∀ t, d.Present t → d.book.Counts t
  origins : ∀ t t', d.Present t → d.Present t' → d.book.origin t.id = d.book.origin t'.id →
    t.id = t'.id
  knows : d.engine.triggers.Forall fun id t => d.book.moved id = false → d.Knows id t
  times : ∀ id ∉ d.book.issued, d.engine.lastFired.lookup id = none
  apart : ∀ t ∈ d.book.held, d.engine.triggers.lookup t.id = none
  once : (d.book.held.map Trigger.id).Nodup

section Steps

variable {host} {d : Daemon} {e e' : TriggerEngine} {b : Book} {id : TriggerId} {t t' : Trigger}

/-- A stored trigger after an operation that fires nothing. -/
structure SameTrigger (d : Daemon) (e' : TriggerEngine) (bound : TriggerId → Option UInt64)
    (key : TriggerId) (t t' : Trigger) : Prop where
  id : t'.id = t.id
  fireCount : t'.fireCount = t.fireCount
  maxFires : ∀ m, bound (d.book.origin key) = some m → 0 < t.maxFires → t.maxFires ≤ m →
    0 < t'.maxFires ∧ t'.maxFires ≤ m
  last : d.engine.Stamped key t → e'.lastFired.lookup key = d.engine.lastFired.lookup key
  stamped : d.engine.Stamped key t → e'.Stamped key t'

/-- **Operations that fire nothing and move nothing.** -/
theorem Sound.inPlace (h : Sound d) {bound : TriggerId → Option UInt64}
    (hbound : ∀ origin m, bound origin = some m → d.book.bound origin = some m)
    (htimes : ∀ id, d.engine.lastFired.lookup id = none → id ∉ d.book.issued →
      e'.lastFired.lookup id = none)
    (hlive : ∀ id t', e'.triggers.lookup id = some t' →
      ∃ t, d.engine.triggers.lookup id = some t ∧ SameTrigger d e' bound id t t') :
    Sound ⟨e', { d.book with bound := bound }⟩ := by
  have hpresent (t' : Trigger) (ht' : Daemon.Present ⟨e', { d.book with bound := bound }⟩ t') :
      ∃ t, d.Present t ∧ t'.id = t.id ∧ (∀ m, bound (d.book.origin t.id) = some m →
        0 < t.maxFires → t.maxFires ≤ m → 0 < t'.maxFires ∧ t'.maxFires ≤ m) ∧
        t'.fireCount = t.fireCount := by
    obtain hlookup | hheld := ht'
    · obtain ⟨t, ht, hsame⟩ := hlive t'.id t' hlookup
      have hid : t.id = t'.id := hsame.id.symm
      refine ⟨t, .inl (by rw [hid]; exact ht), hsame.id, ?_, hsame.fireCount⟩
      rw [hid]
      exact hsame.maxFires
    · exact ⟨t', .inr hheld, rfl, fun _ _ hpos hle => ⟨hpos, hle⟩, rfl⟩
  refine
    { book := ⟨fun origin m hm => h.book.bound origin m (hbound origin m hm), h.book.ordered,
        h.book.clock, h.book.issued⟩
      keyed := fun id t' ht' => ?_
      issued := fun t' ht' => ?_
      counts := fun t' ht' m hm => ?_
      origins := fun t₁ t₂ ht₁ ht₂ horigin => ?_
      knows := fun id t' ht' hmoved => ?_
      times := fun id hid => htimes id (h.times id hid) hid
      apart := fun t ht => ?_
      once := h.once }
  · obtain ⟨t, ht, hsame⟩ := hlive id t' ht'
    exact hsame.id.trans (h.keyed id t ht)
  · obtain ⟨t, ht, hid, -⟩ := hpresent t' ht'
    rw [hid]
    exact h.issued t ht
  · obtain ⟨t, ht, hid, hmax, hcount⟩ := hpresent t' ht'
    rw [hid] at hm ⊢
    obtain ⟨hpos, hle, hfires⟩ := h.counts t ht m (hbound _ m hm)
    obtain ⟨hpos', hle'⟩ := hmax m hm hpos hle
    refine ⟨hpos', hle', ?_⟩
    rw [hcount]
    exact hfires
  · obtain ⟨u₁, hu₁, hid₁, -⟩ := hpresent t₁ ht₁
    obtain ⟨u₂, hu₂, hid₂, -⟩ := hpresent t₂ ht₂
    rw [hid₁, hid₂] at horigin ⊢
    exact h.origins u₁ u₂ hu₁ hu₂ horigin
  · obtain ⟨t, ht, hsame⟩ := hlive id t' ht'
    obtain ⟨hlast, hstamped⟩ := h.knows id t ht hmoved
    exact ⟨(hsame.last hstamped).trans hlast, hsame.stamped hstamped⟩
  · cases hlookup : e'.triggers.lookup t.id with
    | none => rfl
    | some t' =>
      obtain ⟨u, hu, -⟩ := hlive t.id t' hlookup
      rw [h.apart t ht] at hu
      cases hu

theorem SameTrigger.refl {bound : TriggerId → Option UInt64}
    (hlast : e'.lastFired.lookup id = d.engine.lastFired.lookup id) :
    SameTrigger d e' bound id t t where
  id := rfl
  fireCount := rfl
  maxFires _ _ hpos hle := ⟨hpos, hle⟩
  last _ := hlast
  stamped hstamped hnone := hstamped (hlast.symm.trans hnone)

theorem lookup_modify_cases {f : Trigger → Trigger} {id' : TriggerId}
    (h : (e.triggers.modify id f).lookup id' = some t') :
    ∃ t, e.triggers.lookup id' = some t ∧ t' = if id' = id then f t else t := by
  by_cases hid : id' = id
  · subst hid
    rw [Table.lookup_modify_self] at h
    obtain ⟨t, ht, rfl⟩ := Option.map_eq_some_iff.mp h
    exact ⟨t, ht, (if_pos rfl).symm⟩
  · rw [Table.lookup_modify_ne _ hid] at h
    exact ⟨t', h, (if_neg hid).symm⟩

theorem Sound.modify (h : Sound d) (f : Trigger → Trigger) (id : TriggerId)
    (hf : ∀ t, (f t).id = t.id ∧ (f t).fireCount = t.fireCount ∧ (f t).maxFires = t.maxFires ∧
      (f t).lastFiredAt = t.lastFiredAt)
    (htriggers : e'.triggers = d.engine.triggers.modify id f)
    (hlast : e'.lastFired = d.engine.lastFired) : Sound ⟨e', d.book⟩ := by
  refine h.inPlace (fun _ _ hm => hm) (fun _ hnone _ => by rw [hlast]; exact hnone)
    fun id' t' ht' => ?_
  rw [htriggers] at ht'
  obtain ⟨t, ht, rfl⟩ := lookup_modify_cases ht'
  refine ⟨t, ht, ?_⟩
  by_cases hid : id' = id
  · obtain ⟨hsame, hcount, hmax, hfired⟩ := hf t
    rw [if_pos hid]
    refine ⟨hsame, hcount, fun m _ hpos hle => ?_, fun _ => by rw [hlast], fun hstamped => ?_⟩
    · rw [hmax]
      exact ⟨hpos, hle⟩
    · unfold TriggerEngine.Stamped
      rw [hlast, hfired]
      exact hstamped
  · rw [if_neg hid]
    exact .refl (by rw [hlast])

theorem Sound.fewer (h : Sound d)
    (htimes : ∀ id, d.engine.lastFired.lookup id = none → e'.lastFired.lookup id = none)
    (hlive : ∀ id t, e'.triggers.lookup id = some t → d.engine.triggers.lookup id = some t ∧
      e'.lastFired.lookup id = d.engine.lastFired.lookup id) : Sound ⟨e', d.book⟩ :=
  h.inPlace (fun _ _ hm => hm) (fun id hnone _ => htimes id hnone) fun id t ht =>
    ⟨t, (hlive id t ht).1, .refl (hlive id t ht).2⟩

theorem lookup_erase_none {table : Table TriggerId Time} {key : TriggerId}
    (h : table.lookup key = none) : (table.erase id).lookup key = none := by
  by_cases hid : key = id
  · rw [hid]
    exact AList.lookup_erase _ _
  · rwa [AList.lookup_erase_ne hid]

theorem lookup_drop {key : TriggerId} (h : (e.drop id).triggers.lookup key = some t) :
    key ≠ id ∧ e.triggers.lookup key = some t := by
  by_cases hid : key = id
  · rw [hid] at h
    exact absurd (h.symm.trans (AList.lookup_erase _ _)) (Option.some_ne_none _)
  · exact ⟨hid, (AList.lookup_erase_ne hid).symm.trans h⟩

end Steps

end LibreFang.Triggers
