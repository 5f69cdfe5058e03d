import LibreFang.Triggers.Book

/-!
# Registering, changing, saving and moving triggers

* **`sound_persistAndLoad`**: so does saving all triggers and loading them into a new engine.
* `Sound.store`, `Sound.takeOne`, `Sound.restoreOne`: a new trigger, and one that is taken or put
  back; **`sound_take`**, **`sound_restore`**: all triggers of an agent.
-/

namespace LibreFang.Triggers

variable (host : Host)

section Steps

variable {host} {d : Daemon} {e e' : TriggerEngine} {b : Book} {id : TriggerId} {t t' : Trigger}

/-! ## What users and agents do -/

theorem sound_setEnabled (h : Sound d) (id : TriggerId) (enabled : Bool) :
    Sound ⟨(setEnabled d.engine id enabled).2, d.book⟩ :=
  h.modify (fun t => { t with enabled := enabled }) id (fun _ => ⟨rfl, rfl, rfl, rfl⟩) rfl rfl

theorem limit_eq (b : Book) (id : TriggerId) (maxFires : UInt64) :
    b.limit id maxFires = { b with bound := (b.limit id maxFires).bound } := by
  unfold Book.limit
  split <;> rfl

theorem bound_limit {maxFires m : UInt64} {origin : TriggerId}
    (h : (b.limit id maxFires).bound origin = some m) :
    b.bound origin = some m ∧ (origin = b.origin id → 0 < maxFires ∧ maxFires ≤ m) := by
  unfold Book.limit at h
  split at h
  · by_cases horigin : origin = b.origin id
    · dsimp only at h
      rw [horigin, Function.update_self] at h
      cases h
    · exact ⟨(Function.update_of_ne horigin _ _).symm.trans h, fun heq => absurd heq horigin⟩
  · next hkept =>
    refine ⟨h, fun heq => ?_⟩
    rw [← heq, h, Option.any_some, Bool.or_eq_true, not_or, decide_eq_true_eq,
      decide_eq_true_eq] at hkept
    exact ⟨UInt64.pos_iff_ne_zero.mpr hkept.1, UInt64.not_lt.mp hkept.2⟩

theorem sound_update (h : Sound d) {patch : TriggerPatch} (hpattern : patch.pattern = none) :
    Sound (perform host d (.update id patch)) := by
  unfold perform update
  dsimp only
  cases hstored : d.engine.triggers.lookup id with
  | none => exact h
  | some t =>
    dsimp only
    rw [Option.isSome_some, if_pos rfl, hpattern]
    have hmain (bound : TriggerId → Option UInt64)
        (hbound : ∀ origin m, bound origin = some m → d.book.bound origin = some m)
        (hmax : ∀ m, bound (d.book.origin id) = some m → ∀ m', patch.maxFires = some m' →
          0 < m' ∧ m' ≤ m) :
        Sound ⟨{ d.engine with triggers := d.engine.triggers.modify id fun t => t.patch patch },
          { d.book with bound := bound }⟩ := by
      refine h.inPlace hbound (fun _ hnone _ => hnone) fun key t' ht' => ?_
      obtain ⟨t, ht, rfl⟩ := lookup_modify_cases ht'
      refine ⟨t, ht, ?_⟩
      by_cases hid : key = id
      · rw [if_pos hid]
        refine ⟨rfl, rfl, fun m hm hpos hle => ?_, fun _ => rfl, fun hstamped => hstamped⟩
        unfold Trigger.patch
        dsimp only
        cases hpatch : patch.maxFires with
        | none => exact ⟨hpos, hle⟩
        | some m' => exact hmax m (hid ▸ hm) m' hpatch
      · rw [if_neg hid]
        exact .refl rfl
    cases hpatch : patch.maxFires with
    | none =>
      exact hmain d.book.bound (fun _ _ hm => hm) fun m _ m' hm' =>
        absurd (hpatch.symm.trans hm') nofun
    | some m' =>
      rw [Option.elim_some, limit_eq]
      refine hmain _ (fun origin m hm => (bound_limit hm).1) fun m hm m'' hm'' => ?_
      obtain rfl := Option.some.inj (hpatch.symm.trans hm'')
      exact (bound_limit hm).2 rfl

theorem sound_remove (h : Sound d) (id : TriggerId) : Sound ⟨(remove d.engine id).2, d.book⟩ := by
  unfold remove
  split
  · refine h.fewer (fun _ hnone => lookup_erase_none hnone) fun key t ht => ?_
    obtain ⟨hkey, hlookup⟩ := lookup_drop (e := d.engine) ht
    exact ⟨hlookup, AList.lookup_erase_ne hkey⟩
  · exact h

variable {key : TriggerId}

theorem lookup_foldl_drop {ids : List TriggerId}
    (h : (ids.foldl TriggerEngine.drop e).triggers.lookup key = some t) :
    e.triggers.lookup key = some t ∧
      (ids.foldl TriggerEngine.drop e).lastFired.lookup key = e.lastFired.lookup key := by
  induction ids generalizing e with
  | nil => exact ⟨h, rfl⟩
  | cons id ids ih =>
    obtain ⟨hdropped, hlast⟩ := ih h
    obtain ⟨hkey, hlookup⟩ := lookup_drop hdropped
    exact ⟨hlookup, hlast.trans (AList.lookup_erase_ne hkey)⟩

theorem lastFired_foldl_drop {ids : List TriggerId} (h : e.lastFired.lookup key = none) :
    (ids.foldl TriggerEngine.drop e).lastFired.lookup key = none := by
  induction ids generalizing e with
  | nil => exact h
  | cons id ids ih => exact ih (lookup_erase_none h)

theorem sound_removeAgentTriggers (h : Sound d) (agentId : AgentId) :
    Sound ⟨removeAgentTriggers d.engine agentId, d.book⟩ := by
  unfold removeAgentTriggers
  split
  · exact h.fewer (fun _ hnone => lastFired_foldl_drop hnone) fun _ _ ht => lookup_foldl_drop ht
  · exact h

theorem Sound.index (h : Sound ⟨e, b⟩) (htriggers : e'.triggers = e.triggers)
    (hlast : e'.lastFired = e.lastFired) : Sound ⟨e', b⟩ :=
  h.fewer (fun _ hnone => by rw [hlast]; exact hnone)
    fun _ _ ht => ⟨by rw [← htriggers]; exact ht, by rw [hlast]⟩

theorem sound_reassignAgentTriggers (h : Sound d) (oldAgentId newAgentId : AgentId) :
    Sound ⟨(reassignAgentTriggers d.engine oldAgentId newAgentId).2, d.book⟩ := by
  have hloop (ids : List TriggerId) (e : TriggerEngine) (he : Sound ⟨e, d.book⟩) :
      Sound ⟨ids.foldl (fun e id => { e with
        triggers := e.triggers.modify id fun t => { t with agentId := newAgentId } }) e,
        d.book⟩ := by
    induction ids generalizing e with
    | nil => exact he
    | cons id ids ih =>
      exact ih _ (he.modify (fun t => { t with agentId := newAgentId }) id
        (fun _ => ⟨rfl, rfl, rfl, rfl⟩) rfl rfl)
  have hall := hloop ((d.engine.agentTriggers.lookup oldAgentId).getD [])
    { d.engine with agentTriggers := d.engine.agentTriggers.erase oldAgentId } (h.index rfl rfl)
  unfold reassignAgentTriggers
  dsimp only
  split
  · exact hall
  · exact hall.index rfl rfl

/-! ## The file -/

theorem lookup_loadTrigger (h : (loadTrigger e t).triggers.lookup key = some t') :
    t' = t ∧ key = t.id ∨ key ≠ t.id ∧ e.triggers.lookup key = some t' := by
  have htriggers : (loadTrigger e t).triggers = e.triggers.insert t.id t := by
    unfold loadTrigger
    dsimp only
    split <;> rfl
  rw [htriggers] at h
  by_cases hkey : key = t.id
  · rw [hkey, AList.lookup_insert] at h
    exact .inl ⟨(Option.some.inj h).symm, hkey⟩
  · exact .inr ⟨hkey, (AList.lookup_insert_ne hkey).symm.trans h⟩

theorem lastFired_loadTrigger_self (e : TriggerEngine) (t : Trigger) :
    (loadTrigger e t).lastFired.lookup t.id = t.lastFiredAt.or (e.lastFired.lookup t.id) := by
  unfold loadTrigger
  dsimp only
  split
  · next time htime =>
    rw [htime]
    exact AList.lookup_insert _
  · next hnone =>
    rw [hnone]
    rfl

theorem lastFired_loadTrigger_ne (hkey : key ≠ t.id) :
    (loadTrigger e t).lastFired.lookup key = e.lastFired.lookup key := by
  unfold loadTrigger
  dsimp only
  split
  · exact AList.lookup_insert_ne hkey
  · rfl

theorem lastFired_load_of_notMem {file : List Trigger} (hkey : key ∉ file.map Trigger.id) :
    (load e file).lastFired.lookup key = e.lastFired.lookup key := by
  induction file generalizing e with
  | nil => rfl
  | cons t file ih =>
    rw [List.map_cons, List.mem_cons, not_or] at hkey
    obtain ⟨hne, hrest⟩ := hkey
    exact (ih hrest).trans (lastFired_loadTrigger_ne hne)

theorem lookup_load {file : List Trigger} (hnodup : (file.map Trigger.id).Nodup)
    (h : (load e file).triggers.lookup key = some t) :
    (t ∈ file ∧ key = t.id ∧
        (load e file).lastFired.lookup key = t.lastFiredAt.or (e.lastFired.lookup key)) ∨
      key ∉ file.map Trigger.id ∧ e.triggers.lookup key = some t := by
  induction file generalizing e with
  | nil => exact .inr ⟨List.not_mem_nil, h⟩
  | cons first file ih =>
    obtain ⟨hfirst, hnodup⟩ := List.nodup_cons.mp hnodup
    obtain ⟨hmem, rfl, hlast⟩ | ⟨hkey, hlookup⟩ := ih hnodup h
    · refine .inl ⟨List.mem_cons_of_mem _ hmem, rfl, hlast.trans ?_⟩
      have hne : t.id ≠ first.id := fun heq => hfirst (heq ▸ List.mem_map_of_mem hmem)
      rw [lastFired_loadTrigger_ne hne]
    · obtain ⟨rfl, rfl⟩ | ⟨hne, hold⟩ := lookup_loadTrigger hlookup
      · exact .inl ⟨List.mem_cons_self, rfl,
          (lastFired_load_of_notMem hkey).trans (lastFired_loadTrigger_self e t)⟩
      · refine .inr ⟨?_, hold⟩
        rw [List.map_cons, List.mem_cons, not_or]
        exact ⟨hne, hkey⟩

theorem ids_persisted (h : e.triggers.Forall fun id t => t.id = id) :
    (persisted e).map Trigger.id = e.triggers.keys := by
  unfold persisted AList.keys List.keys
  rw [List.map_map]
  refine List.map_congr_left fun entry hentry => ?_
  exact h entry.1 entry.2 (AList.mem_lookup_iff.mpr hentry)

/-- **Saving and loading loses nothing.** -/
theorem sound_persistAndLoad (h : Sound d) (config : TriggersConfig) :
    Sound ⟨load (.withConfig config) (persisted d.engine), d.book⟩ := by
  have hnodup : ((persisted d.engine).map Trigger.id).Nodup := by
    rw [ids_persisted h.keyed]
    exact d.engine.triggers.keys_nodup
  refine h.inPlace (fun _ _ hm => hm) (fun key _ hkey => ?_) fun key t' ht' => ?_
  · refine lastFired_load_of_notMem fun hmem => hkey ?_
    rw [ids_persisted h.keyed] at hmem
    obtain ⟨t, ht⟩ := Option.isSome_iff_exists.mp (AList.lookup_isSome.mpr hmem)
    have hid : t.id = key := h.keyed key t ht
    exact hid ▸ (h.issued t (.inl (hid.symm ▸ ht))).1
  obtain ⟨hmem, hkey, hlast⟩ | ⟨-, hnone⟩ := lookup_load hnodup ht'
  · obtain ⟨⟨id, t⟩, hentry, rfl⟩ := List.mem_map.mp hmem
    have ht : d.engine.triggers.lookup id = some t := AList.mem_lookup_iff.mpr hentry
    have hid : t.id = id := h.keyed id t ht
    obtain rfl : key = id := hkey.trans hid
    have hstamp : (d.engine.stamp t).lastFiredAt =
        (d.engine.lastFired.lookup key).or t.lastFiredAt := by rw [← hid]; rfl
    have hloaded : (load (.withConfig config) (persisted d.engine)).lastFired.lookup key =
        (d.engine.stamp t).lastFiredAt := hlast.trans (Option.or_none)
    refine ⟨t, ht, rfl, rfl, fun m _ hpos hle => ⟨hpos, hle⟩, fun hstamped => ?_, fun _ hnone => ?_⟩
    · rw [hloaded, hstamp]
      cases hfired : d.engine.lastFired.lookup key with
      | none => rw [Option.none_or, hstamped hfired]
      | some time => rfl
    · exact hloaded.symm.trans hnone
  · cases hnone

/-! ## New and moved triggers -/

theorem Sound.id_of_lookup (h : Sound d)
    (ht : d.engine.triggers.lookup key = some t) : d.Present t ∧ t.id = key := by
  have hid : t.id = key := h.keyed key t ht
  exact ⟨.inl (hid.symm ▸ ht), hid⟩

theorem present_insert {bound : Book}
    (h : Daemon.Present ⟨{ e with triggers := e.triggers.insert t.id t }, bound⟩ t') :
    t' = t ∨ t'.id ≠ t.id ∧ e.triggers.lookup t'.id = some t' ∨ t' ∈ bound.held := by
  obtain hlookup | hheld := h
  · by_cases hid : t'.id = t.id
    · have hlookup : (e.triggers.insert t.id t).lookup t'.id = some t' := hlookup
      rw [hid, AList.lookup_insert] at hlookup
      exact .inl (Option.some.inj hlookup).symm
    · exact .inr (.inl ⟨hid, (AList.lookup_insert_ne hid).symm.trans hlookup⟩)
  · exact .inr (.inr hheld)

theorem Sound.store (h : Sound ⟨e, b⟩) {maxFires : UInt64} (hfresh : t.id ∉ b.issued)
    (hmax : t.maxFires = maxFires) (hcount : t.fireCount = 0) (hstamp : t.lastFiredAt = none) :
    Sound ⟨e.store t, b.register t.id maxFires⟩ := by
  have hother (u : Trigger) (hu : Daemon.Present ⟨e, b⟩ u) : u.id ≠ t.id :=
    fun hid => hfresh (hid ▸ (h.issued u hu).1)
  have hpresent (u : Trigger) (hu : Daemon.Present ⟨e.store t, b.register t.id maxFires⟩ u) :
      u = t ∨ Daemon.Present ⟨e, b⟩ u :=
    (present_insert hu).imp_right fun hold => hold.imp_left And.right
  have hnever : b.count t.id = 0 ∧ b.last t.id = none := by
    have hnone (fire : Fire) (hfire : fire ∈ b.fires) : fire.trigger ≠ t.id :=
      fun heq => hfresh (heq ▸ h.book.issued fire hfire)
    refine ⟨List.countP_eq_zero.mpr fun fire hfire => ?_, ?_⟩
    · rw [decide_eq_true_eq]
      exact hnone fire hfire
    · unfold Book.last
      rw [List.find?_eq_none.mpr, Option.map_none]
      intro fire hfire
      rw [decide_eq_true_eq]
      exact hnone fire hfire
  refine
    { book := ⟨fun origin m hm => ?_, h.book.ordered, h.book.clock,
        fun fire hfire => List.mem_cons_of_mem _ (h.book.issued fire hfire)⟩
      keyed := h.keyed.insert rfl
      issued := fun u hu => ?_
      counts := fun u hu m hm => ?_
      origins := fun u v hu hv horigin => ?_
      knows := fun key u hu hmoved => ?_
      times := fun key hkey => h.times key fun hmem => hkey (List.mem_cons_of_mem _ hmem)
      apart := fun u hu => ?_
      once := h.once }
  · by_cases horigin : origin = t.id
    · rw [horigin]
      exact hnever.1 ▸ Nat.zero_le _
    · exact h.book.bound origin m ((Function.update_of_ne horigin _ _).symm.trans hm)
  · obtain rfl | hold := hpresent u hu
    · exact ⟨List.mem_cons_self, by
        rw [show (b.register u.id maxFires).origin u.id = u.id from Function.update_self ..]
        exact List.mem_cons_self⟩
    · have horigin : (b.register t.id maxFires).origin u.id = b.origin u.id :=
        Function.update_of_ne (hother u hold) _ _
      rw [horigin]
      exact (h.issued u hold).imp (List.mem_cons_of_mem _) (List.mem_cons_of_mem _)
  · obtain rfl | hold := hpresent u hu
    · have horigin : (b.register u.id maxFires).origin u.id = u.id := Function.update_self ..
      rw [horigin] at hm ⊢
      have hm : (if 0 < maxFires then some maxFires else none) = some m :=
        (Function.update_self (f := b.bound) ..).symm.trans hm
      split at hm
      · next hpos =>
        obtain rfl := Option.some.inj hm
        rw [hmax, hcount]
        exact ⟨hpos, UInt64.le_refl _, hnever.1.symm⟩
      · cases hm
    · have horigin : (b.register t.id maxFires).origin u.id = b.origin u.id :=
        Function.update_of_ne (hother u hold) _ _
      have hne : b.origin u.id ≠ t.id := fun heq => hfresh (heq ▸ (h.issued u hold).2)
      rw [horigin] at hm ⊢
      exact h.counts u hold m ((Function.update_of_ne hne _ _).symm.trans hm)
  · have horiginOld (u : Trigger) (hold : Daemon.Present ⟨e, b⟩ u) :
        (b.register t.id maxFires).origin u.id = b.origin u.id ∧ b.origin u.id ≠ t.id :=
      ⟨Function.update_of_ne (hother u hold) _ _, fun heq => hfresh (heq ▸ (h.issued u hold).2)⟩
    have horiginNew : (b.register t.id maxFires).origin t.id = t.id := Function.update_self ..
    obtain rfl | hold := hpresent u hu
    · obtain rfl | hold' := hpresent v hv
      · rfl
      · rw [horiginNew, (horiginOld v hold').1] at horigin
        exact absurd horigin.symm (horiginOld v hold').2
    · obtain rfl | hold' := hpresent v hv
      · rw [horiginNew, (horiginOld u hold).1] at horigin
        exact absurd horigin (horiginOld u hold).2
      · rw [(horiginOld u hold).1, (horiginOld v hold').1] at horigin
        exact h.origins u v hold hold' horigin
  · by_cases hkey : key = t.id
    · subst hkey
      obtain rfl : t = u := Option.some.inj ((AList.lookup_insert _).symm.trans hu)
      have horigin : (b.register t.id maxFires).origin t.id = t.id := Function.update_self ..
      refine ⟨?_, fun _ => hstamp⟩
      rw [horigin]
      exact (h.times t.id hfresh).trans hnever.2.symm
    · have hold : e.triggers.lookup key = some u := (AList.lookup_insert_ne hkey).symm.trans hu
      have hmoved : b.moved key = false := (Function.update_of_ne hkey _ _).symm.trans hmoved
      obtain ⟨hlast, hstamped⟩ := h.knows key u hold hmoved
      refine ⟨?_, hstamped⟩
      rw [show (b.register t.id maxFires).origin key = b.origin key from
        Function.update_of_ne hkey _ _]
      exact hlast
  · exact (AList.lookup_insert_ne (hother u (.inr hu))).trans (h.apart u hu)

theorem Sound.takeOne {held : List Trigger} (h : Sound ⟨e, { b with held := held }⟩)
    (ht : e.triggers.lookup id = some t) :
    Sound ⟨e.drop id, { b with held := held ++ [t] }⟩ := by
  obtain ⟨hlive, hid⟩ := h.id_of_lookup ht
  have hheld (u : Trigger) (hu : u ∈ held) : u.id ≠ id := fun heq =>
    Option.some_ne_none t (ht.symm.trans (heq ▸ h.apart u hu))
  have hpresent (u : Trigger)
      (hu : Daemon.Present ⟨e.drop id, { b with held := held ++ [t] }⟩ u) :
      Daemon.Present ⟨e, { b with held := held }⟩ u := by
    obtain hlookup | hmem := hu
    · exact .inl (lookup_drop hlookup).2
    · obtain hmem | hmem := List.mem_append.mp hmem
      · exact .inr hmem
      · obtain rfl := List.mem_singleton.mp hmem
        exact hlive
  refine
    { book := ⟨h.book.bound, h.book.ordered, h.book.clock, h.book.issued⟩
      keyed := h.keyed.erase id
      issued := fun u hu => h.issued u (hpresent u hu)
      counts := fun u hu => h.counts u (hpresent u hu)
      origins := fun u v hu hv => h.origins u v (hpresent u hu) (hpresent v hv)
      knows := fun key u hu hmoved => ?_
      times := fun key hkey => lookup_erase_none (h.times key hkey)
      apart := fun u hu => ?_
      once := ?_ }
  · obtain ⟨hkey, hlookup⟩ := lookup_drop hu
    obtain ⟨hlast, hstamped⟩ := h.knows key u hlookup hmoved
    have hsame : (e.drop id).lastFired.lookup key = e.lastFired.lookup key :=
      AList.lookup_erase_ne hkey
    exact ⟨hsame.trans hlast, fun hnone => hstamped (hsame.symm.trans hnone)⟩
  · obtain hmem | hmem := List.mem_append.mp hu
    · exact (AList.lookup_erase_ne (hheld u hmem)).trans (h.apart u hmem)
    · obtain rfl := List.mem_singleton.mp hmem
      rw [hid]
      exact AList.lookup_erase _ _
  · have honce : (held.map Trigger.id).Nodup := h.once
    rw [List.map_append, List.map_singleton, hid]
    refine honce.append (List.nodup_singleton id) ?_
    rw [List.disjoint_singleton, List.mem_map]
    rintro ⟨u, hmem, heq⟩
    exact hheld u hmem heq

theorem sound_takeLoop (ids : List TriggerId) (taken : List Trigger)
    (h : Sound ⟨e, { b with held := b.held ++ taken }⟩) :
    Sound ⟨(takeLoop e taken ids).2, { b with held := b.held ++ (takeLoop e taken ids).1 }⟩ := by
  induction ids generalizing e taken with
  | nil => exact h
  | cons id ids ih =>
    unfold takeLoop
    split
    · next t ht =>
      refine ih (taken ++ [t]) ?_
      rw [← List.append_assoc]
      exact h.takeOne ht
    · exact ih taken h

theorem sound_take (h : Sound d) (agentId : AgentId) : Sound (perform host d (.take agentId)) := by
  unfold perform takeAgentTriggers
  dsimp only
  refine sound_takeLoop _ [] ?_
  rw [List.append_nil]
  exact h.index rfl rfl

theorem Sound.restoreOne (h : Sound ⟨e, b⟩) {newAgentId : AgentId} {newId : TriggerId}
    (hheld : t ∈ b.held) (hfresh : newId ∉ b.issued) :
    Sound ⟨restoreTrigger newAgentId e t newId, b.handBack (t, newId)⟩ := by
  refine Sound.index (e := e.store { t with id := newId, agentId := newAgentId }) ?_ rfl rfl
  have hother (u : Trigger) (hu : Daemon.Present ⟨e, b⟩ u) : u.id ≠ newId :=
    fun hid => hfresh (hid ▸ (h.issued u hu).1)
  have hnew : (b.handBack (t, newId)).origin newId = b.origin t.id := Function.update_self ..
  have hsame (u : Trigger) (hu : Daemon.Present ⟨e, b⟩ u) :
      (b.handBack (t, newId)).origin u.id = b.origin u.id :=
    Function.update_of_ne (hother u hu) _ _
  have hpresent (u : Trigger) (hu : Daemon.Present
      ⟨e.store { t with id := newId, agentId := newAgentId }, b.handBack (t, newId)⟩ u) :
      u = { t with id := newId, agentId := newAgentId } ∨
        Daemon.Present ⟨e, b⟩ u ∧ u.id ≠ t.id := by
    obtain heq | ⟨-, hlookup⟩ | hmem := present_insert hu
    · exact .inl heq
    · refine .inr ⟨.inl hlookup, fun hid => ?_⟩
      exact Option.some_ne_none u (hlookup.symm.trans (hid ▸ h.apart t hheld))
    · obtain ⟨hmem, hid⟩ := List.mem_filter.mp hmem
      exact .inr ⟨.inr hmem, of_decide_eq_true hid⟩
  refine
    { book := ⟨h.book.bound, h.book.ordered, h.book.clock,
        fun fire hfire => List.mem_cons_of_mem _ (h.book.issued fire hfire)⟩
      keyed := h.keyed.insert rfl
      issued := fun u hu => ?_
      counts := fun u hu m hm => ?_
      origins := fun u v hu hv horigin => ?_
      knows := fun key u hu hmoved => ?_
      times := fun key hkey => h.times key fun hmem => hkey (List.mem_cons_of_mem _ hmem)
      apart := fun u hu => ?_
      once := h.once.sublist (List.filter_sublist.map _) }
  · obtain rfl | ⟨hold, -⟩ := hpresent u hu
    · refine ⟨List.mem_cons_self, ?_⟩
      dsimp only
      rw [hnew]
      exact List.mem_cons_of_mem _ (h.issued t (.inr hheld)).2
    · rw [hsame u hold]
      exact (h.issued u hold).imp (List.mem_cons_of_mem _) (List.mem_cons_of_mem _)
  · obtain rfl | ⟨hold, -⟩ := hpresent u hu
    · dsimp only at hm ⊢
      rw [hnew] at hm ⊢
      exact h.counts t (.inr hheld) m hm
    · rw [hsame u hold] at hm ⊢
      exact h.counts u hold m hm
  · obtain rfl | ⟨hold, hne⟩ := hpresent u hu
    · obtain rfl | ⟨hold', hne'⟩ := hpresent v hv
      · rfl
      · rw [hnew, hsame v hold'] at horigin
        exact absurd (h.origins t v (.inr hheld) hold' horigin).symm hne'
    · obtain rfl | ⟨hold', hne'⟩ := hpresent v hv
      · rw [hnew, hsame u hold] at horigin
        exact absurd (h.origins u t hold (.inr hheld) horigin) hne
      · rw [hsame u hold, hsame v hold'] at horigin
        exact h.origins u v hold hold' horigin
  · by_cases hkey : key = newId
    · subst hkey
      exact absurd ((Function.update_self (f := b.moved) ..).symm.trans hmoved) nofun
    · have hold : e.triggers.lookup key = some u := (AList.lookup_insert_ne hkey).symm.trans hu
      obtain ⟨hlast, hstamped⟩ := h.knows key u hold
        ((Function.update_of_ne hkey _ _).symm.trans hmoved)
      refine ⟨?_, hstamped⟩
      rw [show (b.handBack (t, newId)).origin key = b.origin key from
        Function.update_of_ne hkey _ _]
      exact hlast
  · have hmem := (List.mem_filter.mp hu).1
    exact (AList.lookup_insert_ne (hother u (.inr hmem))).trans (h.apart u hmem)

theorem sound_restore {newAgentId : AgentId} (picks : List (Trigger × TriggerId))
    (h : Sound ⟨e, b⟩) (hpicks : b.Returns picks) :
    Sound ⟨restoreTriggers e newAgentId picks, picks.foldl Book.handBack b⟩ := by
  induction picks generalizing e b with
  | nil => exact h
  | cons pick picks ih =>
    refine ih (h.restoreOne (hpicks.held pick List.mem_cons_self)
      (hpicks.fresh pick List.mem_cons_self)) ?_
    obtain ⟨honce, honces⟩ := List.nodup_cons.mp hpicks.once
    obtain ⟨hapart, haparts⟩ := List.nodup_cons.mp hpicks.apart
    refine ⟨fun later hlater => ?_, honces, fun later hlater => ?_, haparts⟩
    · refine List.mem_filter.mpr ⟨hpicks.held later (List.mem_cons_of_mem _ hlater), ?_⟩
      rw [decide_eq_true_eq]
      exact fun heq => honce (List.mem_map.mpr ⟨later, hlater, heq⟩)
    · refine fun hmem => (List.mem_cons.mp hmem).elim (fun heq => ?_) ?_
      · exact hapart (List.mem_map.mpr ⟨later, hlater, heq⟩)
      · exact hpicks.fresh later (List.mem_cons_of_mem _ hlater)

end Steps

end LibreFang.Triggers
