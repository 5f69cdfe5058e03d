import LibreFang.Lib.Runs
import LibreFang.Triggers.Steps

/-!
# How often triggers fire

* `WithinLimits`: no two fires of a trigger are closer than its cooldown, and a trigger with a limit
  that is not raised does not fire more often.
* `Book.Spaced`: all fires so far are after the cooldown; **`Sound.fire`**: a fire keeps the engine
  and its book in order.
* **`withinLimits_of_rested`**: in allowed runs no trigger fires more often than it may; along
  `Rested` they are `WithinLimits` in every state.
-/

namespace LibreFang.Triggers

open Runs

variable (host : Host)

/-- **The limits of the triggers are kept.** -/
def WithinLimits (d : Daemon) : Prop :=
  (d.book.fires.Pairwise fun later earlier => later.trigger = earlier.trigger →
    earlier.time + later.cooldown * second ≤ later.time) ∧
    ∀ origin m, d.book.bound origin = some m → d.book.count origin ≤ m.toNat

/-- No event that a moved trigger could answer comes before the trigger has rested. -/
def Rested (d : Daemon) : Op → Prop
  | .evaluate event now resolveName => ∀ id t, d.engine.triggers.lookup id = some t →
      d.book.moved id = true → t.enabled = true → t.isExhausted = false →
      matchesPattern host t.pattern event (t.agentId, resolveName t.agentId) = true →
      ∀ last, d.book.last (d.book.origin id) = some last →
        last + d.engine.cooldown t * second ≤ now
  | _ => True

/-- Every fire comes after the cooldown. -/
def Book.Spaced (b : Book) : Prop :=
  b.fires.Pairwise fun later earlier => later.trigger = earlier.trigger →
    earlier.time + later.cooldown * second ≤ later.time

section Steps

variable {host} {d : Daemon} {e e' : TriggerEngine} {b : Book} {id : TriggerId} {t t' : Trigger}

/-! ## Events -/

theorem le_last_fire {fires : List Fire}
    (h : fires.Pairwise fun later earlier => earlier.time ≤ later.time) {fire : Fire}
    (hfire : fire ∈ fires) :
    ∃ last, fires.find? (·.trigger = fire.trigger) = some last ∧ fire.time ≤ last.time := by
  induction fires with
  | nil => cases hfire
  | cons first rest ih =>
    obtain ⟨hfirst, hrest⟩ := List.pairwise_cons.mp h
    by_cases htrigger : first.trigger = fire.trigger
    · refine ⟨first, List.find?_cons_of_pos (decide_eq_true htrigger), ?_⟩
      obtain rfl | hmem := List.mem_cons.mp hfire
      · exact Int.le_refl _
      · exact hfirst fire hmem
    · obtain rfl | hmem := List.mem_cons.mp hfire
      · exact absurd rfl htrigger
      · obtain ⟨last, hlast, hle⟩ := ih hrest hmem
        refine ⟨last, (List.find?_cons_of_neg ?_).trans hlast, hle⟩
        rwa [decide_eq_true_eq]

theorem Book.Sound.le_last (h : b.Sound) {fire : Fire} (hfire : fire ∈ b.fires) :
    ∃ last, b.last fire.trigger = some last ∧ fire.time ≤ last := by
  obtain ⟨last, hlast, hle⟩ := le_last_fire h.ordered hfire
  exact ⟨last.time, congrArg (Option.map Fire.time) hlast, hle⟩

theorem sound_exhaust (h : Sound ⟨e, b⟩) (id : TriggerId) :
    Sound ⟨{ e with triggers := e.triggers.modify id fun t => { t with enabled := false } }, b⟩ :=
  h.modify (fun t => { t with enabled := false }) id (fun _ => ⟨rfl, rfl, rfl, rfl⟩) rfl rfl

theorem lt_of_not_isExhausted (h : t.isExhausted = false) (hpos : 0 < t.maxFires) :
    t.fireCount.toNat < t.maxFires.toNat := by
  unfold Trigger.isExhausted at h
  rw [Bool.and_eq_false_iff, decide_eq_false_iff_not, decide_eq_false_iff_not] at h
  exact UInt64.lt_iff_toNat_lt.mp (UInt64.not_le.mp (h.resolve_left (not_not_intro hpos)))

theorem count_fire (b : Book) (cooldown : TriggerId → ℕ) (now : Time) (id origin : TriggerId) :
    (b.fire cooldown now id).count origin =
      b.count origin + if b.origin id = origin then 1 else 0 := by
  unfold Book.count Book.fire
  dsimp only
  rw [List.countP_cons]
  simp only [decide_eq_true_eq]

theorem last_fire (b : Book) (cooldown : TriggerId → ℕ) (now : Time) (id origin : TriggerId) :
    (b.fire cooldown now id).last origin =
      if b.origin id = origin then some now else b.last origin := by
  unfold Book.last Book.fire
  dsimp only
  rw [List.find?_cons]
  by_cases horigin : b.origin id = origin
  · rw [decide_eq_true horigin, if_pos horigin]
    rfl
  · rw [decide_eq_false horigin, if_neg horigin]

theorem clock_foldl_fire (log : List TriggerId) (b : Book) (cooldown : TriggerId → ℕ) (now : Time) :
    (log.foldl (Book.fire cooldown now) b).clock = b.clock := by
  induction log generalizing b with
  | nil => rfl
  | cons id log ih => exact ih _

/-- **A fire keeps the engine and its book in order.** -/
theorem Sound.fire (h : Sound ⟨e, b⟩) (ht : e.triggers.lookup id = some t)
    (hfresh : t.isExhausted = false) (cooldown : TriggerId → ℕ) :
    Sound ⟨{ e with
        triggers := e.triggers.modify id fun t => { t with fireCount := t.fireCount + 1 }
        lastFired := e.lastFired.insert t.id b.clock },
      b.fire cooldown b.clock id⟩ := by
  obtain ⟨hlive, hid⟩ := h.id_of_lookup ht
  obtain rfl := hid
  have hcount := count_fire b cooldown b.clock t.id
  have hlast := last_fire b cooldown b.clock t.id
  have hpresent (u' : Trigger) (hu' : Daemon.Present ⟨{ e with
        triggers := e.triggers.modify t.id fun t => { t with fireCount := t.fireCount + 1 }
        lastFired := e.lastFired.insert t.id b.clock }, b.fire cooldown b.clock t.id⟩ u') :
      u' = { t with fireCount := t.fireCount + 1 } ∨ Daemon.Present ⟨e, b⟩ u' ∧ u'.id ≠ t.id := by
    obtain hlookup | hmem := hu'
    · obtain ⟨u, hu, heq⟩ := lookup_modify_cases hlookup
      by_cases hkey : u'.id = t.id
      · rw [hkey] at hu
        obtain rfl := Option.some.inj (ht.symm.trans hu)
        exact .inl (heq.trans (if_pos hkey))
      · rw [if_neg hkey] at heq
        exact .inr ⟨.inl (heq ▸ hu), hkey⟩
    · refine .inr ⟨.inr hmem, fun heq => ?_⟩
      exact Option.some_ne_none t (ht.symm.trans (heq ▸ h.apart u' hmem))
  have hother (u : Trigger) (hu : Daemon.Present ⟨e, b⟩ u) (hne : u.id ≠ t.id) :
      b.origin t.id ≠ b.origin u.id := fun heq => hne (h.origins u t hu hlive heq.symm)
  refine
    { book := ⟨fun origin m hm => ?_, ?_, fun fire hfire => ?_, fun fire hfire => ?_⟩
      keyed := ?_
      issued := fun u' hu' => ?_
      counts := fun u' hu' m hm => ?_
      origins := fun u v hu hv horigin => ?_
      knows := fun key u' hu' hmoved => ?_
      times := fun key hkey => ?_
      apart := fun u hu => ?_
      once := h.once }
  · rw [hcount]
    by_cases horigin : b.origin t.id = origin
    · subst horigin
      obtain ⟨hpos, hle, heq⟩ := h.counts t hlive m hm
      have hlt := lt_of_not_isExhausted hfresh hpos
      have hle : t.maxFires.toNat ≤ m.toNat := UInt64.le_iff_toNat_le.mp hle
      rw [if_pos rfl]
      have heq : t.fireCount.toNat = b.count (b.origin t.id) := heq
      omega
    · rw [if_neg horigin]
      exact h.book.bound origin m hm
  · exact List.pairwise_cons.mpr ⟨h.book.clock, h.book.ordered⟩
  · obtain rfl | hmem := List.mem_cons.mp hfire
    · exact Int.le_refl _
    · exact h.book.clock fire hmem
  · obtain rfl | hmem := List.mem_cons.mp hfire
    · exact (h.issued t hlive).2
    · exact h.book.issued fire hmem
  · refine h.keyed.modify fun u hu => hu
  · obtain rfl | ⟨hold, -⟩ := hpresent u' hu'
    · exact h.issued t hlive
    · exact h.issued u' hold
  · obtain rfl | ⟨hold, hne⟩ := hpresent u' hu'
    · obtain ⟨hpos, hle, heq⟩ := h.counts t hlive m hm
      have hlt := lt_of_not_isExhausted hfresh hpos
      have hsize := t.maxFires.toNat_lt
      have hnext : (t.fireCount + 1).toNat = b.count (b.origin t.id) + 1 := by
        rw [← show t.fireCount.toNat = b.count (b.origin t.id) from heq, UInt64.toNat_add,
          UInt64.toNat_one]
        exact Nat.mod_eq_of_lt (by omega)
      exact ⟨hpos, hle, hnext.trans ((hcount _).trans (congrArg _ (if_pos rfl))).symm⟩
    · obtain ⟨hpos, hle, heq⟩ := h.counts u' hold m hm
      have hsame : (b.fire cooldown b.clock t.id).count (b.origin u'.id) =
          b.count (b.origin u'.id) := (hcount _).trans (congrArg _ (if_neg (hother u' hold hne)))
      exact ⟨hpos, hle, heq.trans hsame.symm⟩
  · obtain rfl | ⟨hold, hne⟩ := hpresent u hu
    · obtain rfl | ⟨hold', hne'⟩ := hpresent v hv
      · rfl
      · exact absurd horigin (hother v hold' hne')
    · obtain rfl | ⟨hold', -⟩ := hpresent v hv
      · exact absurd horigin.symm (hother u hold hne)
      · exact h.origins u v hold hold' horigin
  · obtain ⟨u, hu, rfl⟩ := lookup_modify_cases hu'
    by_cases hkey : key = t.id
    · subst hkey
      refine ⟨?_, fun hnone => ?_⟩
      · rw [hlast]
        exact (AList.lookup_insert _).trans (if_pos rfl).symm
      · exact absurd ((AList.lookup_insert _).symm.trans hnone) nofun
    · obtain ⟨hold, hukey⟩ := h.id_of_lookup hu
      obtain ⟨hknown, hstamped⟩ := h.knows key u hu
        ((Function.update_of_ne hkey _ _).symm.trans hmoved)
      have hsame : (e.lastFired.insert t.id b.clock).lookup key = e.lastFired.lookup key :=
        AList.lookup_insert_ne hkey
      have horigin : b.origin t.id ≠ b.origin key :=
        hukey ▸ hother u hold (hukey.symm ▸ hkey)
      rw [if_neg hkey]
      refine ⟨?_, fun hnone => hstamped (hsame.symm.trans hnone)⟩
      rw [hlast]
      exact (hsame.trans hknown).trans (if_neg horigin).symm
  · have hne : key ≠ t.id := fun heq => hkey (heq ▸ (h.issued t hlive).1)
    exact (AList.lookup_insert_ne hne).trans (h.times key hkey)
  · have hne : u.id ≠ t.id := fun heq =>
      Option.some_ne_none t (ht.symm.trans (heq ▸ h.apart u hu))
    exact (Table.lookup_modify_ne _ hne).trans (h.apart u hu)

theorem Book.Spaced.fire (h : b.Spaced) (hbook : b.Sound) (cooldown : TriggerId → ℕ)
    (hrest : ∀ last, b.last (b.origin id) = some last → last + cooldown id * second ≤ b.clock) :
    (b.fire cooldown b.clock id).Spaced := by
  refine List.pairwise_cons.mpr ⟨fun fire hfire horigin => ?_, h⟩
  obtain ⟨last, hlast, hle⟩ := hbook.le_last hfire
  have horigin : b.origin id = fire.trigger := horigin
  have hdone := hrest last (horigin ▸ hlast)
  exact Int.le_trans (Int.add_le_add_right hle _) hdone

/-- The triggers that an evaluation has still to visit are as they were before it. -/
structure Unvisited (d : Daemon) (e : TriggerEngine) (b : Book) (id : TriggerId) (t : Trigger) :
    Prop where
  stored : d.engine.triggers.lookup id = some t
  moved : b.moved id = d.book.moved id
  last : b.last (b.origin id) = d.book.last (d.book.origin id)

theorem rested_of_not_isCooling (h : Sound ⟨e, b⟩) (ht : e.triggers.lookup id = some t)
    (hmoved : b.moved id = false) (hcooling : e.isCooling t b.clock = false) {last : Time}
    (hlast : b.last (b.origin id) = some last) : last + e.cooldown t * second ≤ b.clock := by
  have hid : t.id = id := h.keyed id t ht
  have hknown : e.lastFired.lookup t.id = some last := by
    rw [hid]
    exact (h.knows id t ht hmoved).last.trans hlast
  have hclock : last ≤ b.clock := by
    unfold Book.last at hlast
    obtain ⟨fire, hfire, rfl⟩ := Option.map_eq_some_iff.mp hlast
    exact h.book.clock fire (List.mem_of_find?_eq_some hfire)
  unfold TriggerEngine.isCooling at hcooling
  rw [hknown, Option.any_some, Bool.and_eq_false_iff, decide_eq_false_iff_not,
    decide_eq_false_iff_not, not_not, Int.not_lt] at hcooling
  obtain hzero | hdone := hcooling
  · rw [hzero, Int.natCast_zero, Int.zero_mul, Int.add_zero]
    exact hclock
  · rw [max_eq_left (Int.sub_nonneg_of_le hclock)] at hdone
    exact Int.add_le_of_le_sub_left hdone

variable {resolveName : AgentId → Option String}

theorem spaced_fireOne {ev : Evaluation} {event : Event} {now : Time} (hspaced : b.Spaced)
    (h : Sound ⟨ev.engine, b⟩) (hclock : b.clock = now)
    (hdefault : ev.engine.defaultCooldownSecs = d.engine.defaultCooldownSecs)
    (hrested : Rested host d (.evaluate event now resolveName))
    (ht : ev.engine.triggers.lookup id = some t) (hunvisited : Unvisited d ev.engine b id t)
    (henabled : t.enabled = true) (hfresh : t.isExhausted = false)
    (hcooling : ev.engine.isCooling t now = false)
    (hmatches : matchesPattern host t.pattern event (t.agentId, resolveName t.agentId) = true) :
    (b.fire d.engine.cooldownOf now id).Spaced := by
  subst hclock
  have hcooldown : ev.engine.cooldown t = d.engine.cooldown t := by
    unfold TriggerEngine.cooldown
    rw [hdefault]
  have hstored : d.engine.cooldownOf id = d.engine.cooldown t := by
    unfold TriggerEngine.cooldownOf
    rw [hunvisited.stored, Option.elim_some]
  refine hspaced.fire h.book d.engine.cooldownOf fun last hlast => ?_
  rw [hstored]
  cases hmoved : b.moved id with
  | false =>
    rw [← hcooldown]
    exact rested_of_not_isCooling h ht hmoved hcooling hlast
  | true =>
    exact hrested id t hunvisited.stored (hunvisited.moved.symm.trans hmoved) henabled hfresh
      hmatches last (hunvisited.last.symm.trans hlast)

theorem Unvisited.fire {key : TriggerId} (h : Sound ⟨e, b⟩) (ht : e.triggers.lookup id = some t)
    (ht' : e.triggers.lookup key = some t') (hne : key ≠ id) (cooldown : TriggerId → ℕ) (now : Time)
    (hunvisited : Unvisited d e b key t') : Unvisited d e' (b.fire cooldown now id) key t' := by
  obtain ⟨hlive, hid⟩ := h.id_of_lookup ht
  obtain ⟨hlive', hid'⟩ := h.id_of_lookup ht'
  refine ⟨hunvisited.stored, (Function.update_of_ne hne _ _).trans hunvisited.moved, ?_⟩
  have horigin : b.origin id ≠ b.origin key := by
    intro heq
    rw [← hid, ← hid'] at heq
    exact hne (hid'.symm.trans ((h.origins t t' hlive hlive' heq).symm.trans hid))
  exact (last_fire ..).trans ((if_neg horigin).trans hunvisited.last)

theorem sound_evaluateLoop {event : Event} {now : Time}
    (ids : List TriggerId) (hnodup : ids.Nodup) (ev : Evaluation) (b₀ : Book) (hclock : b₀.clock = now)
    (hdefault : ev.engine.defaultCooldownSecs = d.engine.defaultCooldownSecs)
    (h : Sound ⟨ev.engine, ev.log.foldl (Book.fire d.engine.cooldownOf now) b₀⟩)
    (hsame : ∀ id ∈ ids, ∀ t, ev.engine.triggers.lookup id = some t →
      Unvisited d ev.engine (ev.log.foldl (Book.fire d.engine.cooldownOf now) b₀) id t) :
    Sound ⟨(evaluateLoop host event now resolveName ev ids).engine,
      (evaluateLoop host event now resolveName ev ids).log.foldl
        (Book.fire d.engine.cooldownOf now) b₀⟩ ∧
    (Rested host d (.evaluate event now resolveName) →
      (ev.log.foldl (Book.fire d.engine.cooldownOf now) b₀).Spaced →
        ((evaluateLoop host event now resolveName ev ids).log.foldl
          (Book.fire d.engine.cooldownOf now) b₀).Spaced) := by
  induction ids generalizing ev with
  | nil => exact ⟨h, fun _ hspaced => hspaced⟩
  | cons id ids ih =>
    obtain ⟨hid, hnodup⟩ := List.nodup_cons.mp hnodup
    have hrest : ∀ id ∈ ids, ∀ t, ev.engine.triggers.lookup id = some t →
        Unvisited d ev.engine (ev.log.foldl (Book.fire d.engine.cooldownOf now) b₀) id t :=
      fun id' hid' => hsame id' (List.mem_cons_of_mem _ hid')
    have hne (id' : TriggerId) (hid' : id' ∈ ids) : id' ≠ id := fun heq => hid (heq ▸ hid')
    unfold evaluateLoop
    split
    · exact ih hnodup ev hdefault h hrest
    · next t ht =>
      split
      · exact ih hnodup ev hdefault h hrest
      next henabled =>
      split
      · -- the trigger is disabled
        refine ih hnodup (ev.exhaust id) hdefault (sound_exhaust h id) fun id' hid' t' ht' => ?_
        obtain ⟨hstored, hmoved, hlast⟩ := hrest id' hid' t'
          ((Table.lookup_modify_ne _ (hne id' hid')).symm.trans ht')
        exact ⟨hstored, hmoved, hlast⟩
      next hfresh =>
      split
      · exact ih hnodup ev hdefault h hrest
      next hcooling =>
      split
      · next hmatches =>
        split
        · exact ⟨h, fun _ hspaced => hspaced⟩
        · have hbook : (ev.fire id t event now).log.foldl (Book.fire d.engine.cooldownOf now) b₀ =
              (ev.log.foldl (Book.fire d.engine.cooldownOf now) b₀).fire d.engine.cooldownOf now
                id := List.foldl_append
          have hnow : (ev.log.foldl (Book.fire d.engine.cooldownOf now) b₀).clock = now :=
            (clock_foldl_fire ..).trans hclock
          have hfired : Sound ⟨(ev.fire id t event now).engine,
              (ev.fire id t event now).log.foldl (Book.fire d.engine.cooldownOf now) b₀⟩ := by
            rw [hbook]
            have hfire := h.fire ht (Bool.eq_false_iff.mpr hfresh) d.engine.cooldownOf
            rwa [hnow] at hfire
          have hleft (id' : TriggerId) (hid' : id' ∈ ids) (t' : Trigger)
              (ht' : (ev.fire id t event now).engine.triggers.lookup id' = some t') :
              Unvisited d (ev.fire id t event now).engine
                ((ev.fire id t event now).log.foldl (Book.fire d.engine.cooldownOf now) b₀)
                id' t' := by
            have hold : ev.engine.triggers.lookup id' = some t' :=
              (Table.lookup_modify_ne _ (hne id' hid')).symm.trans ht'
            rw [hbook]
            exact .fire h ht hold (hne id' hid') _ now (hrest id' hid' t' hold)
          obtain ⟨hsound, hloop⟩ := ih hnodup (ev.fire id t event now) hdefault hfired hleft
          refine ⟨hsound, fun hrested hspaced => hloop hrested ?_⟩
          rw [hbook]
          exact spaced_fireOne hspaced h hnow hdefault hrested ht (hsame id List.mem_cons_self t ht)
            (not_not.mp henabled) (Bool.eq_false_iff.mpr hfresh) (Bool.eq_false_iff.mpr hcooling)
            hmatches
      · exact ih hnodup ev hdefault h hrest

theorem sound_evaluate {event : Event} {now : Time} (h : Sound d) (hclock : d.book.clock ≤ now) :
    Sound (perform host d (.evaluate event now resolveName)) ∧
      (Rested host d (.evaluate event now resolveName) → d.book.Spaced →
        (perform host d (.evaluate event now resolveName)).book.Spaced) := by
  have hnodup : d.engine.sortedIds.Nodup := by
    unfold TriggerEngine.sortedIds
    exact (List.perm_insertionSort _ _).nodup_iff.mpr d.engine.triggers.keys_nodup
  have hstart : Sound ⟨d.engine, { d.book with clock := now }⟩ :=
    { h with
      book := { h.book with clock := fun fire hfire => (h.book.clock fire hfire).trans hclock }
      knows := fun id t ht hmoved => ⟨(h.knows id t ht hmoved).last, (h.knows id t ht hmoved).stamped⟩ }
  exact sound_evaluateLoop _ hnodup ⟨d.engine, [], false, []⟩ _ rfl rfl hstart
    fun id _ t ht => ⟨ht, rfl, rfl⟩

theorem sound_perform {op : Op} (h : Sound d) (hallowed : Allowed d op) :
    Sound (perform host d op) := by
  cases op with
  | register id now agentId pattern promptTemplate maxFires targetAgent cooldownSecs sessionMode =>
    have hstored : Sound ⟨d.engine.store ⟨id, agentId, pattern, promptTemplate, true, now, 0,
        maxFires, targetAgent, cooldownSecs, sessionMode, none⟩, d.book.register id maxFires⟩ :=
      h.store (t := ⟨id, _, _, _, _, _, _, _, _, _, _, _⟩) hallowed rfl rfl rfl
    exact hstored.index rfl rfl
  | evaluate event now resolveName => exact (sound_evaluate h hallowed).1
  | setEnabled id enabled => exact sound_setEnabled h id enabled
  | update id patch => exact sound_update h hallowed
  | persistAndLoad config => exact sound_persistAndLoad h config
  | take agentId => exact sound_take h agentId
  | restore newAgentId picks => exact sound_restore picks h hallowed
  | remove id => exact sound_remove h id
  | removeAgentTriggers agentId => exact sound_removeAgentTriggers h agentId
  | reassignAgentTriggers oldAgentId newAgentId =>
    exact sound_reassignAgentTriggers h oldAgentId newAgentId

theorem fires_limit (b : Book) (id : TriggerId) (maxFires : UInt64) :
    (b.limit id maxFires).fires = b.fires := by
  unfold Book.limit
  split <;> rfl

theorem fires_foldl_handBack (picks : List (Trigger × TriggerId)) (b : Book) :
    (picks.foldl Book.handBack b).fires = b.fires := by
  induction picks generalizing b with
  | nil => rfl
  | cons pick picks ih => exact ih _

theorem spaced_perform {op : Op} (h : Sound d) (hspaced : d.book.Spaced) (hallowed : Allowed d op)
    (hrested : Rested host d op) : (perform host d op).book.Spaced := by
  cases op with
  | evaluate event now resolveName => exact (sound_evaluate h hallowed).2 hrested hspaced
  | update id patch =>
    have hfires : (perform host d (.update id patch)).book.fires = d.book.fires := by
      unfold perform
      dsimp only
      split
      · cases patch.maxFires with
        | none => rfl
        | some maxFires => exact fires_limit ..
      · rfl
    unfold Book.Spaced
    rwa [hfires]
  | restore newAgentId picks =>
    have hfires : (perform host d (.restore newAgentId picks)).book.fires = d.book.fires :=
      fires_foldl_handBack picks d.book
    unfold Book.Spaced
    rwa [hfires]
  | _ => exact hspaced

end Steps

/-- **The limits hold over whole runs.** From a new engine, in every state of an allowed run, a
trigger with a limit that is not raised has not fired more often; if no event has found a moved
trigger in its cooldown, no two fires of a trigger are closer than its cooldown either. -/
theorem withinLimits_of_rested (config : TriggersConfig) (start : Time) (ops : List Op)
    (hallowed : Along (perform host) Allowed (.new config start) ops) :
    ∀ before rest, ops = before ++ rest →
      (∀ origin m, (after (perform host) (.new config start) before).book.bound origin = some m →
        (after (perform host) (.new config start) before).book.count origin ≤ m.toNat) ∧
      (Along (perform host) (Rested host) (.new config start) before →
        WithinLimits (after (perform host) (.new config start) before)) := by
  rintro before rest rfl
  have hnew : Sound (.new config start) :=
    { book := ⟨nofun, .nil, nofun, nofun⟩
      keyed := fun _ _ ht => by cases ht
      issued := fun t ht => by rcases ht with ht | ht <;> cases ht
      counts := fun t ht => by rcases ht with ht | ht <;> cases ht
      origins := fun t _ ht => by rcases ht with ht | ht <;> cases ht
      knows := fun _ _ ht => by cases ht
      times := fun _ _ => rfl
      apart := fun _ ht => by cases ht
      once := .nil }
  have hbefore := ((along_append _).mp hallowed).1
  have hsound := invariant (fun _ _ h hP => sound_perform h hP) hnew hbefore
  refine ⟨hsound.book.bound, fun hrested => ?_⟩
  have hstep (d : Daemon) (op : Op) (h : Sound d ∧ d.book.Spaced)
      (hP : Allowed d op ∧ Rested host d op) :
      Sound (perform host d op) ∧ (perform host d op).book.Spaced :=
    ⟨sound_perform h.1 hP.1, spaced_perform h.1 h.2 hP.1 hP.2⟩
  have hspaced := invariant hstep ⟨hnew, List.Pairwise.nil⟩ (along_and _ hbefore hrested)
  exact ⟨hspaced.2, hsound.book.bound⟩

/-! ## A trigger that moves -/

/-- Surroundings in which texts are compared as they are. -/
def plainHost : Host := ⟨fun text => text⟩

/-- An event that only matches the pattern for everything. -/
def ping : Event := ⟨.other, "ping"⟩

/-- A trigger for every event, with the default cooldown of five seconds, after its first fire. -/
def onPing : Trigger :=
  ⟨1, "a", .all, "go", true, 0, 1, 3, none, none, none, none⟩

/-- The trigger fires, moves from agent `a` to agent `b`, and sees the event again after a time. -/
def moveAndPing (secs : ℤ) : List Op :=
  [.register 1 0 "a" .all "go" 3 none none none, .evaluate ping 0 fun _ => none, .take "a",
    .restore "b" [(onPing, 2)], .evaluate ping (secs * second) fun _ => none]

theorem withinLimits_after_six :
    WithinLimits (after (perform plainHost) (.new ⟨10, 5⟩ 0) (moveAndPing 6)) := by
  refine (withinLimits_of_rested plainHost ⟨10, 5⟩ 0 _ ?_ _ [] (List.append_nil _).symm).2 ?_
  · refine ⟨nofun, Int.le_refl 0, trivial, ⟨?_, by decide, by decide, by decide⟩, ?_,
      trivial⟩
    · intro pick hpick
      obtain rfl := List.mem_singleton.mp hpick
      exact List.mem_singleton.mpr rfl
    · exact show (0 : ℤ) ≤ 6 * second by decide
  · refine ⟨trivial, ?_, trivial, trivial, ?_, trivial⟩
    · rintro id t - - - - - last hlast
      cases hlast
    · intro id t ht _ _ _ _ last hlast
      obtain ⟨rfl, rfl⟩ : id = 2 ∧ t = { onPing with id := 2, agentId := "b" } := by
        have hmem := AList.mem_lookup_iff.mp ht
        have hentries := List.mem_singleton.mp hmem
        cases hentries
        exact ⟨rfl, rfl⟩
      obtain rfl : 0 = last := Option.some.inj hlast
      decide

/-- After one second it fires again, though its cooldown is five seconds. -/
theorem moved_fires_in_cooldown :
    ¬ WithinLimits (after (perform plainHost) (.new ⟨10, 5⟩ 0) (moveAndPing 1)) := by
  rintro ⟨hpairs, -⟩
  have hfires : (after (perform plainHost) (.new ⟨10, 5⟩ 0) (moveAndPing 1)).book.fires =
      [⟨1, second, 5⟩, ⟨1, 0, 5⟩] := rfl
  rw [hfires] at hpairs
  exact absurd hpairs (by decide)

end LibreFang.Triggers
