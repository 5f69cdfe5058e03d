import LibreFang.Triggers.Index

/-!
# Which triggers an event fires

* `Answers`: the trigger is enabled, may fire, is out of its cooldown and matches the event;
  `answering`: the ids of these triggers in ascending order.
* `Underway`: the invariant of the loop; **`underway_evaluateLoop`**: it takes a part of the
  answering ids from the front.
* **`selects_change`**: in every state of a run, an evaluation selects what is declared.
-/

namespace LibreFang.Triggers

open Runs

variable (host : Host) (e : TriggerEngine) (event : Event) (now : Time)
  (resolveName : AgentId → Option String)

/-! ## What is declared -/

/-- The event would fire the trigger if it had no budget. -/
def Answers (t : Trigger) : Prop :=
  t.enabled = true ∧ t.isExhausted = false ∧ e.isCooling t now = false ∧
    matchesPattern host t.pattern event (t.agentId, resolveName t.agentId) = true

instance (t : Trigger) : Decidable (Answers host e event now resolveName t) :=
  inferInstanceAs (Decidable (_ ∧ _ ∧ _ ∧ _))

/-- The id of a stored trigger that answers. -/
def answersId (id : TriggerId) : Bool :=
  (e.triggers.lookup id).any fun t => decide (Answers host e event now resolveName t)

/-- The ids of the triggers that answer, in ascending order. -/
def answering : List TriggerId := e.sortedIds.filter (answersId host e event now resolveName)

/-- A trigger that has fired once more. -/
def Trigger.fired (t : Trigger) : Trigger := { t with fireCount := t.fireCount + 1 }

/-- The evaluation fires the first of the answering triggers, as many as the budget allows. -/
structure Selects (ev : Evaluation) (ids : List TriggerId) : Prop where
  /-- The answering ids are in ascending order. -/
  ascending : ids.Pairwise (· < ·)
  /-- They are those of the triggers that answer. -/
  answering : ∀ id, id ∈ ids ↔
    ∃ t, e.triggers.lookup id = some t ∧ Answers host e event now resolveName t
  /-- The matches are the messages of the first of them, in order. -/
  messages : List.Forall₂ (fun id m => ∃ t, e.triggers.lookup id = some t ∧ m = t.message event)
    (ids.take e.maxTriggersPerEvent) ev.matches_
  /-- Each of these has fired once more, at this time. -/
  fired : ∀ id ∈ ids.take e.maxTriggersPerEvent, ∃ t, e.triggers.lookup id = some t ∧
    ev.engine.triggers.lookup id = some t.fired ∧ ev.engine.lastFired.lookup id = some now
  /-- No other has: it is as it was, or it was used up and is disabled. -/
  others : ∀ id ∉ ids.take e.maxTriggersPerEvent,
    ev.engine.lastFired.lookup id = e.lastFired.lookup id ∧
      (ev.engine.triggers.lookup id = e.triggers.lookup id ∨
        ∃ t, e.triggers.lookup id = some t ∧ t.enabled = true ∧ t.isExhausted = true ∧
          ev.engine.triggers.lookup id = some { t with enabled := false })
  /-- The flag says whether the file changes. -/
  mutated : ev.stateMutated = true ↔ persisted ev.engine ≠ persisted e

/-! ## The loop -/

/-- What holds of an evaluation that has still to visit some ids. -/
structure Underway (ev : Evaluation) (ids : List TriggerId) : Prop where
  budget : ev.engine.maxTriggersPerEvent = e.maxTriggersPerEvent
  cooldown : ev.engine.defaultCooldownSecs = e.defaultCooldownSecs
  unvisited : ∀ id ∈ ids, id ∉ ev.log ∧
    ev.engine.triggers.lookup id = e.triggers.lookup id ∧
      ev.engine.lastFired.lookup id = e.lastFired.lookup id
  messages : List.Forall₂ (fun id m => ∃ t, e.triggers.lookup id = some t ∧ m = t.message event)
    ev.log ev.matches_
  fired : ∀ id ∈ ev.log, ∃ t, e.triggers.lookup id = some t ∧
    ev.engine.triggers.lookup id = some t.fired ∧ ev.engine.lastFired.lookup id = some now
  others : ∀ id ∉ ev.log, ev.engine.lastFired.lookup id = e.lastFired.lookup id ∧
    (ev.engine.triggers.lookup id = e.triggers.lookup id ∨
      ∃ t, e.triggers.lookup id = some t ∧ t.enabled = true ∧ t.isExhausted = true ∧
        ev.engine.triggers.lookup id = some { t with enabled := false })
  same : ev.stateMutated = false → ev.engine = e
  changed : ev.stateMutated = true → ∃ id ∉ ids, ∃ t t', e.triggers.lookup id = some t ∧
    ev.engine.triggers.lookup id = some t' ∧
      (t'.fireCount ≠ t.fireCount ∨ t'.enabled ≠ t.enabled)

section Loop

variable {host e event now resolveName} {ev : Evaluation} {id : TriggerId} {ids : List TriggerId}
  {t : Trigger}

theorem Underway.skip (h : Underway e event now ev (id :: ids)) : Underway e event now ev ids :=
  { h with
    unvisited := fun id' hid' => h.unvisited id' (List.mem_cons_of_mem _ hid')
    changed := fun hmutated => by
      obtain ⟨id', hid', hdiffers⟩ := h.changed hmutated
      exact ⟨id', fun hmem => hid' (List.mem_cons_of_mem _ hmem), hdiffers⟩ }

theorem Underway.stop (h : Underway e event now ev ids) : Underway e event now ev [] :=
  { h with
    unvisited := fun _ hid => nomatch hid
    changed := fun hmutated => by
      obtain ⟨id', -, hdiffers⟩ := h.changed hmutated
      exact ⟨id', List.not_mem_nil, hdiffers⟩ }

theorem fireCount_fired (t : Trigger) : t.fired.fireCount ≠ t.fireCount := by
  intro h
  exact absurd (UInt64.add_eq_left.mp h) (by decide)

theorem Underway.exhaust (h : Underway e event now ev (id :: ids)) (hid : id ∉ ids)
    (ht : ev.engine.triggers.lookup id = some t) (henabled : t.enabled = true)
    (hexhausted : t.isExhausted = true) : Underway e event now (ev.exhaust id) ids := by
  obtain ⟨hlog, hsame, -⟩ := h.unvisited id List.mem_cons_self
  have hnew : (ev.exhaust id).engine.triggers.lookup id = some { t with enabled := false } := by
    refine (Table.lookup_modify_self ..).trans ?_
    rw [ht]
    rfl
  have hother (key : TriggerId) (hkey : key ≠ id) :
      (ev.exhaust id).engine.triggers.lookup key = ev.engine.triggers.lookup key :=
    Table.lookup_modify_ne _ hkey
  refine
    { budget := h.budget
      cooldown := h.cooldown
      unvisited := fun key hkey => ?_
      messages := h.messages
      fired := fun key hkey => ?_
      others := fun key hkey => ?_
      same := fun hmutated => nomatch hmutated
      changed := fun _ => ?_ }
  · obtain ⟨hkeylog, hkeysame, hkeylast⟩ := h.unvisited key (List.mem_cons_of_mem _ hkey)
    refine ⟨hkeylog, (hother key ?_).trans hkeysame, hkeylast⟩
    rintro rfl
    exact hid hkey
  · obtain ⟨u, hu, hfired, hlast⟩ := h.fired key hkey
    refine ⟨u, hu, (hother key ?_).trans hfired, hlast⟩
    rintro rfl
    exact hlog hkey
  · obtain ⟨hlast, hkept⟩ := h.others key hkey
    refine ⟨hlast, ?_⟩
    by_cases heq : key = id
    · subst heq
      exact .inr ⟨t, hsame.symm.trans ht, henabled, hexhausted, hnew⟩
    · rw [hother key heq]
      exact hkept
  · refine ⟨id, hid, t, _, hsame.symm.trans ht, hnew, .inr ?_⟩
    rw [henabled]
    exact Bool.false_ne_true

theorem Underway.fire (h : Underway e event now ev (id :: ids)) (hid : id ∉ ids)
    (ht : ev.engine.triggers.lookup id = some t) (hkey : t.id = id) :
    Underway e event now (ev.fire id t event now) ids := by
  obtain ⟨hlog, hsame, -⟩ := h.unvisited id List.mem_cons_self
  have hnew : (ev.fire id t event now).engine.triggers.lookup id = some t.fired := by
    refine (Table.lookup_modify_self ..).trans ?_
    rw [ht]
    rfl
  have hother (key : TriggerId) (hne : key ≠ id) :
      (ev.fire id t event now).engine.triggers.lookup key = ev.engine.triggers.lookup key ∧
        (ev.fire id t event now).engine.lastFired.lookup key = ev.engine.lastFired.lookup key :=
    ⟨Table.lookup_modify_ne _ hne, AList.lookup_insert_ne (hkey ▸ hne)⟩
  have hstored : e.triggers.lookup id = some t := hsame.symm.trans ht
  refine
    { budget := h.budget
      cooldown := h.cooldown
      unvisited := fun key hmem => ?_
      messages := ?_
      fired := fun key hmem => ?_
      others := fun key hmem => ?_
      same := fun hmutated => nomatch hmutated
      changed := fun _ => ?_ }
  · obtain ⟨hkeylog, hkeysame, hkeylast⟩ := h.unvisited key (List.mem_cons_of_mem _ hmem)
    have hne : key ≠ id := fun heq => hid (heq ▸ hmem)
    refine ⟨fun hfired => ?_, (hother key hne).1.trans hkeysame, (hother key hne).2.trans hkeylast⟩
    obtain hold | hnow := List.mem_append.mp hfired
    · exact hkeylog hold
    · exact hne (List.mem_singleton.mp hnow)
  · exact List.rel_append h.messages (.cons ⟨t, hstored, rfl⟩ .nil)
  · by_cases heq : key = id
    · subst heq
      exact ⟨t, hstored, hnew, hkey ▸ AList.lookup_insert _⟩
    · obtain ⟨u, hu, hfired, hlast⟩ := h.fired key
        ((List.mem_append.mp hmem).resolve_right fun hnow => heq (List.mem_singleton.mp hnow))
      exact ⟨u, hu, (hother key heq).1.trans hfired, (hother key heq).2.trans hlast⟩
  · have hne : key ≠ id := fun heq =>
      hmem (List.mem_append.mpr (.inr (List.mem_singleton.mpr heq)))
    obtain ⟨hlast, hkept⟩ := h.others key fun hold => hmem (List.mem_append.mpr (.inl hold))
    refine ⟨(hother key hne).2.trans hlast, ?_⟩
    rw [(hother key hne).1]
    exact hkept
  · refine ⟨id, hid, t, _, hstored, hnew, .inl ?_⟩
    exact fireCount_fired t

theorem isCooling_congr {e' : TriggerEngine}
    (hdefault : e'.defaultCooldownSecs = e.defaultCooldownSecs)
    (hlast : e'.lastFired.lookup t.id = e.lastFired.lookup t.id) :
    e'.isCooling t now = e.isCooling t now := by
  unfold TriggerEngine.isCooling TriggerEngine.cooldown
  rw [hdefault, hlast]

theorem answersId_of_lookup (ht : e.triggers.lookup id = some t) :
    answersId host e event now resolveName id =
      decide (Answers host e event now resolveName t) := by
  unfold answersId
  rw [ht]
  rfl

/-- **The loop fires the answering triggers from the front** until the budget is used up. -/
theorem underway_evaluateLoop (hkeyed : e.triggers.Forall fun id t => t.id = id)
    (h : Underway e event now ev ids) (hnodup : ids.Nodup) :
    Underway e event now (evaluateLoop host event now resolveName ev ids) [] ∧
      (evaluateLoop host event now resolveName ev ids).log = ev.log ++
        (ids.filter (answersId host e event now resolveName)).take
          (e.maxTriggersPerEvent - ev.log.length) := by
  induction ids generalizing ev with
  | nil => exact ⟨h, by rw [List.filter_nil, List.take_nil, List.append_nil]; rfl⟩
  | cons id ids ih =>
    obtain ⟨hid, hnodup⟩ := List.nodup_cons.mp hnodup
    obtain ⟨-, hsame, hlast⟩ := h.unvisited id List.mem_cons_self
    unfold evaluateLoop
    split
    · next hnone =>
      have hquiet : answersId host e event now resolveName id = false := by
        unfold answersId
        rw [← hsame, hnone]
        rfl
      rw [List.filter_cons_of_neg (Bool.not_eq_true _ ▸ hquiet)]
      exact ih h.skip hnodup
    next t ht =>
    have hstored : e.triggers.lookup id = some t := hsame.symm.trans ht
    have hkey : t.id = id := hkeyed id t hstored
    have hcooling : ev.engine.isCooling t now = e.isCooling t now :=
      isCooling_congr h.cooldown (hkey.symm ▸ hlast)
    have hquiet (hnot : ¬ Answers host e event now resolveName t) :
        ¬ answersId host e event now resolveName id = true := by
      rw [answersId_of_lookup hstored, decide_eq_true_eq]
      exact hnot
    split
    · next henabled =>
      rw [List.filter_cons_of_neg (hquiet fun ha => henabled ha.1)]
      exact ih h.skip hnodup
    next henabled =>
    split
    · next hexhausted =>
      rw [List.filter_cons_of_neg (hquiet fun ha =>
        Bool.false_ne_true (ha.2.1.symm.trans hexhausted))]
      exact ih (h.exhaust hid ht (not_not.mp henabled) hexhausted) hnodup
    next hexhausted =>
    split
    · next hcool =>
      rw [List.filter_cons_of_neg (hquiet fun ha =>
        Bool.false_ne_true (ha.2.2.1.symm.trans (hcooling.symm.trans hcool)))]
      exact ih h.skip hnodup
    next hcool =>
    split
    · next hmatches =>
      have hanswers : answersId host e event now resolveName id = true := by
        rw [answersId_of_lookup hstored, decide_eq_true_eq]
        exact ⟨not_not.mp henabled, Bool.eq_false_iff.mpr hexhausted,
          hcooling.symm.trans (Bool.eq_false_iff.mpr hcool), hmatches⟩
      rw [List.filter_cons_of_pos hanswers]
      split
      · next hfull =>
        refine ⟨h.stop, ?_⟩
        rw [h.budget, ← h.messages.length_eq] at hfull
        rw [Nat.sub_eq_zero_of_le hfull, List.take_zero, List.append_nil]
      · next hroom =>
        obtain ⟨hdone, hlog⟩ := ih (h.fire hid ht hkey) hnodup
        refine ⟨hdone, hlog.trans ?_⟩
        rw [h.budget, ← h.messages.length_eq, Nat.not_le] at hroom
        obtain ⟨n, hn⟩ := Nat.exists_eq_add_of_lt hroom
        have hlength : (ev.fire id t event now).log.length = ev.log.length + 1 := List.length_append
        rw [hlength, show e.maxTriggersPerEvent - ev.log.length = n + 1 by omega,
          show e.maxTriggersPerEvent - (ev.log.length + 1) = n by omega, List.take_succ_cons]
        exact List.append_assoc ev.log [id] _
    · next hmatches =>
      rw [List.filter_cons_of_neg (hquiet fun ha => hmatches ha.2.2.2)]
      exact ih h.skip hnodup

end Loop

/-! ## The order of the ids and the file -/

section File

variable {e} {e' : TriggerEngine} {id : TriggerId} {t t' : Trigger}

theorem mem_sortedIds : id ∈ e.sortedIds ↔ ∃ t, e.triggers.lookup id = some t := by
  unfold TriggerEngine.sortedIds
  rw [List.mem_insertionSort, List.mem_map]
  constructor
  · rintro ⟨⟨key, t⟩, hentry, rfl⟩
    exact ⟨t, AList.mem_lookup_iff.mpr hentry⟩
  · rintro ⟨t, ht⟩
    exact ⟨⟨id, t⟩, AList.mem_lookup_iff.mp ht, rfl⟩

theorem nodup_sortedIds (e : TriggerEngine) : e.sortedIds.Nodup :=
  (List.perm_insertionSort _ _).nodup_iff.mpr e.triggers.keys_nodup

theorem ascending_sortedIds (e : TriggerEngine) : e.sortedIds.Pairwise (· < ·) := by
  have hle : e.sortedIds.Pairwise (· ≤ ·) := List.pairwise_insertionSort _ _
  exact (hle.and (nodup_sortedIds e)).imp fun h => Nat.lt_of_le_of_ne h.1 h.2

theorem mem_persisted_of_lookup (ht : e.triggers.lookup id = some t) : e.stamp t ∈ persisted e :=
  List.mem_map.mpr ⟨⟨id, t⟩, AList.mem_lookup_iff.mp ht, rfl⟩

theorem persisted_ne_of_differs (hkeyed : e'.triggers.Forall fun id t => t.id = id)
    (hid : t.id = id) (ht : e.triggers.lookup id = some t) (ht' : e'.triggers.lookup id = some t')
    (hdiffers : t'.fireCount ≠ t.fireCount ∨ t'.enabled ≠ t.enabled) :
    persisted e' ≠ persisted e := by
  intro hfile
  have hmem := mem_persisted_of_lookup ht
  rw [← hfile] at hmem
  obtain ⟨⟨key, u⟩, hentry, hu⟩ := List.mem_map.mp hmem
  have hlookup : e'.triggers.lookup key = some u := AList.mem_lookup_iff.mpr hentry
  have hsame {α : Type} (field : Trigger → α) : field (e'.stamp u) = field (e.stamp t) :=
    congrArg field hu
  obtain rfl : key = id := by
    rw [← hkeyed key u hlookup, ← hid]
    exact hsame Trigger.id
  obtain rfl := Option.some.inj (ht'.symm.trans hlookup)
  obtain hcount | hflag := hdiffers
  · exact hcount (hsame Trigger.fireCount)
  · exact hflag (hsame Trigger.enabled)

end File

/-! ## Evaluations -/

section Evaluate

variable {host e event now resolveName}

theorem keyed_evaluateLoop (ids : List TriggerId) {ev : Evaluation}
    (h : ev.engine.triggers.Forall fun id t => t.id = id) :
    (evaluateLoop host event now resolveName ev ids).engine.triggers.Forall
      fun id t => t.id = id := by
  induction ids generalizing ev with
  | nil => exact h
  | cons id ids ih =>
    unfold evaluateLoop
    split
    · exact ih h
    split_ifs
    · exact ih (h.modify fun _ ht => ht)
    · exact ih h
    · exact h
    · exact ih (h.modify fun _ ht => ht)
    · exact ih h
    · exact ih h

theorem selects_evaluate (hkeyed : e.triggers.Forall fun id t => t.id = id) :
    Selects host e event now resolveName (evaluateWithResolver host e event now resolveName)
      (answering host e event now resolveName) := by
  have hstart : Underway e event now ⟨e, [], false, []⟩ e.sortedIds :=
    { budget := rfl
      cooldown := rfl
      unvisited := fun _ _ => ⟨List.not_mem_nil, rfl, rfl⟩
      messages := .nil
      fired := fun _ hid => nomatch hid
      others := fun _ _ => ⟨rfl, .inl rfl⟩
      same := fun _ => rfl
      changed := fun hmutated => nomatch hmutated }
  obtain ⟨hdone, hlog⟩ :=
    @underway_evaluateLoop host e event now resolveName _ _ hkeyed hstart (nodup_sortedIds e)
  have hlog : (evaluateWithResolver host e event now resolveName).log =
      (answering host e event now resolveName).take e.maxTriggersPerEvent := hlog
  refine
    { ascending := (ascending_sortedIds e).filter _
      answering := fun id => ?_
      messages := hlog ▸ hdone.messages
      fired := fun id hid => hdone.fired id (hlog.symm ▸ hid)
      others := fun id hid => hdone.others id (hlog.symm ▸ hid)
      mutated := ⟨fun hmutated => ?_, fun hfile => ?_⟩ }
  · unfold answering
    rw [List.mem_filter, mem_sortedIds]
    constructor
    · rintro ⟨⟨t, ht⟩, hanswers⟩
      rw [answersId_of_lookup ht, decide_eq_true_eq] at hanswers
      exact ⟨t, ht, hanswers⟩
    · rintro ⟨t, ht, hanswers⟩
      rw [answersId_of_lookup ht, decide_eq_true_eq]
      exact ⟨⟨t, ht⟩, hanswers⟩
  · obtain ⟨id, -, t, t', ht, ht', hdiffers⟩ := hdone.changed hmutated
    exact persisted_ne_of_differs (keyed_evaluateLoop _ hkeyed) (hkeyed id t ht) ht ht' hdiffers
  · by_contra hmutated
    have hsame := hdone.same (Bool.eq_false_iff.mpr hmutated)
    exact hfile (congrArg persisted hsame)

end Evaluate

/-! ## Runs -/

section Runs

variable {host e} {e' : TriggerEngine}

theorem keyed_of_lookups (h : e.triggers.Forall fun id t => t.id = id)
    (hlookup : ∀ id t, e'.triggers.lookup id = some t → e.triggers.lookup id = some t) :
    e'.triggers.Forall fun id t => t.id = id :=
  fun id t ht => h id t (hlookup id t ht)

theorem Dropped.keyed {ids : List TriggerId} (hdropped : Dropped e ids e')
    (h : e.triggers.Forall fun id t => t.id = id) : e'.triggers.Forall fun id t => t.id = id := by
  refine keyed_of_lookups h fun id t ht => ?_
  rw [hdropped.triggers] at ht
  split at ht
  · cases ht
  · exact ht

theorem keyed_load (file : List Trigger) (h : e.triggers.Forall fun id t => t.id = id) :
    (load e file).triggers.Forall fun id t => t.id = id := by
  induction file generalizing e with
  | nil => exact h
  | cons t file ih =>
    refine ih fun key t' ht' => ?_
    obtain ⟨rfl, rfl⟩ | ⟨-, hold⟩ := lookup_loadTrigger ht'
    · rfl
    · exact h key t' hold

theorem keyed_restoreTriggers (newAgentId : AgentId) (picks : List (Trigger × TriggerId))
    (h : e.triggers.Forall fun id t => t.id = id) :
    (restoreTriggers e newAgentId picks).triggers.Forall fun id t => t.id = id := by
  induction picks generalizing e with
  | nil => exact h
  | cons pick picks ih => exact ih (h.insert rfl)

theorem keyed_change (c : Change) (h : e.triggers.Forall fun id t => t.id = id) :
    (change host e c).triggers.Forall fun id t => t.id = id := by
  cases c with
  | registerWithTarget => exact h.insert rfl
  | remove id =>
    unfold change remove
    dsimp only
    split
    · exact h.erase id
    · exact h
  | removeAgentTriggers agentId =>
    unfold change removeAgentTriggers
    dsimp only
    split
    · exact (dropped_foldl _ _).keyed h
    · exact h
  | takeAgentTriggers agentId => exact (dropped_takeLoop _ _ _).keyed h
  | restoreTriggers newAgentId picks => exact keyed_restoreTriggers newAgentId picks h
  | reassignAgentTriggers oldAgentId newAgentId =>
    have hloop : (reassignLoop newAgentId (e.listed oldAgentId)
        { e with agentTriggers := e.agentTriggers.erase oldAgentId }).triggers.Forall
          fun id t => t.id = id := by
      intro id t' ht'
      rw [lookup_reassignLoop] at ht'
      obtain ⟨t, ht, rfl⟩ := Option.map_eq_some_iff.mp ht'
      rw [apply_ite Trigger.id, ite_self]
      exact h id t ht
    unfold change reassignAgentTriggers
    dsimp only
    split
    · exact hloop
    · exact hloop
  | setEnabled id enabled => exact h.modify fun _ ht => ht
  | update id patch =>
    unfold change update
    dsimp only
    split
    · exact h.modify fun _ ht => ht
    · exact h
  | evaluate event now resolveName => exact keyed_evaluateLoop _ h
  | load file => exact keyed_load file h

theorem keyed_after (cs : List Change) (h : e.triggers.Forall fun id t => t.id = id) :
    (after (change host) e cs).triggers.Forall fun id t => t.id = id := by
  induction cs generalizing e with
  | nil => exact h
  | cons c cs ih => exact ih (keyed_change c h)

/-- **In every state of a run, an event fires the first of the answering triggers**, in ascending
order of their ids, as many as its budget allows, and no other. -/
theorem selects_change (host : Host) (config : TriggersConfig) (cs : List Change) (event : Event)
    (now : Time) (resolveName : AgentId → Option String) :
    Selects host (after (change host) (.withConfig config) cs) event now resolveName
      (evaluateWithResolver host (after (change host) (.withConfig config) cs) event now
        resolveName)
      (answering host (after (change host) (.withConfig config) cs) event now resolveName) :=
  selects_evaluate (keyed_after cs (exact_withConfig config).keyed)

end Runs

end LibreFang.Triggers
