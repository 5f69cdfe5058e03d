import LibreFang.Approval.Tracking

/-!
# Events as steps of an item

What an event does to one request is what the custody of an item allows.

* `Call.Handled`: what a step of a call must not do: be refused another round, or escalate a
  request that it does not find.
* `System.Handled late`: with `late`, an expired call may settle a request that it does not find
  while no call is about to insert it.
* **`item_step`**: an event that is handled is a number of steps of the item.
-/

namespace LibreFang.Approval

open Custody

/-! ## The steps of a call -/

/-- The call is about to put the request in the map. -/
def Call.Puts (id : Uuid) : Call → Prop
  | .request (.limit t) | .request (.persist t) | .request (.insert t) => t.req.id = id
  | .submit (.duplicate req _) | .submit (.limit req _) | .submit (.persist req _)
  | .submit (.insert req _) => req.id = id
  | .sweep (.insert _ id' _) => id' = id
  | _ => False

/-- The step does not refuse a request another round, and an expired call finds its request or
settles it by itself. -/
def Call.Handled (m : ApprovalManager) : Call → Prop
  | .request (.limit t) =>
    t.round = 0 ∨ m.pendingCountForAgent t.req.agentId < maxPendingPerAgent
  | .request (.remove t) =>
    t.req.id ∈ m.pending ∨ timeoutDecision t.req t.fallback ≠ .escalate
  | _ => True

/-- A worker settles what it has not found. -/
def GivesUp (r₀ : Role Verdict) (s₀ : Store Verdict) (r : Role Verdict) (s : Store Verdict) :
    Prop :=
  ∃ d, r₀ = .expired ∧ ¬ s₀.inMap ∧ r = .lateDeleting d ∧ s = s₀

/-- What a step of a call does to a request. -/
def Moves (r₀ : Role Verdict) (s₀ : Store Verdict) (r : Role Verdict) (s : Store Verdict) : Prop :=
  r = r₀ ∧ s = s₀ ∨ Act r₀ s₀ r s ∨ GivesUp r₀ s₀ r s

section Moves

variable {m : ApprovalManager} {k : ℕ} {now : Time} {x : Uuid} {call : Call}

theorem puts_iff : call.Puts x ↔ (call.role x).Lively := by
  unfold Call.role
  cases call with
  | request call =>
    cases call <;> simp only [Call.Puts, Call.subject, RequestCall.subject, Call.kind,
      RequestCall.kind, Option.some.injEq] <;> split_ifs <;> simp_all [Role.Lively]
  | submit call =>
    cases call <;> simp only [Call.Puts, Call.subject, SubmitCall.subject, Call.kind,
      SubmitCall.kind, Option.some.injEq, reduceCtorEq] <;> split_ifs <;> simp_all [Role.Lively]
  | resolve call =>
    unfold Call.Puts Call.subject Call.kind ResolveCall.kind
    dsimp only
    split_ifs
    · split <;> exact Iff.rfl
    · exact Iff.rfl
  | sweep call =>
    cases call <;> simp only [Call.Puts, Call.subject, SweepCall.subject, Call.kind,
      SweepCall.kind, Option.some.injEq, reduceCtorEq] <;> split_ifs <;> simp_all [Role.Lively]
  | gone => exact Iff.rfl

theorem kind_of_idle (h : call.subject = none) : call.kind = .free := by
  cases call with
  | request call => cases h
  | submit call => cases call <;> first | rfl | cases h
  | resolve call =>
    rcases call with _ | _ | _ | _ | _ | _ | _ | ⟨_ | _⟩ <;> first | rfl | cases h
  | sweep call => cases call <;> first | rfl | cases h
  | gone => rfl

/-- The call is busy with no other request. -/
def Call.Only (call : Call) (id : Uuid) : Prop := ∀ y ∈ call.subject, y = id

theorem role_of_only (h : call.Only x) : call.role x = call.kind := by
  cases hs : call.subject with
  | none =>
    rw [kind_of_idle hs]
    exact role_of_ne (by rw [hs]; exact nofun)
  | some y =>
    obtain rfl := h y hs
    exact role_of_subject hs

theorem role_of_other {id : Uuid} (h : call.Only id) (hx : id ≠ x) : call.role x = .free :=
  role_of_ne fun hs => hx (h x hs).symm

theorem only_self {id : Uuid} (h : call.subject = some id) : call.Only id :=
  fun _ hy => Option.some.inj (hy.symm.trans h)

theorem only_idle {id : Uuid} (h : call.subject = none) : call.Only id :=
  fun _ hy => by
    rw [h] at hy
    cases hy

theorem moves_at {call call' : Call} {m' : ApprovalManager} {id : Uuid} (h : call.Only id)
    (h' : call'.Only id) (hstore : ∀ x, id ≠ x → m'.store x = m.store x)
    (hself : Moves call.kind (m.store id) call'.kind (m'.store id)) :
    Moves (call.role x) (m.store x) (call'.role x) (m'.store x) := by
  by_cases hx : id = x
  · subst hx
    rwa [role_of_only h, role_of_only h']
  · exact .inl ⟨by rw [role_of_other h hx, role_of_other h' hx], hstore x hx⟩

theorem moves_of_act {r₀ r : Role Verdict} {s₀ s : Store Verdict} (h : Act r₀ s₀ r s) :
    Moves r₀ s₀ r s := .inr (.inl h)

/-! ### One operation -/

section Operations

variable {call call' : Call} {id : Uuid} (h : call.Only id) (h' : call'.Only id)

include h h'

theorem moves_same (hact : Act call.kind (m.store id) call'.kind (m.store id)) :
    Moves (call.role x) (m.store x) (call'.role x) (m.store x) :=
  moves_at h h' (fun _ _ => rfl) (moves_of_act hact)

theorem moves_delete
    (hact : Act call.kind (m.store id) call'.kind { m.store id with row := False }) :
    Moves (call.role x) (m.store x) (call'.role x) ((m.dbDeletePending id).store x) := by
  apply moves_at h h' fun _ => store_dbDeletePending_ne
  rw [store_dbDeletePending_self]
  exact moves_of_act hact

theorem moves_insert (p : PendingRequest)
    (hact : Act call.kind (m.store id) call'.kind { m.store id with inMap := True }) :
    Moves (call.role x) (m.store x) (call'.role x) ((m.insertPending id p).store x) := by
  apply moves_at h h' fun _ hx => store_insertPending_ne hx p
  rw [store_insertPending_self]
  exact moves_of_act hact

theorem moves_remove
    (hact : Act call.kind (m.store id) call'.kind { m.store id with inMap := False }) :
    Moves (call.role x) (m.store x) (call'.role x) ((m.removePending id).store x) := by
  apply moves_at h h' fun _ => store_removePending_ne
  rw [store_removePending_self]
  exact moves_of_act hact

theorem moves_persist {req : ApprovalRequest} (hreq : req.id = id)
    (hact : Act call.kind (m.store id) call'.kind { m.store id with row := True }) :
    Moves (call.role x) (m.store x) (call'.role x) ((m.dbInsertPending req).store x) := by
  subst hreq
  apply moves_at h h' fun _ => store_dbInsertPending_ne
  rw [store_dbInsertPending_self]
  exact moves_of_act hact

theorem moves_record {req : ApprovalRequest} (hreq : req.id = id) (d : ApprovalDecision)
    (by_ : Option String) (totp : Bool)
    (hact : Act call.kind (m.store id) call'.kind
      { m.store id with records := d.verdict :: (m.store id).records }) :
    Moves (call.role x) (m.store x) (call'.role x)
      ((m.pushRecent req d by_ now totp).store x) := by
  subst hreq
  apply moves_at h h' fun _ hx => store_pushRecent_ne hx d by_ now totp
  rw [store_pushRecent_self]
  exact moves_of_act hact

end Operations

theorem RequestCall.moves_next (h : m.Keyed) {call : RequestCall} (hcall : call.Keyed)
    (hhandled : (Call.request call).Handled m) :
    Moves ((Call.request call).role x) (m.store x)
      ((Call.request (call.next m k now).2).role x) ((call.next m k now).1.store x) := by
  cases call with
  | limit t =>
    unfold RequestCall.next
    dsimp only
    split
    · rename_i hfull
      have hround : t.round = 0 := hhandled.resolve_right (Nat.not_lt.mpr hfull)
      apply moves_same (only_self rfl) (only_self rfl)
      unfold Call.kind RequestCall.kind
      dsimp only
      rw [if_pos hround, hround]
      exact .refuse _
    · apply moves_same (only_self rfl) (only_self rfl)
      unfold Call.kind RequestCall.kind
      dsimp only
      split
      · exact .accept _
      · exact .acceptAgain _
  | persist t => exact moves_persist (only_self rfl) (only_self rfl) rfl (.persist _)
  | insert t => exact moves_insert (only_self rfl) (only_self rfl) _ (.place _)
  | await t => exact .inl ⟨rfl, rfl⟩
  | remove t =>
    unfold RequestCall.next
    dsimp only
    by_cases hmem : t.req.id ∈ m.pending
    · have hfound : (m.pending.lookup t.req.id).isSome = true := AList.lookup_isSome.mpr hmem
      rw [hfound]
      cases timeoutDecision t.req t.fallback with
      | escalate =>
        exact moves_remove (only_self rfl) (only_self (congrArg some (taken_id h t)))
          (.retry _ hmem)
      | resolve d => exact moves_remove (only_self rfl) (only_self rfl) (.close _ _ hmem)
    -- somebody else has taken the request
    · have hfound : (m.pending.lookup t.req.id).isSome = false := by
        rw [AList.lookup_eq_none.mpr hmem]
        rfl
      have hsettles := hhandled.resolve_left hmem
      rw [hfound]
      cases hd : timeoutDecision t.req t.fallback with
      | escalate => exact absurd hd hsettles
      | resolve d =>
        apply moves_at (only_self rfl) (only_self rfl)
          fun _ _ => store_removePending_of_notMem hmem
        rw [store_removePending_of_notMem hmem]
        exact .inr (.inr ⟨_, rfl, hmem, rfl, rfl⟩)
  | deleteRow id req d found =>
    apply moves_delete (only_self rfl) (only_self rfl)
    cases found with
    | true => exact .delete _ _
    | false => exact .lateDelete _ _
  | record id req d found =>
    apply moves_record (only_self rfl) (only_self rfl) hcall
    cases found with
    | true => exact .conclude _ _
    | false => exact .lateRecord _ _
  | returned id d entered => exact .inl ⟨rfl, rfl⟩

theorem SubmitCall.moves_next (call : SubmitCall) :
    Moves ((Call.submit call).role x) (m.store x) ((Call.submit (call.next m now).2).role x)
      ((call.next m now).1.store x) := by
  cases call with
  | duplicate req deferred =>
    unfold SubmitCall.next
    dsimp only
    split
    · exact moves_same (only_self rfl) (only_idle rfl) (.withdraw _)
    · exact .inl ⟨rfl, rfl⟩
  | limit req deferred =>
    unfold SubmitCall.next
    dsimp only
    split
    · exact moves_same (only_self rfl) (only_idle rfl) (.withdraw _)
    · exact moves_same (only_self rfl) (only_self rfl) (.accept _)
  | persist req deferred => exact moves_persist (only_self rfl) (only_self rfl) rfl (.persist _)
  | insert req deferred => exact moves_insert (only_self rfl) (only_idle rfl) _ (.leave _)
  | returned result => exact .inl ⟨rfl, rfl⟩

theorem ResolveCall.moves_next {call : ResolveCall} (hcall : call.Keyed) :
    Moves ((Call.resolve call).role x) (m.store x) ((Call.resolve (call.next m now).2.1).role x)
      ((call.next m now).1.store x) := by
  cases call with
  | gate q =>
    unfold ResolveCall.next
    dsimp only
    split
    · exact .inl ⟨rfl, rfl⟩
    · exact .inl ⟨rfl, rfl⟩
  | remove q =>
    unfold ResolveCall.next
    dsimp only
    cases hp : m.pending.lookup q.requestId with
    | none => exact .inl ⟨rfl, store_removePending_of_notMem (AList.lookup_eq_none.mp hp)⟩
    | some p =>
      have hmem : q.requestId ∈ m.pending := AList.lookup_isSome.mp (by rw [hp]; rfl)
      exact moves_remove (only_idle rfl) (only_self rfl) (.take _ _ hmem)
  | lookUp q => exact .inl ⟨rfl, rfl⟩
  | deleteRow q p => exact moves_delete (only_self rfl) (only_self rfl) (.delete _ _)
  | grace q p => exact .inl ⟨rfl, store_withGrace q p now⟩
  | record q p =>
    exact moves_record (only_self rfl) (only_self rfl) hcall.request _ _ _ (.record _ _)
  | send q p response =>
    obtain ⟨-, hid, hdecision⟩ := hcall
    have hact : Act (.sending q.decision.verdict) (m.store q.requestId)
        (.resolved response.decision.verdict) (m.store q.requestId) := by
      rw [hdecision]
      exact .tell _ _
    exact moves_same (only_self rfl) (only_self (congrArg some hid)) hact
  | returned result => exact .inl ⟨rfl, rfl⟩

theorem SweepCall.moves_next {call : SweepCall} (hcall : call.Keyed) :
    Moves ((Call.sweep call).role x) (m.store x) ((Call.sweep (call.next m).2.1).role x)
      ((call.next m).1.store x) := by
  cases call with
  | remove w =>
    unfold SweepCall.next
    dsimp only
    split
    · exact .inl ⟨rfl, rfl⟩
    rename_i id rest _
    dsimp only
    cases hp : m.pending.lookup id with
    | none => exact .inl ⟨rfl, store_removePending_of_notMem (AList.lookup_eq_none.mp hp)⟩
    | some p =>
      have hmem : id ∈ m.pending := AList.lookup_isSome.mp (by rw [hp]; rfl)
      unfold Sweep.decide
      dsimp only
      cases timeoutDecision p.request w.fallback with
      | escalate => exact moves_remove (only_idle rfl) (only_self rfl) (.carry _ hmem)
      | resolve d => exact moves_remove (only_idle rfl) (only_self rfl) (.take _ _ hmem)
  | insert w id p => exact moves_insert (only_self rfl) (only_idle rfl) p (.putBack _)
  | deleteRow w id p d => exact moves_delete (only_self rfl) (only_self rfl) (.delete _ _)
  | record w id p d =>
    exact moves_record (only_self rfl) (only_self rfl) (PendingRequest.Keyed.request hcall) _ _ _
      (.record _ _)
  | send w id p d => exact moves_same (only_self rfl) (only_idle rfl) (.forget _ _)
  | returned escalated expired => exact .inl ⟨rfl, rfl⟩

/-- **The next step of a call moves the request or leaves it alone.** -/
theorem Call.moves_next (h : m.Keyed) (hcall : call.Keyed)
    (hhandled : call.Handled m) (k : ℕ) (now : Time) (x : Uuid) :
    Moves (call.role x) (m.store x) ((call.next m k now).2.1.role x)
      ((call.next m k now).1.store x) := by
  cases call with
  | request call => exact RequestCall.moves_next h hcall hhandled
  | submit call => exact call.moves_next
  | resolve call => exact ResolveCall.moves_next hcall
  | sweep call => exact SweepCall.moves_next hcall
  | gone => exact .inl ⟨rfl, rfl⟩

end Moves

/-! ## The steps of the system -/

/-- The event is handled: the step of the call is, and a call that does not find its request may
settle it, with `late`, while no call is about to insert it. -/
def System.Handled (late : Prop) (s : System) : Event → Prop
  | .act k _ => ∀ call ∈ s.calls[k]?, call.Handled s.manager ∧
      ∀ t, call = .request (.remove t) → t.req.id ∉ s.manager.pending →
        late ∧ ∀ call' ∈ s.calls, ¬ call'.Puts t.req.id
  | _ => True

section Steps

variable {late : Prop} {s : System} {x : Uuid} {k : ℕ} {call : Call}

theorem item_role (h : s.calls[k]? = some call) : (s.item x).role k = call.role x := by
  unfold System.item
  dsimp only
  rw [h]
  rfl

theorem item_setCall (h : s.calls[k]? = some call) (m : ApprovalManager) (call' : Call) :
    (System.mk m (s.calls.set k call') s.submitted).item x =
      (s.item x).set k (call'.role x) (m.store x) := by
  unfold System.item Item.set
  dsimp only
  congr 1
  funext l
  by_cases hl : l = k
  · subst hl
    rw [Function.update_self, List.getElem?_set_self (List.getElem?_eq_some_iff.mp h).1]
    rfl
  · rw [Function.update_of_ne hl, List.getElem?_set_ne (Ne.symm hl)]

theorem item_modifyCall (h : s.calls[k]? = some call) (f : Call → Call) :
    (s.modifyCall k f).item x = (s.item x).set k ((f call).role x) (s.item x).store := by
  unfold System.item Item.set System.modifyCall
  dsimp only
  congr 1
  funext l
  by_cases hl : l = k
  · subst hl
    rw [Function.update_self, List.getElem?_modify_eq, h]
    rfl
  · rw [Function.update_of_ne hl, List.getElem?_modify_ne _ _ (Ne.symm hl)]

theorem step_act_of_none (hk : s.calls[k]? = none) (now : Time) : step s (.act k now) = s := by
  unfold step System.act
  dsimp only
  rw [hk]

theorem modifyCall_of_none (h : s.calls[k]? = none) (f : Call → Call) : s.modifyCall k f = s := by
  unfold System.modifyCall
  rw [List.modify_eq_self (List.getElem?_eq_none_iff.mp h)]

theorem steps_of_moves {i : Item ℕ Verdict} {r : Role Verdict} {st : Store Verdict}
    (h : Moves (i.role k) i.store r st)
    (hgone : GivesUp (i.role k) i.store r st → late ∧ ∀ l, ¬ (i.role l).Lively) :
    Steps late i (i.set k r st) := by
  obtain ⟨rfl, rfl⟩ | hact | hgives := h
  · rw [Item.set_eq_self]
  · exact .single (.act i k hact)
  · obtain ⟨hlate, hlively⟩ := hgone hgives
    obtain ⟨d, hrole, hmap, rfl, rfl⟩ := hgives
    exact .single (.giveUp i k d hlate hrole hmap hlively)

theorem steps_modifyCall (k : ℕ) {f : Call → Call}
    (hf : ∀ call, s.calls[k]? = some call → (f call).role x = call.role x ∨
      Act (call.role x) (s.item x).store ((f call).role x) (s.item x).store) :
    Steps late (s.item x) ((s.modifyCall k f).item x) := by
  cases h : s.calls[k]? with
  | none => rw [modifyCall_of_none h]
  | some call =>
    rw [item_modifyCall h]
    obtain hsame | hact := hf call h
    · rw [hsame, ← item_role h, Item.set_eq_self]
    · rw [← item_role h] at hact
      exact .single (.act _ k hact)

variable {d : ApprovalDecision}

theorem sends_of_next {m : ApprovalManager} {now : Time} {tx : Channel}
    (hcall : call.Keyed) (h : (call.next m k now).2.2 = some (tx, d)) :
    call.role tx.requestId = .sending d.verdict := by
  cases call with
  | request call => cases h
  | submit call => cases h
  | resolve call =>
    cases call with
    | gate q =>
      unfold Call.next ResolveCall.next at h
      dsimp only at h
      split at h
      · cases h
      · cases h
    | send q p response =>
      obtain ⟨tx', htx, heq⟩ := Option.map_eq_some_iff.mp h
      obtain ⟨rfl, rfl⟩ := Prod.mk.inj heq
      exact role_of_subject (congrArg some (hcall.1.sender tx' htx).symm)
    | _ => cases h
  | sweep call =>
    cases call with
    | remove w =>
      unfold Call.next SweepCall.next at h
      dsimp only at h
      split at h
      · cases h
      · cases h
    | send w id p d' =>
      obtain ⟨tx', htx, heq⟩ := Option.map_eq_some_iff.mp h
      obtain ⟨rfl, rfl⟩ := Prod.mk.inj heq
      exact role_of_subject (congrArg some (PendingRequest.Keyed.sender hcall tx' htx).symm)
    | _ => cases h
  | gone => cases h

theorem receive_of_sends {m : ApprovalManager} {now : Time} {msg : Message}
    (h : (call.next m k now).2.2 = some msg) (l : ℕ) (tx : Channel) (d : ApprovalDecision) :
    call.receive l tx d = call ∧
      (call.next m k now).2.1.receive l tx d = (call.next m k now).2.1 := by
  cases call with
  | request call => cases h
  | submit call => cases h
  | resolve call => exact ⟨rfl, rfl⟩
  | sweep call => exact ⟨rfl, rfl⟩
  | gone => cases h

theorem steps_receive {tx : Channel} (h : s.calls[k]? = some call)
    (hsend : call.role tx.requestId = .sending d.verdict) :
    Steps late (s.item x) ((s.deliver (some (tx, d))).item x) := by
  unfold System.deliver
  dsimp only
  cases hl : s.calls[tx.call]? with
  | none => rw [modifyCall_of_none hl]
  | some receiver =>
    by_cases hwaits : ∃ t, receiver = .request (.await t) ∧ tx = ⟨tx.call, t.round, t.req.id⟩
    · obtain ⟨t, rfl, htx⟩ := hwaits
      have hid : tx.requestId = t.req.id := by rw [htx]
      have hreceive : Call.receive tx.call tx d (.request (.await t)) =
          .request (.returned t.req.id d true) := by
        unfold Call.receive RequestCall.receive
        dsimp only
        rw [if_pos htx]
      rw [item_modifyCall hl, hreceive]
      by_cases hx : t.req.id = x
      · subst hx
        rw [role_of_subject rfl]
        refine .single (.deliver _ tx.call k _ ?_ ?_)
        · rw [item_role h, ← hid, hsend]
        · rw [item_role hl, role_of_subject rfl]
          rfl
      · have hfree : (s.item x).role tx.call = .free := by
          rw [item_role hl, role_of_other (only_self rfl) hx]
        rw [role_of_other (only_self rfl) hx, ← hfree, Item.set_eq_self]
    · rw [item_modifyCall hl]
      have hsame : Call.receive tx.call tx d receiver = receiver := by
        cases receiver with
        | request call' =>
          cases call' with
          | await t =>
            unfold Call.receive RequestCall.receive
            dsimp only
            rw [if_neg fun htx => hwaits ⟨t, rfl, htx⟩]
          | _ => rfl
        | _ => rfl
      rw [hsame, ← item_role hl, Item.set_eq_self]

theorem deliver_setCall {m m' : ApprovalManager} {call' : Call} {tx : Channel} {cs : List Call}
    {sub : List Uuid} (hcall' : ∀ l, call'.receive l tx d = call') :
    (System.mk m' (cs.set k call') sub).deliver (some (tx, d)) =
      System.mk m' (((System.mk m cs sub).deliver (some (tx, d))).calls.set k call') sub := by
  unfold System.deliver System.modifyCall
  dsimp only
  congr 1
  refine List.ext_getElem? fun l => ?_
  rw [List.getElem?_modify, List.getElem?_set, List.getElem?_set, List.length_modify,
    List.getElem?_modify]
  by_cases hk : k = l
  · rw [if_pos hk, if_pos hk]
    by_cases hlt : k < cs.length
    · rw [if_pos hlt, Option.map_eq_map, Option.map_some, hcall', ite_self]
    · rw [if_neg hlt]
      rfl
  · rw [if_neg hk, if_neg hk]

theorem expired_of_role (h : call.role x = .expired) :
    ∃ t, call = .request (.remove t) ∧ t.req.id = x := by
  have hs : call.subject = some x := by
    by_contra hne
    rw [role_of_ne hne] at h
    cases h
  rw [role_of_subject hs] at h
  cases call with
  | request call =>
    cases call with
    | remove t => exact ⟨t, rfl, Option.some.inj hs⟩
    | limit t =>
      unfold Call.kind RequestCall.kind at h
      dsimp only at h
      split at h <;> cases h
    | deleteRow id req d found => cases found <;> cases h
    | record id req d found => cases found <;> cases h
    | returned id d entered => cases entered <;> cases h
    | _ => cases h
  | submit call => cases call <;> cases h
  | resolve call => rcases call with _ | _ | _ | _ | _ | _ | _ | ⟨_ | _⟩ <;> cases h
  | sweep call => cases call <;> cases h
  | gone => cases h

theorem notLively_of_puts (h : ∀ c ∈ s.calls, ¬ c.Puts x) (l : ℕ) :
    ¬ ((s.item x).role l).Lively := by
  cases hl : s.calls[l]? with
  | none =>
    unfold System.item
    dsimp only
    rw [hl]
    exact id
  | some c =>
    rw [item_role hl, ← puts_iff]
    exact h c (List.mem_of_getElem? hl)

theorem steps_act (hkeyed : s.Keyed) {now : Time} (h : s.Handled late (.act k now)) :
    Steps late (s.item x) ((s.act k now).item x) := by
  unfold System.act
  cases hk : s.calls[k]? with
  | none => exact .refl
  | some call =>
    have hcall : call.Keyed := hkeyed.calls call (List.mem_of_getElem? hk)
    obtain ⟨hhandled, hgone⟩ := h call hk
    have hmoves := Call.moves_next hkeyed.manager hcall hhandled k now x
    dsimp only
    cases hmsg : (call.next s.manager k now).2.2 with
    | none =>
      unfold System.deliver
      dsimp only
      rw [item_setCall hk]
      refine steps_of_moves (by rwa [item_role hk]) fun hgives => ?_
      obtain ⟨d, hexpired, hmap, -, -⟩ := hgives
      rw [item_role hk] at hexpired
      obtain ⟨t, rfl, rfl⟩ := expired_of_role hexpired
      obtain ⟨hlate, hputs⟩ := hgone t rfl hmap
      exact ⟨hlate, notLively_of_puts hputs⟩
    | some msg =>
      obtain ⟨tx, d⟩ := msg
      have hreceive := receive_of_sends hmsg
      -- the waiting call gets the decision before the call that sends it moves on
      refine Relation.ReflTransGen.trans (steps_receive hk (sends_of_next hcall hmsg)) ?_
      rw [deliver_setCall (m := s.manager) fun l => (hreceive l tx d).2]
      have hk' : (s.deliver (some (tx, d))).calls[k]? = some call := by
        unfold System.deliver System.modifyCall
        dsimp only
        rw [List.getElem?_modify, hk]
        exact congrArg some (by split <;> first | exact (hreceive _ tx d).1 | rfl)
      refine Eq.subst (motive := Steps late _) (item_setCall hk' _ _).symm ?_
      refine steps_of_moves (by rwa [item_role hk']) fun hgives => ?_
      obtain ⟨d', hexpired, -, -, -⟩ := hgives
      rw [item_role hk'] at hexpired
      obtain ⟨t, rfl, -⟩ := expired_of_role hexpired
      cases hmsg

theorem steps_start (ask : Ask) : Steps late (s.item x) ((s.start ask).item x) := by
  unfold System.start
  split
  · exact .refl
  rename_i hnew
  have hnone : s.calls[s.calls.length]? = none := List.getElem?_eq_none le_rfl
  have hitem : (System.mk s.manager (s.calls ++ [ask.start s.manager s.manager.policy])
      (ask.subject.toList ++ s.submitted)).item x =
      { (s.item x).set s.calls.length ((ask.start s.manager s.manager.policy).role x)
          (s.item x).store with known := x ∈ ask.subject.toList ++ s.submitted } := by
    unfold System.item Item.set
    dsimp only
    congr 1
    funext l
    by_cases hl : l = s.calls.length
    · rw [hl, Function.update_self, List.getElem?_concat_length]
      rfl
    · rw [Function.update_of_ne hl, List.getElem?_append]
      split
      · rfl
      · rename_i hlt
        rw [List.getElem?_eq_none (Nat.le_of_not_lt hlt), List.getElem?_eq_none]
        simp only [List.length_singleton]
        omega
  have hrole : (s.item x).role s.calls.length = .free := by
    unfold System.item
    dsimp only
    rw [hnone]
    rfl
  refine Eq.subst (motive := Steps late _) hitem.symm ?_
  by_cases hx : ask.subject = some x
  · have hfresh : (ask.start s.manager s.manager.policy).role x = .fresh := by
      cases ask with
      | requestApproval req => exact role_of_subject hx
      | submitRequest req deferred => exact role_of_subject hx
      | _ => cases hx
    have hknown : (x ∈ ask.subject.toList ++ s.submitted) = True := by
      rw [hx]
      exact eq_true List.mem_cons_self
    rw [hfresh, hknown]
    exact .single (.bring _ _ fun hx' => hnew ⟨x, hx, hx'⟩)
  · have hfree : (ask.start s.manager s.manager.policy).role x = .free := by
      cases ask with
      | requestApproval req => exact role_of_ne hx
      | submitRequest req deferred => exact role_of_ne hx
      | resolve requestId d by_ totpVerified userId => exact role_of_ne nofun
      | expirePendingRequests now =>
        unfold Ask.start
        dsimp only
        split
        · exact role_of_ne nofun
        · exact role_of_ne nofun
    have hknown : (x ∈ ask.subject.toList ++ s.submitted) = (s.item x).known := by
      refine propext (List.mem_append.trans (or_iff_right fun hmem => hx ?_))
      exact Option.mem_toList.mp hmem
    rw [hfree, hknown, ← hrole, Item.set_eq_self]

theorem role_expire : call.expire.role x = call.role x ∨
    ∀ st, Act (call.role x) st (call.expire.role x) st := by
  unfold Call.expire
  split
  · rename_i t
    by_cases hx : t.req.id = x
    · subst hx
      refine .inr fun st => ?_
      rw [role_of_subject rfl, role_of_subject rfl]
      exact .expire st
    · exact .inl (by rw [role_of_other (only_self rfl) hx, role_of_other (only_self rfl) hx])
  · exact .inl rfl

theorem role_gone : Call.gone.role x = .free := role_of_ne nofun

theorem role_cancel : call.cancel.role x = call.role x ∨
    ∀ st, Act (call.role x) st (call.cancel.role x) st := by
  unfold Call.cancel
  split
  · rename_i t
    by_cases hx : t.req.id = x
    · subst hx
      refine .inr fun st => ?_
      rw [role_of_subject rfl, role_gone]
      exact .abandon st
    · exact .inl (role_gone.trans (role_of_other (only_self rfl) hx).symm)
  · exact .inl rfl

theorem role_crash (call : Call) : call.crash.role x = (call.role x).restarted := by
  have hgone : call.crash = .gone → call.kind.restarted = .free →
      call.crash.role x = (call.role x).restarted := by
    intro hcrash hkind
    rw [hcrash, role_gone]
    unfold Call.role
    split
    · exact hkind.symm
    · rfl
  have hkept : call.crash = call → call.kind.restarted = call.kind →
      call.crash.role x = (call.role x).restarted := by
    intro hcrash hkind
    rw [hcrash]
    unfold Call.role
    split
    · exact hkind.symm
    · rfl
  cases call with
  | request call =>
    cases call with
    | limit t => exact hgone rfl (by unfold Call.kind RequestCall.kind; dsimp only; split <;> rfl)
    | deleteRow id req d found => exact hgone rfl (by cases found <;> rfl)
    | record id req d found => exact hgone rfl (by cases found <;> rfl)
    | returned id d entered => exact hkept rfl (by cases entered <;> rfl)
    | _ => exact hgone rfl rfl
  | submit call =>
    cases call with
    | returned result => exact hkept rfl rfl
    | _ => exact hgone rfl rfl
  | resolve call =>
    cases call with
    | returned result => exact hkept rfl (by cases result <;> rfl)
    | _ => exact hgone rfl rfl
  | sweep call =>
    cases call with
    | returned escalated expired => exact hkept rfl rfl
    | _ => exact hgone rfl rfl
  | gone => exact hgone rfl rfl

/-- **An event that is handled is a number of steps of every request.** -/
theorem item_step (hkeyed : s.Keyed) {e : Event} (h : s.Handled late e) :
    Steps late (s.item x) ((step s e).item x) := by
  cases e with
  | call ask => exact steps_start ask
  | act k now => exact steps_act hkeyed h
  | expire k => exact steps_modifyCall k fun call _ => role_expire.imp_right fun hact => hact _
  | cancel k => exact steps_modifyCall k fun call _ => role_cancel.imp_right fun hact => hact _
  | updatePolicy policy => exact .refl
  | restart policy =>
    refine Eq.subst (motive := Steps late _) ?_ (.single (.restart (s.item x)))
    unfold step System.item
    dsimp only
    congr 1
    · exact (store_newWithDb policy s.manager.auditDb).symm
    · funext k
      rw [List.getElem?_map]
      cases s.calls[k]? with
      | none => rfl
      | some call => exact (role_crash call).symm

end Steps

end LibreFang.Approval
