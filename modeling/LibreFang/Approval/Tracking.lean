import LibreFang.Lib.Custody
import LibreFang.Approval.Calls

/-!
# One request at a time

The system as seen from one request: whether it is pending, whether it has a row, what has been
recorded for it, and what each call is about to do with it.

* `ApprovalManager.store`: what the manager has of a request; the effect of each operation on it.
* `Call.role`: what a call is about to do with a request; `System.item`: an item in custody.
* `Keyed`: entries stand under the ids of their requests; **`keyed_step`**: they always do.
-/

namespace LibreFang.Approval

open Custody

/-! ## The shared state -/

/-- What the manager has of a request. -/
def ApprovalManager.store (m : ApprovalManager) (x : Uuid) : Store Verdict :=
  ⟨x ∈ m.pending, x ∈ m.auditDb.pendingApprovals, m.outcomes x⟩

section Store

variable {m : ApprovalManager} {x id : Uuid}

theorem store_ext {m' : ApprovalManager} (hmap : x ∈ m'.pending ↔ x ∈ m.pending)
    (hrow : x ∈ m'.auditDb.pendingApprovals ↔ x ∈ m.auditDb.pendingApprovals)
    (hrecords : m'.outcomes x = m.outcomes x) : m'.store x = m.store x := by
  unfold ApprovalManager.store
  rw [propext hmap, propext hrow, hrecords]

theorem mem_insertRow {row : PendingRow} :
    x ∈ m.insertRow id row ↔ x = id ∨ x ∈ m.auditDb.pendingApprovals := by
  unfold ApprovalManager.insertRow
  split
  · rename_i hid
    refine ⟨.inr, ?_⟩
    rintro (rfl | hx)
    · exact hid
    · exact hx
  · exact AList.mem_insert _

theorem outcomes_dbInsertPending (req : ApprovalRequest) :
    (m.dbInsertPending req).outcomes x = m.outcomes x := by
  unfold ApprovalManager.outcomes ApprovalManager.dbInsertPending
  dsimp only
  rw [List.filter_cons_of_neg]
  simp [ApprovalRequest.submission]

theorem outcomes_pushRecent_self (request : ApprovalRequest) (d : ApprovalDecision)
    (by_ : Option String) (now : Time) (totp : Bool) :
    (m.pushRecent request d by_ now totp).outcomes request.id =
      d.verdict :: m.outcomes request.id := by
  unfold ApprovalManager.outcomes ApprovalManager.pushRecent
  dsimp only
  rw [List.filter_cons_of_pos (by simp [asStr_ne_pending]), List.map_cons]
  rfl

theorem outcomes_pushRecent_ne {request : ApprovalRequest} (h : request.id ≠ x)
    (d : ApprovalDecision) (by_ : Option String) (now : Time) (totp : Bool) :
    (m.pushRecent request d by_ now totp).outcomes x = m.outcomes x := by
  unfold ApprovalManager.outcomes ApprovalManager.pushRecent
  dsimp only
  rw [List.filter_cons_of_neg (by simp [h])]

theorem store_dbInsertPending_self (req : ApprovalRequest) :
    (m.dbInsertPending req).store req.id = { m.store req.id with row := True } := by
  unfold ApprovalManager.store
  rw [outcomes_dbInsertPending]
  congr 1
  exact eq_true (mem_insertRow.mpr (.inl rfl))

theorem store_dbInsertPending_ne {req : ApprovalRequest} (h : req.id ≠ x) :
    (m.dbInsertPending req).store x = m.store x := by
  refine store_ext Iff.rfl ?_ (outcomes_dbInsertPending req)
  exact mem_insertRow.trans (or_iff_right (Ne.symm h))

theorem store_dbDeletePending_self :
    (m.dbDeletePending id).store id = { m.store id with row := False } := by
  unfold ApprovalManager.store ApprovalManager.dbDeletePending
  congr 1
  exact eq_false fun h => (AList.mem_erase.mp h).1 rfl

theorem store_dbDeletePending_ne (h : id ≠ x) : (m.dbDeletePending id).store x = m.store x :=
  store_ext Iff.rfl (AList.mem_erase.trans (and_iff_right (Ne.symm h))) rfl

theorem store_insertPending_self (p : PendingRequest) :
    (m.insertPending id p).store id = { m.store id with inMap := True } := by
  unfold ApprovalManager.store ApprovalManager.insertPending
  congr 1
  exact eq_true ((AList.mem_insert _).mpr (.inl rfl))

theorem store_insertPending_ne (h : id ≠ x) (p : PendingRequest) :
    (m.insertPending id p).store x = m.store x :=
  store_ext ((AList.mem_insert _).trans (or_iff_right (Ne.symm h))) Iff.rfl rfl

theorem store_removePending_self :
    (m.removePending id).store id = { m.store id with inMap := False } := by
  unfold ApprovalManager.store ApprovalManager.removePending
  congr 1
  exact eq_false fun h => (AList.mem_erase.mp h).1 rfl

theorem store_removePending_ne (h : id ≠ x) : (m.removePending id).store x = m.store x :=
  store_ext (AList.mem_erase.trans (and_iff_right (Ne.symm h))) Iff.rfl rfl

theorem store_removePending_of_notMem (h : id ∉ m.pending) :
    (m.removePending id).store x = m.store x := by
  refine store_ext ?_ Iff.rfl rfl
  refine AList.mem_erase.trans (and_iff_right_of_imp ?_)
  rintro hx rfl
  exact h hx

theorem store_pushRecent_self (request : ApprovalRequest) (d : ApprovalDecision)
    (by_ : Option String) (now : Time) (totp : Bool) :
    (m.pushRecent request d by_ now totp).store request.id =
      { m.store request.id with records := d.verdict :: (m.store request.id).records } := by
  unfold ApprovalManager.store
  rw [outcomes_pushRecent_self]
  rfl

theorem store_pushRecent_ne {request : ApprovalRequest} (h : request.id ≠ x)
    (d : ApprovalDecision) (by_ : Option String) (now : Time) (totp : Bool) :
    (m.pushRecent request d by_ now totp).store x = m.store x :=
  store_ext Iff.rfl Iff.rfl (outcomes_pushRecent_ne h d by_ now totp)

theorem store_withGrace (q : Resolution) (p : PendingRequest) (now : Time) :
    (q.withGrace m p now).store x = m.store x := by
  unfold Resolution.withGrace
  split
  · split
    · rfl
    · rfl
  · rfl

theorem store_newWithDb (policy : ApprovalPolicy) (db : Database) :
    (ApprovalManager.newWithDb policy db).store x =
      ⟨x ∈ db.pendingApprovals, x ∈ db.pendingApprovals,
        (ApprovalManager.newWithDb policy db).outcomes x⟩ := by
  unfold ApprovalManager.store
  congr 1
  exact propext Table.mem_mapVal

end Store

/-! ## The calls -/

/-- The request of a call of `request_approval`. -/
def RequestCall.subject : RequestCall → Uuid
  | .limit t | .persist t | .insert t | .await t | .remove t => t.req.id
  | .deleteRow id .. | .record id .. | .returned id .. => id

/-- What the call is about to do with it. -/
def RequestCall.kind : RequestCall → Role Verdict
  | .limit t => if t.round = 0 then .fresh else .again
  | .persist _ => .storing
  | .insert _ => .placing
  | .await _ => .waiting
  | .remove _ => .expired
  | .deleteRow _ _ d found => if found then .deleting d.verdict else .lateDeleting d.verdict
  | .record _ _ d found => if found then .recording d.verdict else .lateRecording d.verdict
  | .returned _ d entered => if entered then .returned d.verdict else .refused

/-- The request of a call of `submit_request`, until it is submitted. -/
def SubmitCall.subject : SubmitCall → Option Uuid
  | .duplicate req _ | .limit req _ | .persist req _ | .insert req _ => some req.id
  | .returned _ => none

/-- What the call is about to do with it. -/
def SubmitCall.kind : SubmitCall → Role Verdict
  | .duplicate .. | .limit .. => .fresh
  | .persist .. => .storing
  | .insert .. => .placing
  | .returned _ => .free

/-- The request that a call of `resolve` has taken. -/
def ResolveCall.subject : ResolveCall → Option Uuid
  | .gate _ | .remove _ | .lookUp _ | .returned (.error _) => none
  | .deleteRow q _ | .grace q _ | .record q _ | .send q _ _ => some q.requestId
  | .returned (.ok (response, _)) => some response.requestId

/-- What the call is about to do with it. -/
def ResolveCall.kind : ResolveCall → Role Verdict
  | .gate _ | .remove _ | .lookUp _ | .returned (.error _) => .free
  | .deleteRow q _ => .deleting q.decision.verdict
  | .grace q _ | .record q _ => .recording q.decision.verdict
  | .send q _ _ => .sending q.decision.verdict
  | .returned (.ok (response, _)) => .resolved response.decision.verdict

/-- The request that a sweep has taken. -/
def SweepCall.subject : SweepCall → Option Uuid
  | .remove _ | .returned .. => none
  | .insert _ id _ | .deleteRow _ id .. | .record _ id .. | .send _ id .. => some id

/-- What the sweep is about to do with it. -/
def SweepCall.kind : SweepCall → Role Verdict
  | .remove _ | .returned .. => .free
  | .insert .. => .carrying
  | .deleteRow _ _ _ d => .deleting d.verdict
  | .record _ _ _ d => .recording d.verdict
  | .send _ _ _ d => .sending d.verdict

/-- The request that a call is busy with. -/
def Call.subject : Call → Option Uuid
  | .request call => some call.subject
  | .submit call => call.subject
  | .resolve call => call.subject
  | .sweep call => call.subject
  | .gone => none

/-- What the call is about to do with it. -/
def Call.kind : Call → Role Verdict
  | .request call => call.kind
  | .submit call => call.kind
  | .resolve call => call.kind
  | .sweep call => call.kind
  | .gone => .free

/-- What a call is about to do with the request. -/
def Call.role (x : Uuid) (call : Call) : Role Verdict :=
  if call.subject = some x then call.kind else .free

/-- The system as seen from the request. -/
def System.item (s : System) (x : Uuid) : Item ℕ Verdict where
  known := x ∈ s.submitted
  store := s.manager.store x
  role := fun k => s.calls[k]?.elim .free (Call.role x)

section Role

variable {x : Uuid} {call : Call}

theorem role_of_subject (h : call.subject = some x) : call.role x = call.kind := if_pos h

theorem role_of_ne (h : call.subject ≠ some x) : call.role x = .free := if_neg h

end Role

/-! ## Entries under their ids -/

/-- The entry is one of the request. -/
structure PendingRequest.Keyed (p : PendingRequest) (id : Uuid) : Prop where
  request : p.request.id = id
  sender : ∀ tx ∈ p.sender, tx.requestId = id

/-- What a call of `request_approval` carries belongs to its request. -/
def RequestCall.Keyed : RequestCall → Prop
  | .deleteRow id req .. | .record id req .. => req.id = id
  | _ => True

/-- What a call of `resolve` carries belongs to its request. -/
def ResolveCall.Keyed : ResolveCall → Prop
  | .deleteRow q p | .grace q p | .record q p => p.Keyed q.requestId
  | .send q p response =>
    p.Keyed q.requestId ∧ response.requestId = q.requestId ∧ response.decision = q.decision
  | _ => True

/-- What a sweep carries belongs to its request. -/
def SweepCall.Keyed : SweepCall → Prop
  | .insert _ id p | .deleteRow _ id p _ | .record _ id p _ | .send _ id p _ => p.Keyed id
  | _ => True

/-- What a call carries belongs to its request. -/
def Call.Keyed : Call → Prop
  | .request call => call.Keyed
  | .resolve call => call.Keyed
  | .sweep call => call.Keyed
  | _ => True

/-- Every pending entry is one of its request. -/
def ApprovalManager.Keyed (m : ApprovalManager) : Prop := m.pending.Forall fun id p => p.Keyed id

/-- Every entry of the map and of a call is one of its request. -/
structure System.Keyed (s : System) : Prop where
  manager : s.manager.Keyed
  calls : ∀ call ∈ s.calls, call.Keyed

section Keyed

variable {m : ApprovalManager} {k : ℕ} {now : Time}

theorem keyed_removePending (h : m.Keyed) (id : Uuid) : (m.removePending id).Keyed :=
  Table.Forall.erase h id

theorem keyed_insertPending {id : Uuid} {p : PendingRequest} (h : m.Keyed) (hp : p.Keyed id) :
    (m.insertPending id p).Keyed :=
  Table.Forall.insert h hp

theorem keyed_withGrace (h : m.Keyed) (q : Resolution) (p : PendingRequest) :
    (q.withGrace m p now).Keyed := by
  unfold Resolution.withGrace
  split
  · split
    · exact h
    · exact h
  · exact h

theorem keyed_newWithDb (policy : ApprovalPolicy) (db : Database) :
    (ApprovalManager.newWithDb policy db).Keyed := by
  intro id p hp
  have hp : (db.pendingApprovals.mapVal PendingRow.restore).lookup id = some p := hp
  rw [Table.lookup_mapVal] at hp
  obtain ⟨row, -, rfl⟩ := Option.map_eq_some_iff.mp hp
  exact ⟨rfl, fun tx htx => by cases htx⟩

theorem taken_id (h : m.Keyed) (t : Round) : (t.taken m).id = t.req.id := by
  unfold Round.taken
  cases hp : m.pending.lookup t.req.id with
  | none => rfl
  | some p => exact (h _ p hp).request

theorem keyed_escalate {p : PendingRequest} {id : Uuid} (h : p.Keyed id) :
    (p.escalate now).Keyed id := ⟨h.request, h.sender⟩

theorem RequestCall.keyed_next (h : m.Keyed) {call : RequestCall} (hcall : call.Keyed) :
    (call.next m k now).1.Keyed ∧ (call.next m k now).2.Keyed := by
  cases call with
  | limit t =>
    unfold RequestCall.next
    dsimp only
    split
    · exact ⟨h, trivial⟩
    · exact ⟨h, trivial⟩
  | persist t => exact ⟨h, trivial⟩
  | insert t =>
    refine ⟨keyed_insertPending h ⟨rfl, fun tx htx => ?_⟩, trivial⟩
    obtain rfl := Option.some.inj htx
    rfl
  | await t => exact ⟨h, trivial⟩
  | remove t =>
    refine ⟨keyed_removePending h _, ?_⟩
    unfold RequestCall.next
    dsimp only
    split
    · trivial
    · exact taken_id h t
  | deleteRow id req d found => exact ⟨h, hcall⟩
  | record id req d found => exact ⟨h, trivial⟩
  | returned id d entered => exact ⟨h, trivial⟩

theorem SubmitCall.keyed_next (h : m.Keyed) (call : SubmitCall) : (call.next m now).1.Keyed := by
  cases call with
  | duplicate req deferred =>
    unfold SubmitCall.next
    dsimp only
    split
    · exact h
    · exact h
  | limit req deferred =>
    unfold SubmitCall.next
    dsimp only
    split
    · exact h
    · exact h
  | persist req deferred => exact h
  | insert req deferred => exact keyed_insertPending h ⟨rfl, fun tx htx => by cases htx⟩
  | returned result => exact h

theorem ResolveCall.keyed_next (h : m.Keyed) {call : ResolveCall} (hcall : call.Keyed) :
    (call.next m now).1.Keyed ∧ (call.next m now).2.1.Keyed := by
  cases call with
  | gate q =>
    unfold ResolveCall.next
    dsimp only
    split
    · exact ⟨h, trivial⟩
    · exact ⟨h, trivial⟩
  | remove q =>
    refine ⟨keyed_removePending h _, ?_⟩
    unfold ResolveCall.next
    dsimp only
    split
    · rename_i p hp
      exact h _ p hp
    · trivial
  | lookUp q => exact ⟨h, trivial⟩
  | deleteRow q p => exact ⟨h, hcall⟩
  | grace q p => exact ⟨keyed_withGrace h q p, hcall⟩
  | record q p => exact ⟨h, hcall, rfl, rfl⟩
  | send q p response => exact ⟨h, trivial⟩
  | returned result => exact ⟨h, trivial⟩

theorem SweepCall.keyed_next (h : m.Keyed) {call : SweepCall} (hcall : call.Keyed) :
    (call.next m).1.Keyed ∧ (call.next m).2.1.Keyed := by
  cases call with
  | remove w =>
    unfold SweepCall.next
    dsimp only
    split
    · exact ⟨h, trivial⟩
    · refine ⟨keyed_removePending h _, ?_⟩
      dsimp only
      split
      · rename_i hp
        unfold Sweep.decide
        split
        · exact keyed_escalate (h _ _ hp)
        · exact h _ _ hp
      · trivial
  | insert w id p => exact ⟨keyed_insertPending h hcall, trivial⟩
  | deleteRow w id p d => exact ⟨h, hcall⟩
  | record w id p d => exact ⟨h, hcall⟩
  | send w id p d => exact ⟨h, trivial⟩
  | returned escalated expired => exact ⟨h, trivial⟩

variable {call : Call}

theorem Call.keyed_next (h : m.Keyed) (hcall : call.Keyed) (k : ℕ) (now : Time) :
    (call.next m k now).1.Keyed ∧ (call.next m k now).2.1.Keyed := by
  cases call with
  | request call => exact RequestCall.keyed_next h hcall
  | submit call => exact ⟨call.keyed_next h, trivial⟩
  | resolve call => exact ResolveCall.keyed_next h hcall
  | sweep call => exact SweepCall.keyed_next h hcall
  | gone => exact ⟨h, trivial⟩

theorem keyed_start (ask : Ask) (policy : ApprovalPolicy) : (ask.start m policy).Keyed := by
  cases ask with
  | requestApproval req => trivial
  | submitRequest req deferred => trivial
  | resolve requestId d by_ totpVerified userId => trivial
  | expirePendingRequests now =>
    unfold Ask.start
    dsimp only
    split
    · trivial
    · trivial

theorem keyed_receive (h : call.Keyed) (tx : Channel) (d : ApprovalDecision) :
    (call.receive k tx d).Keyed := by
  cases call with
  | request call =>
    cases call with
    | await t =>
      unfold Call.receive RequestCall.receive
      dsimp only
      split
      · trivial
      · trivial
    | _ => exact h
  | _ => exact h

theorem keyed_expire (h : call.Keyed) : call.expire.Keyed := by
  unfold Call.expire
  split
  · trivial
  · exact h

theorem keyed_cancel (h : call.Keyed) : call.cancel.Keyed := by
  unfold Call.cancel
  split
  · trivial
  · exact h

theorem keyed_crash (call : Call) : call.crash.Keyed := by
  unfold Call.crash
  split <;> trivial

variable {s : System}

theorem keyed_modifyCall (h : s.Keyed) {f : Call → Call}
    (hf : ∀ call : Call, call.Keyed → (f call).Keyed) : (s.modifyCall k f).Keyed := by
  refine ⟨h.manager, fun call hcall => ?_⟩
  obtain ⟨l, hl⟩ := List.getElem?_of_mem hcall
  unfold System.modifyCall at hl
  rw [List.getElem?_modify] at hl
  obtain ⟨call₀, hcall₀, rfl⟩ := Option.map_eq_some_iff.mp hl
  have hkeyed := h.calls call₀ (List.mem_of_getElem? hcall₀)
  split
  · exact hf call₀ hkeyed
  · exact hkeyed

theorem keyed_deliver (h : s.Keyed) (msg : Option Message) : (s.deliver msg).Keyed := by
  unfold System.deliver
  split
  · exact keyed_modifyCall h fun call hcall => keyed_receive hcall _ _
  · exact h

/-- **One event keeps every entry under its id.** -/
theorem keyed_step (h : s.Keyed) (e : Event) : (step s e).Keyed := by
  cases e with
  | call ask =>
    unfold step System.start
    dsimp only
    split
    · exact h
    · refine ⟨h.manager, fun call hcall => ?_⟩
      obtain hold | hnew := List.mem_append.mp hcall
      · exact h.calls call hold
      · rw [List.mem_singleton.mp hnew]
        exact keyed_start ask _
  | act k now =>
    unfold step System.act
    dsimp only
    split
    · exact h
    · rename_i call hk
      have hnext := Call.keyed_next h.manager (h.calls call (List.mem_of_getElem? hk)) k now
      refine keyed_deliver ⟨hnext.1, fun call' hcall' => ?_⟩ _
      obtain hold | rfl := List.mem_or_eq_of_mem_set hcall'
      · exact h.calls call' hold
      · exact hnext.2
  | expire k => exact keyed_modifyCall h fun call => keyed_expire
  | cancel k => exact keyed_modifyCall h fun call => keyed_cancel
  | updatePolicy policy => exact ⟨h.manager, h.calls⟩
  | restart policy =>
    refine ⟨keyed_newWithDb _ _, fun call hcall => ?_⟩
    obtain ⟨call₀, -, rfl⟩ := List.mem_map.mp hcall
    exact keyed_crash call₀

theorem keyed_init (policy : ApprovalPolicy) : (System.init policy).Keyed :=
  ⟨keyed_newWithDb _ _, fun _ h => by cases h⟩

end Keyed

end LibreFang.Approval
