import LibreFang.Approval.Tracking

/-!
# The tool of a request

A request asks for one tool as long as it lives: while it is pending, in the hands of a call that
puts it back, in its row, and after a restart.

* `System.Named`: every request under an id asks for the tool that the id stands for.
* **`named_step`**: no event changes the tool of a request.
-/

namespace LibreFang.Approval

/-- The tool that a request asks for, by its id. -/
abbrev Names := Uuid → Option String

variable (names : Names)

/-- The entries of the map and the rows of the database ask for the tools of their ids. -/
structure ApprovalManager.Named (m : ApprovalManager) : Prop where
  pending : m.pending.Forall fun id p => names id = some p.request.toolName
  rows : m.auditDb.pendingApprovals.Forall fun id row => names id = some row.toolName

/-- What a call of `request_approval` may put back asks for the tool of its id. -/
def RequestCall.Named : RequestCall → Prop
  | .limit t | .persist t | .insert t | .await t | .remove t =>
    names t.req.id = some t.req.toolName
  | _ => True

/-- What a call of `submit_request` puts in asks for the tool of its id. -/
def SubmitCall.Named : SubmitCall → Prop
  | .duplicate req _ | .limit req _ | .persist req _ | .insert req _ =>
    names req.id = some req.toolName
  | .returned _ => True

/-- What a sweep puts back asks for the tool of its id. -/
def SweepCall.Named : SweepCall → Prop
  | .insert _ id p => names id = some p.request.toolName
  | _ => True

/-- What a call puts into the map asks for the tool of its id. -/
def Call.Named : Call → Prop
  | .request call => call.Named names
  | .submit call => call.Named names
  | .sweep call => call.Named names
  | _ => True

/-- Every request under an id asks for the tool of the id. -/
structure System.Named (s : System) : Prop where
  manager : s.manager.Named names
  calls : ∀ call ∈ s.calls, call.Named names
  /-- An id that has not been submitted stands for no tool. -/
  fresh : ∀ id, id ∉ s.submitted → names id = none

variable {names} {m : ApprovalManager} {k : ℕ} {now : Time}

theorem named_removePending (h : m.Named names) (id : Uuid) : (m.removePending id).Named names :=
  ⟨Table.Forall.erase h.pending id, h.rows⟩

theorem named_insertPending {id : Uuid} {p : PendingRequest} (h : m.Named names)
    (hp : names id = some p.request.toolName) : (m.insertPending id p).Named names :=
  ⟨Table.Forall.insert h.pending hp, h.rows⟩

theorem named_dbDeletePending (h : m.Named names) (id : Uuid) :
    (m.dbDeletePending id).Named names :=
  ⟨h.pending, Table.Forall.erase h.rows id⟩

theorem named_dbInsertPending {req : ApprovalRequest} (h : m.Named names)
    (hreq : names req.id = some req.toolName) : (m.dbInsertPending req).Named names := by
  refine ⟨h.pending, ?_⟩
  show (m.insertRow req.id req.row).Forall _
  unfold ApprovalManager.insertRow
  split
  · exact h.rows
  · exact Table.Forall.insert h.rows hreq

theorem named_withGrace (h : m.Named names) (q : Resolution) (p : PendingRequest) :
    (q.withGrace m p now).Named names := by
  unfold Resolution.withGrace
  split
  · split
    · exact ⟨h.pending, h.rows⟩
    · exact h
  · exact h

theorem named_newWithDb (policy : ApprovalPolicy) (h : m.Named names) :
    (ApprovalManager.newWithDb policy m.auditDb).Named names := by
  refine ⟨fun id p hp => ?_, h.rows⟩
  have hp : (m.auditDb.pendingApprovals.mapVal PendingRow.restore).lookup id = some p := hp
  rw [Table.lookup_mapVal] at hp
  obtain ⟨row, hrow, rfl⟩ := Option.map_eq_some_iff.mp hp
  exact h.rows id row hrow

theorem named_taken (hkeyed : m.Keyed) (h : m.Named names) {t : Round}
    (ht : names t.req.id = some t.req.toolName) :
    names (t.taken m).id = some (t.taken m).toolName := by
  rw [taken_id hkeyed t]
  unfold Round.taken
  cases hp : m.pending.lookup t.req.id with
  | none => exact ht
  | some p => exact h.pending _ p hp

theorem RequestCall.named_next (hkeyed : m.Keyed) (h : m.Named names) {call : RequestCall}
    (hcall : call.Named names) :
    (call.next m k now).1.Named names ∧ (call.next m k now).2.Named names := by
  cases call with
  | limit t =>
    unfold RequestCall.next
    dsimp only
    split
    · exact ⟨h, trivial⟩
    · exact ⟨h, hcall⟩
  | persist t => exact ⟨named_dbInsertPending h hcall, hcall⟩
  | insert t => exact ⟨named_insertPending h hcall, hcall⟩
  | await t => exact ⟨h, hcall⟩
  | remove t =>
    refine ⟨named_removePending h _, ?_⟩
    unfold RequestCall.next
    dsimp only
    split
    · exact named_taken hkeyed h hcall
    · trivial
  | deleteRow id req d found => exact ⟨named_dbDeletePending h _, trivial⟩
  | record id req d found => exact ⟨⟨h.pending, h.rows⟩, trivial⟩
  | returned id d entered => exact ⟨h, trivial⟩

theorem SubmitCall.named_next (h : m.Named names) {call : SubmitCall} (hcall : call.Named names) :
    (call.next m now).1.Named names ∧ (call.next m now).2.Named names := by
  cases call with
  | duplicate req deferred =>
    unfold SubmitCall.next
    dsimp only
    split
    · exact ⟨h, trivial⟩
    · exact ⟨h, hcall⟩
  | limit req deferred =>
    unfold SubmitCall.next
    dsimp only
    split
    · exact ⟨h, trivial⟩
    · exact ⟨h, hcall⟩
  | persist req deferred => exact ⟨named_dbInsertPending h hcall, hcall⟩
  | insert req deferred => exact ⟨named_insertPending h hcall, trivial⟩
  | returned result => exact ⟨h, trivial⟩

theorem ResolveCall.named_next (h : m.Named names) (call : ResolveCall) :
    (call.next m now).1.Named names := by
  cases call with
  | gate q =>
    unfold ResolveCall.next
    dsimp only
    split
    · exact h
    · exact h
  | remove q => exact named_removePending h _
  | lookUp q => exact h
  | deleteRow q p => exact named_dbDeletePending h _
  | grace q p => exact named_withGrace h q p
  | record q p => exact ⟨h.pending, h.rows⟩
  | send q p response => exact h
  | returned result => exact h

theorem SweepCall.named_next (h : m.Named names) {call : SweepCall} (hcall : call.Named names) :
    (call.next m).1.Named names ∧ (call.next m).2.1.Named names := by
  cases call with
  | remove w =>
    unfold SweepCall.next
    dsimp only
    split
    · exact ⟨h, trivial⟩
    · refine ⟨named_removePending h _, ?_⟩
      dsimp only
      split
      · rename_i hp
        unfold Sweep.decide
        split
        · have hname := h.pending _ _ hp
          exact hname
        · trivial
      · trivial
  | insert w id p => exact ⟨named_insertPending h hcall, trivial⟩
  | deleteRow w id p d => exact ⟨named_dbDeletePending h _, trivial⟩
  | record w id p d => exact ⟨⟨h.pending, h.rows⟩, trivial⟩
  | send w id p d => exact ⟨h, trivial⟩
  | returned escalated expired => exact ⟨h, trivial⟩

variable {call : Call}

theorem Call.named_next (hkeyed : m.Keyed) (h : m.Named names)
    (hcall : call.Named names) (k : ℕ) (now : Time) :
    (call.next m k now).1.Named names ∧ (call.next m k now).2.1.Named names := by
  cases call with
  | request call => exact RequestCall.named_next hkeyed h hcall
  | submit call => exact SubmitCall.named_next h hcall
  | resolve call => exact ⟨call.named_next h, trivial⟩
  | sweep call => exact SweepCall.named_next h hcall
  | gone => exact ⟨h, trivial⟩

/-! ## Calls and events -/

theorem named_receive (h : call.Named names) (tx : Channel) (d : ApprovalDecision) :
    (call.receive k tx d).Named names := by
  cases call with
  | request call =>
    cases call with
    | await t =>
      unfold Call.receive RequestCall.receive
      dsimp only
      split
      · trivial
      · exact h
    | _ => exact h
  | _ => exact h

theorem named_expire (h : call.Named names) : call.expire.Named names := by
  unfold Call.expire
  split
  · exact h
  · exact h

theorem named_cancel (h : call.Named names) : call.cancel.Named names := by
  unfold Call.cancel
  split
  · trivial
  · exact h

theorem named_crash (call : Call) : call.crash.Named names := by
  unfold Call.crash
  split <;> trivial

/-- The names have only grown. -/
def Names.Grows (names names' : Names) : Prop :=
  ∀ id tool, names id = some tool → names' id = some tool

variable {names' : Names}

theorem Call.Named.mono (h : call.Named names) (hgrows : names.Grows names') :
    call.Named names' := by
  cases call with
  | request call =>
    cases call with
    | deleteRow | record | returned => trivial
    | _ => exact hgrows _ _ h
  | submit call =>
    cases call with
    | returned => trivial
    | _ => exact hgrows _ _ h
  | resolve call => trivial
  | sweep call =>
    cases call with
    | insert => exact hgrows _ _ h
    | _ => trivial
  | gone => trivial

theorem ApprovalManager.Named.mono (h : m.Named names) (hgrows : names.Grows names') :
    m.Named names' :=
  ⟨fun id p hp => hgrows _ _ (h.pending id p hp), fun id row hrow => hgrows _ _ (h.rows id row hrow)⟩

variable {s : System}

theorem named_modifyCall (h : s.Named names) {f : Call → Call}
    (hf : ∀ call : Call, call.Named names → (f call).Named names) :
    (s.modifyCall k f).Named names := by
  refine ⟨h.manager, fun call hcall => ?_, h.fresh⟩
  obtain ⟨l, hl⟩ := List.getElem?_of_mem hcall
  unfold System.modifyCall at hl
  rw [List.getElem?_modify] at hl
  obtain ⟨call₀, hcall₀, rfl⟩ := Option.map_eq_some_iff.mp hl
  have hnamed := h.calls call₀ (List.mem_of_getElem? hcall₀)
  split
  · exact hf call₀ hnamed
  · exact hnamed

theorem named_deliver (h : s.Named names) (msg : Option Message) : (s.deliver msg).Named names := by
  unfold System.deliver
  split
  · exact named_modifyCall h fun call hcall => named_receive hcall _ _
  · exact h

/-- The tool of the request that is submitted. -/
def Ask.tool : Ask → Option String
  | .requestApproval req => some req.toolName
  | .submitRequest req _ => some req.toolName
  | _ => none

/-- The names with the one of a request that is submitted. -/
def Names.submit (names : Names) (ask : Ask) : Names :=
  match ask.subject with
  | some id => Function.update names id ask.tool
  | none => names

theorem grows_submit (h : s.Named names) {ask : Ask} (hnew : ∀ id ∈ ask.subject, id ∉ s.submitted) :
    names.Grows (names.submit ask) := by
  intro id tool hname
  unfold Names.submit
  cases hsubject : ask.subject with
  | none => exact hname
  | some id' =>
    have hne : id ≠ id' := by
      rintro rfl
      rw [h.fresh id (hnew id hsubject)] at hname
      cases hname
    exact (Function.update_of_ne hne _ _).trans hname

theorem named_start (ask : Ask) (policy : ApprovalPolicy) :
    (ask.start m policy).Named (names.submit ask) := by
  cases ask with
  | requestApproval req => exact Function.update_self ..
  | submitRequest req deferred => exact Function.update_self ..
  | resolve requestId d by_ totpVerified userId => trivial
  | expirePendingRequests now =>
    unfold Ask.start
    dsimp only
    split
    · trivial
    · trivial

/-- **No event changes the tool of a request.** -/
theorem named_step (hkeyed : s.Keyed) (h : s.Named names) (e : Event) :
    ∃ names', (step s e).Named names' ∧ names.Grows names' := by
  have hsame : names.Grows names := fun _ _ hname => hname
  cases e with
  | call ask =>
    unfold step System.start
    dsimp only
    split
    · exact ⟨names, h, hsame⟩
    · rename_i hnew
      have hgrows := @grows_submit names s h ask fun id hid hmem => hnew ⟨id, hid, hmem⟩
      refine ⟨names.submit ask, ⟨h.manager.mono hgrows, fun call hcall => ?_, fun id hid => ?_⟩,
        hgrows⟩
      · obtain hold | hcall := List.mem_append.mp hcall
        · exact (h.calls call hold).mono hgrows
        · rw [List.mem_singleton.mp hcall]
          exact named_start ask _
      · unfold Names.submit
        rw [List.mem_append, not_or] at hid
        cases hsubject : ask.subject with
        | none => exact h.fresh id hid.2
        | some id' =>
          have hne : id ≠ id' := by
            rintro rfl
            exact hid.1 (by rw [hsubject]; exact List.mem_singleton_self _)
          exact (Function.update_of_ne hne _ _).trans (h.fresh id hid.2)
  | act k now =>
    refine ⟨names, ?_, hsame⟩
    unfold step System.act
    dsimp only
    split
    · exact h
    · rename_i call hk
      have hnext := Call.named_next hkeyed.manager h.manager
        (h.calls call (List.mem_of_getElem? hk)) k now
      apply named_deliver
      refine ⟨hnext.1, fun call' hcall' => ?_, h.fresh⟩
      obtain hold | rfl := List.mem_or_eq_of_mem_set hcall'
      · exact h.calls call' hold
      · exact hnext.2
  | expire k => exact ⟨names, named_modifyCall h fun call => named_expire, hsame⟩
  | cancel k => exact ⟨names, named_modifyCall h fun call => named_cancel, hsame⟩
  | updatePolicy policy => exact ⟨names, ⟨⟨h.manager.pending, h.manager.rows⟩, h.calls, h.fresh⟩, hsame⟩
  | restart policy =>
    refine ⟨names, ⟨named_newWithDb policy h.manager, fun call hcall => ?_, h.fresh⟩, hsame⟩
    obtain ⟨call₀, -, rfl⟩ := List.mem_map.mp hcall
    exact named_crash call₀

theorem named_init (policy : ApprovalPolicy) : (System.init policy).Named fun _ => none where
  manager := ⟨fun _ _ h => absurd h (Option.some_ne_none _).symm,
    fun _ _ h => absurd h (Option.some_ne_none _).symm⟩
  calls := fun _ h => absurd h List.not_mem_nil
  fresh := fun _ _ => rfl

end LibreFang.Approval
