import LibreFang.Lib.Claims
import LibreFang.Approval.Decision

/-!
# Deferred executions

A request of `submit_request` comes with a deferred execution, which waits with it in the map, goes
with it from hand to hand, and is returned by the call that settles the request.

* `ApprovalManager.held`, `Call.inHand`, `Call.result`: the executions that wait in the map, that a
  call has in hand, and that it has returned; `Call.accepts`: the one that its step accepts.
* **`held_act`**: a step of a call adds to them what it accepts, and loses nothing.
-/

namespace LibreFang.Approval

open Custody

/-- A deferred execution, under the id of its request. -/
abbrev Execution := Uuid × DeferredToolExecution

/-- The execution of an entry. -/
def PendingRequest.held (p : PendingRequest) (id : Uuid) : List Execution :=
  p.deferred.toList.map (Prod.mk id)

/-- The executions that wait in the map. -/
def ApprovalManager.held (m : ApprovalManager) : List Execution :=
  m.pending.entries.flatMap fun e => e.2.held e.1

/-- The executions of the requests that have expired. -/
def Sweep.results (w : Sweep) : List Execution := w.expired.map fun r => (r.1, r.2.2)

/-- The executions that a call has taken and not returned. -/
def Call.inHand : Call → List Execution
  | .resolve (.deleteRow q p) | .resolve (.grace q p) | .resolve (.record q p)
  | .resolve (.send q p _) => p.held q.requestId
  | .sweep (.remove w) => w.results
  | .sweep (.insert w id p) | .sweep (.deleteRow w id p _) | .sweep (.record w id p _)
  | .sweep (.send w id p _) => p.held id ++ w.results
  | _ => []

/-- The executions that a call has returned. -/
def Call.result : Call → List Execution
  | .resolve (.returned (.ok (response, deferred))) =>
    deferred.toList.map (Prod.mk response.requestId)
  | .sweep (.returned _ expired) => expired.map fun r => (r.1, r.2.2)
  | _ => []

/-- What a call has taken, returned or not. -/
def Call.load (call : Call) : List Execution := call.inHand ++ call.result

/-- The execution that is accepted in the next step. -/
def Call.accepts : Call → List Execution
  | .submit (.insert req deferred) => [(req.id, deferred)]
  | _ => []

/-- The executions that wait, are in hand, or have been returned. -/
def System.held (s : System) : List Execution := s.manager.held ++ s.calls.flatMap Call.load

/-! ## The map -/

section Map

variable {m : ApprovalManager} {id : Uuid} {p : PendingRequest}

theorem held_removePending (h : m.pending.lookup id = some p) :
    m.held.Perm (p.held id ++ (m.removePending id).held) :=
  (Table.perm_erase h).flatMap_right _

theorem held_removePending_of_none (h : m.pending.lookup id = none) :
    (m.removePending id).held = m.held := by
  unfold ApprovalManager.held ApprovalManager.removePending
  dsimp only
  rw [Table.erase_of_notMem (AList.lookup_eq_none.mp h)]

theorem held_insertPending (h : id ∉ m.pending) :
    (m.insertPending id p).held = p.held id ++ m.held := by
  unfold ApprovalManager.held ApprovalManager.insertPending
  dsimp only
  rw [AList.entries_insert_of_notMem h, List.flatMap_cons]

theorem held_withGrace (q : Resolution) (now : Time) : (q.withGrace m p now).held = m.held := by
  unfold Resolution.withGrace
  split
  · split
    · rfl
    · rfl
  · rfl

end Map

/-! ## A step of a call -/

section Next

variable {m : ApprovalManager} {k : ℕ} {now : Time}

theorem SubmitCall.held_next {call : SubmitCall}
    (hfree : ∀ id, ((Call.submit call).role id).Holds → id ∉ m.pending) :
    ((call.next m now).1.held ++ (Call.submit (call.next m now).2).load).Perm
      ((Call.submit call).accepts ++ (m.held ++ (Call.submit call).load)) := by
  cases call with
  | duplicate | limit =>
    unfold SubmitCall.next
    dsimp only
    split
    · exact .refl _
    · exact .refl _
  | persist req deferred => exact .refl _
  | insert req deferred =>
    have hid : req.id ∉ m.pending := by
      apply hfree
      rw [role_of_subject rfl]
      trivial
    show ((m.insertPending req.id _).held ++ []).Perm _
    rw [held_insertPending hid]
    exact .refl _
  | returned result => exact .refl _

theorem ResolveCall.held_next {call : ResolveCall} (hkeyed : call.Keyed) :
    ((call.next m now).1.held ++ (Call.resolve (call.next m now).2.1).load).Perm
      (m.held ++ (Call.resolve call).load) := by
  cases call with
  | gate q =>
    unfold ResolveCall.next
    dsimp only
    split
    · exact .refl _
    · exact .refl _
  | remove q =>
    unfold ResolveCall.next
    dsimp only
    split
    next p hp =>
      have htaken := held_removePending hp
      show ((m.removePending q.requestId).held ++ (p.held q.requestId ++ [])).Perm (m.held ++ [])
      rw [List.append_nil, List.append_nil]
      exact List.perm_append_comm.trans htaken.symm
    next hp => rw [held_removePending_of_none hp]; exact .refl _
  | lookUp q => exact .refl _
  | deleteRow q p => exact .refl _
  | grace q p =>
    show ((q.withGrace m p now).held ++ _).Perm _
    rw [held_withGrace]
    exact .refl _
  | record q p => exact .refl _
  | send q p response =>
    obtain ⟨-, hid, -⟩ := hkeyed
    show (m.held ++ ([] ++ p.deferred.toList.map (Prod.mk response.requestId))).Perm
      (m.held ++ (p.held q.requestId ++ []))
    rw [hid, List.nil_append, List.append_nil]
    exact .refl _
  | returned result => exact .refl _

theorem SweepCall.held_next {call : SweepCall}
    (hfree : ∀ id, ((Call.sweep call).role id).Holds → id ∉ m.pending) :
    ((call.next m).1.held ++ (Call.sweep (call.next m).2.1).load).Perm
      (m.held ++ (Call.sweep call).load) := by
  cases call with
  | remove w =>
    unfold SweepCall.next
    dsimp only
    split
    · show (m.held ++ ([] ++ w.results)).Perm (m.held ++ (w.results ++ []))
      rw [List.nil_append, List.append_nil]
    · rename_i id rest hids
      dsimp only
      split
      next p hp =>
        have htaken := held_removePending hp
        have hload : (Call.sweep (({ w with ids := rest } : Sweep).decide id p)).load =
            p.held id ++ w.results := by
          unfold Sweep.decide
          split
          · exact List.append_nil _
          · exact List.append_nil _
        rw [hload]
        show ((m.removePending id).held ++ (p.held id ++ w.results)).Perm
          (m.held ++ (w.results ++ []))
        rw [List.append_nil, ← List.append_assoc]
        exact (List.perm_append_comm.trans htaken.symm).append_right _
      next hp => rw [held_removePending_of_none hp]; exact .refl _
  | insert w id p =>
    have hid : id ∉ m.pending := by
      apply hfree
      rw [role_of_subject rfl]
      trivial
    show ((m.insertPending id p).held ++ (w.results ++ [])).Perm
      (m.held ++ (p.held id ++ w.results ++ []))
    rw [held_insertPending hid, List.append_nil, List.append_nil, ← List.append_assoc]
    exact List.perm_append_comm.append_right _
  | deleteRow w id p d => exact .refl _
  | record w id p d => exact .refl _
  | send w id p d =>
    have hresults : (Call.sweep (SweepCall.next m (.send w id p d)).2.1).load =
        w.results ++ p.held id := by
      unfold SweepCall.next
      show Sweep.results _ ++ [] = _
      unfold Sweep.results PendingRequest.held
      rw [List.append_nil, List.map_append]
      cases p.deferred <;> rfl
    rw [hresults]
    show (m.held ++ _).Perm (m.held ++ (p.held id ++ w.results ++ []))
    rw [List.append_nil]
    exact List.perm_append_comm.append_left _
  | returned escalated expired => exact .refl _

/-- A call that waits for nobody. -/
def Call.Unblocked : Call → Prop
  | .request _ => False
  | _ => True

theorem Call.held_next {call : Call} (hkeyed : call.Keyed) (hunblocked : call.Unblocked)
    (hfree : ∀ id, (call.role id).Holds → id ∉ m.pending) :
    ((call.next m k now).1.held ++ (call.next m k now).2.1.load).Perm
      (call.accepts ++ (m.held ++ call.load)) := by
  cases call with
  | request call => exact hunblocked.elim
  | submit call => exact SubmitCall.held_next hfree
  | resolve call => exact ResolveCall.held_next hkeyed
  | sweep call => exact SweepCall.held_next hfree
  | gone => exact .refl _

theorem unblocked_next {call : Call} (h : call.Unblocked) (m : ApprovalManager) (k : ℕ)
    (now : Time) : (call.next m k now).2.1.Unblocked := by
  cases call with
  | request call => exact h.elim
  | _ => trivial

end Next

/-! ## Calls that wait for nobody -/

section System

variable {s : System} {k : ℕ} {now : Time} {call : Call}

/-- No call waits for a decision. -/
def System.Unblocked (s : System) : Prop := ∀ call ∈ s.calls, call.Unblocked

theorem deliver_of_unblocked (h : s.Unblocked) (msg : Option Message) : s.deliver msg = s := by
  unfold System.deliver
  split
  · rename_i tx d
    have hsame : s.calls.modify tx.call (Call.receive tx.call tx d) = s.calls := by
      apply List.ext_getElem?
      intro l
      rw [List.getElem?_modify]
      cases hl : s.calls[l]? with
      | none => rfl
      | some call =>
        have hcall := h call (List.mem_of_getElem? hl)
        cases call with
        | request call => exact hcall.elim
        | _ => split <;> rfl
    unfold System.modifyCall
    rw [hsame]
  · rfl

theorem act_of_unblocked (h : s.Unblocked) (hk : s.calls[k]? = some call) :
    s.act k now = ⟨(call.next s.manager k now).1, s.calls.set k (call.next s.manager k now).2.1,
      s.submitted⟩ := by
  unfold System.act
  rw [hk]
  apply deliver_of_unblocked
  intro call' hcall'
  obtain hold | rfl := List.mem_or_eq_of_mem_set hcall'
  · exact h call' hold
  · exact unblocked_next (h call (List.mem_of_getElem? hk)) _ _ _

/-- **No execution is lost** in a step of a call. -/
theorem held_act (htidy : AllTidy s) (h : s.Unblocked) (hk : s.calls[k]? = some call) :
    (s.act k now).held.Perm (call.accepts ++ s.held) := by
  have hmem := List.mem_of_getElem? hk
  have hnext : ((call.next s.manager k now).1.held ++ (call.next s.manager k now).2.1.load).Perm
      (call.accepts ++ (s.manager.held ++ call.load)) := by
    refine Call.held_next (htidy.keyed.calls call hmem) (h call hmem) fun id hid => ?_
    exact (htidy.tidy id).apart k (by rw [item_role hk]; exact hid)
  rw [act_of_unblocked h hk, List.perm_iff_count]
  intro a
  have hown := hnext.count_eq a
  have hset := Claims.count_flatMap_set (f := Call.load) hk (call.next s.manager k now).2.1 a
  unfold System.held
  dsimp only
  rw [List.count_append, List.count_append, List.count_append] at hown
  rw [List.count_append, List.count_append, List.count_append]
  omega

end System

end LibreFang.Approval
