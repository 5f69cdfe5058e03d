import LibreFang.Lib.Runs
import LibreFang.Approval.Simulation

/-!
# Durable pending requests

* `Durable`: while all calls are done or wait, the rows are those of the pending requests, and a
  restart restores these; a request that a call has finished with has no row.
* **`durable_of_orderly`**: orderly runs keep the rows and the pending requests in step.
-/

namespace LibreFang.Approval

open Runs Custody

/-! ## The property -/

/-- The call is done, or waits for its timer. -/
def Call.Quiet : Call → Prop
  | .request (.await _) | .request (.returned ..) | .submit (.returned _)
  | .resolve (.returned _) | .sweep (.returned ..) | .gone => True
  | _ => False

instance : DecidablePred Call.Quiet := fun call => by
  unfold Call.Quiet
  split <;> infer_instance

/-- The call has returned a decision on the request. -/
def Call.Decided (id : Uuid) : Call → Prop
  | .request (.returned id' _ _) => id' = id
  | .resolve (.returned (.ok (response, _))) => response.requestId = id
  | _ => False

/-- A call has finished with the request. -/
def System.Finished (s : System) (id : Uuid) : Prop :=
  s.manager.outcomes id ≠ [] ∨ ∃ call ∈ s.calls, call.Decided id

/-- The rows are in step with the pending requests. -/
structure Durable (s : System) : Prop where
  rows : (∀ call ∈ s.calls, call.Quiet) →
    ∀ id, id ∈ s.manager.auditDb.pendingApprovals ↔ id ∈ s.manager.pending
  restored : (∀ call ∈ s.calls, call.Quiet) → ∀ policy id,
    id ∈ (ApprovalManager.newWithDb policy s.manager.auditDb).pending ↔ id ∈ s.manager.pending
  finished : ∀ id, s.Finished id → id ∉ s.manager.auditDb.pendingApprovals

/-! ## The condition -/

/-- The step of the call leaves no row behind. -/
def Call.Orderly (s : System) : Call → Prop
  | .request (.limit t) =>
    t.round = 0 ∨ s.manager.pendingCountForAgent t.req.agentId < maxPendingPerAgent
  | .request (.remove t) =>
    t.req.id ∈ s.manager.pending ∨
      timeoutDecision t.req t.fallback ≠ .escalate ∧ ∀ call ∈ s.calls, ¬ call.Puts t.req.id
  | _ => True

/-- No request is refused another round, and a call that does not find its request neither
escalates it nor settles it under the hands of another. -/
def Orderly (s : System) : Event → Prop
  | .act k _ => ∀ call ∈ s.calls[k]?, call.Orderly s
  | _ => True

instance (id : Uuid) : DecidablePred (Call.Puts id) := fun call => by
  unfold Call.Puts
  split <;> infer_instance

instance (s : System) : DecidablePred (Call.Orderly s) := fun call => by
  unfold Call.Orderly
  split <;> infer_instance

instance (s : System) : DecidablePred (Orderly s) := fun e => by
  unfold Orderly
  split <;> infer_instance

theorem handled_of_orderly {s : System} {e : Event} (h : Orderly s e) : s.Handled True e := by
  cases e with
  | act k now =>
    intro call hcall
    have horderly := h call hcall
    cases call with
    | request call =>
      cases call with
      | limit t => exact ⟨horderly, fun t' ht' => by cases ht'⟩
      | remove t =>
        refine ⟨horderly.imp_right And.left, fun t' ht' hnone => ⟨trivial, ?_⟩⟩
        cases ht'
        exact (horderly.resolve_left hnone).2
      | _ => exact ⟨trivial, fun t' ht' => by cases ht'⟩
    | _ => exact ⟨trivial, fun t' ht' => by cases ht'⟩
  | _ => trivial

/-! ## Runs -/

section Runs

variable {s : System}

theorem item_init (policy : ApprovalPolicy) (x : Uuid) : (System.init policy).item x = .unknown := by
  unfold System.item Item.unknown
  congr 1
  · exact eq_false List.not_mem_nil
  · unfold System.init
    dsimp only
    rw [store_newWithDb]
    congr 1
    · exact eq_false (AList.notMem_empty x)
    · exact eq_false (AList.notMem_empty x)

/-- Every request is in one hand. -/
structure AllTidy (s : System) : Prop where
  keyed : s.Keyed
  tidy : ∀ x, Tidy (s.item x)

theorem allTidy_init (policy : ApprovalPolicy) : AllTidy (System.init policy) :=
  ⟨keyed_init policy, fun x => item_init policy x ▸ Tidy.of_unknown⟩

theorem allTidy_step {late : Prop} {e : Event} (h : AllTidy s) (he : s.Handled late e) :
    AllTidy (step s e) :=
  ⟨keyed_step h.keyed e, fun x => (h.tidy x).steps (item_step h.keyed he)⟩

theorem notHolds_of_quiet {call : Call} (h : call.Quiet) (x : Uuid) : ¬ (call.role x).Holds := by
  unfold Call.role
  split
  · cases call with
    | request call =>
      cases call with
      | await t => exact id
      | returned id' d entered => cases entered <;> exact id
      | _ => exact h.elim
    | submit call =>
      cases call with
      | returned result => exact id
      | _ => exact h.elim
    | resolve call =>
      cases call with
      | returned result => cases result <;> exact id
      | _ => exact h.elim
    | sweep call =>
      cases call with
      | returned escalated expired => exact id
      | _ => exact h.elim
    | gone => exact id
  · exact id

theorem settled_of_decided {call : Call} {x : Uuid} (h : call.Decided x) :
    (call.role x).Settled := by
  cases call with
  | request call =>
    cases call with
    | returned id d entered =>
      obtain rfl : id = x := h
      rw [role_of_subject rfl]
      cases entered <;> trivial
    | _ => exact h.elim
  | resolve call =>
    cases call with
    | returned result =>
      cases result with
      | error text => exact h.elim
      | ok result =>
        obtain ⟨response, deferred⟩ := result
        obtain rfl : response.requestId = x := h
        rw [role_of_subject rfl]
        trivial
    | _ => exact h.elim
  | _ => exact h.elim

theorem AllTidy.durable (h : AllTidy s) : Durable s := by
  have hrows : (∀ call ∈ s.calls, call.Quiet) →
      ∀ id, id ∈ s.manager.auditDb.pendingApprovals ↔ id ∈ s.manager.pending := by
    intro hquiet id
    refine ⟨fun hrow => ?_, (h.tidy id).map_row⟩
    obtain hmap | ⟨k, hk⟩ := (h.tidy id).row_held hrow
    · exact hmap
    · -- only a call that holds the request could account for the row
      cases hcall : s.calls[k]? with
      | none =>
        unfold System.item at hk
        dsimp only at hk
        rw [hcall] at hk
        exact hk.elim
      | some call =>
        rw [item_role hcall] at hk
        exact absurd (Role.holds_of_backed hk)
          (notHolds_of_quiet (hquiet call (List.mem_of_getElem? hcall)) id)
  refine ⟨hrows, fun hquiet policy id => ?_, fun id hfinished => ?_⟩
  · exact Table.mem_mapVal.trans (hrows hquiet id)
  · refine ((h.tidy id).settled ?_).noRow
    refine hfinished.imp_right fun ⟨call, hcall, hdecided⟩ => ?_
    obtain ⟨k, hk⟩ := List.getElem?_of_mem hcall
    exact ⟨k, by rw [item_role hk]; exact settled_of_decided hdecided⟩

/-- **Orderly runs are durable.** In every state of an orderly run the rows are in step with the
pending requests. -/
theorem durable_of_orderly (policy : ApprovalPolicy) (es : List Event)
    (h : Along step Orderly (.init policy) es) :
    ∀ before rest, es = before ++ rest → Durable (after step (.init policy) before) := by
  rintro before rest rfl
  have htidy : AllTidy (after step (.init policy) before) :=
    invariant (fun s e hs he => allTidy_step hs (handled_of_orderly he)) (allTidy_init policy)
      ((along_append _).mp h).1
  exact htidy.durable

end Runs

/-- A policy that escalates. -/
def escalatingPolicy : ApprovalPolicy := ⟨.escalate 30, .none, [], 0⟩

/-- A request of agent `a`. -/
def sampleRequest (id : Uuid) : ApprovalRequest :=
  ⟨id, "a", "shell_exec", "", "", .critical, 0, 60, 0, none⟩

/-- A call takes `n` steps. -/
def acts (k n : ℕ) : List Event := List.replicate n (.act k 0)

/-- A request is escalated and then approved. -/
def escalatedAndApproved : List Event :=
  .call (.requestApproval (sampleRequest "r")) :: acts 0 3 ++ .expire 0 :: acts 0 4 ++
    .call (.resolve "r" .approved (some "api") false none) :: acts 1 6

theorem durable_escalatedAndApproved :
    Durable (after step (.init escalatingPolicy) escalatedAndApproved) :=
  durable_of_orderly escalatingPolicy _ (by decide) _ [] (List.append_nil _).symm

/-- While a request is escalated, its agent submits five others. -/
def deniedAfterEscalation : List Event :=
  .call (.requestApproval (sampleRequest "r")) :: acts 0 3 ++ .expire 0 :: acts 0 1 ++
    [("s1", 1), ("s2", 2), ("s3", 3), ("s4", 4), ("s5", 5)].flatMap (fun e =>
      .call (.submitRequest (sampleRequest e.1) ⟨e.1⟩) :: acts e.2 4) ++ acts 0 1

theorem deniedAfterEscalation_not_durable :
    ¬ Durable (after step (.init escalatingPolicy) deniedAfterEscalation) := by
  intro h
  have hrow := (h.rows (by decide) "r").mp (by decide)
  exact absurd hrow (by decide)

end LibreFang.Approval
