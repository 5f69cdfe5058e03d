import LibreFang.Approval.Durable

/-!
# One decision on a request

* `SingleDecision`: at most one terminal decision is recorded for a request, every call that has
  returned one has returned this one, and the request is not pending again.
* `Prompt`: no request is refused another round, and an expired `request_approval` finds its
  request pending.
* **`singleDecision_of_prompt`**: in prompt runs there is one decision on a request.
-/

namespace LibreFang.Approval

open Runs Custody

/-! ## The property -/

/-- There is one decision on each request. A request that was refused before it was pending has
none. -/
structure SingleDecision (s : System) : Prop where
  recorded : ∀ id, (s.manager.outcomes id).length ≤ 1
  returned : ∀ id d, .request (.returned id d true) ∈ s.calls →
    s.manager.outcomes id = [d.verdict]
  refused : ∀ id d, .request (.returned id d false) ∈ s.calls → s.manager.outcomes id = []
  resolved : ∀ response deferred, .resolve (.returned (.ok (response, deferred))) ∈ s.calls →
    s.manager.outcomes response.requestId = [response.decision.verdict] ∧
      response.requestId ∉ s.manager.pending

/-! ## The condition -/

/-- The call is not refused another round, and finds its request when it has expired. -/
def Call.Prompt (m : ApprovalManager) : Call → Prop
  | .request (.limit t) =>
    t.round = 0 ∨ m.pendingCountForAgent t.req.agentId < maxPendingPerAgent
  | .request (.remove t) => t.req.id ∈ m.pending
  | _ => True

/-- No request is refused another round or taken from a call that has expired. -/
def Prompt (s : System) : Event → Prop
  | .act k _ => ∀ call ∈ s.calls[k]?, call.Prompt s.manager
  | _ => True

instance (m : ApprovalManager) : DecidablePred (Call.Prompt m) := fun call => by
  cases call with
  | request call => cases call <;> (unfold Call.Prompt; infer_instance)
  | _ => exact .isTrue trivial

instance (s : System) : DecidablePred (Prompt s)
  | .act k _ =>
    decidable_of_iff ((s.calls[k]?.all fun call => decide (call.Prompt s.manager)) = true)
      (by simp [Prompt, Option.all_eq_true])
  | .call _ | .expire _ | .cancel _ | .updatePolicy _ | .restart _ => .isTrue trivial

theorem handled_of_prompt {s : System} {e : Event} (h : Prompt s e) : s.Handled False e := by
  cases e with
  | act k now =>
    intro call hcall
    have hprompt := h call hcall
    cases call with
    | request call =>
      cases call with
      | limit t => exact ⟨hprompt, fun t' ht' => by cases ht'⟩
      | remove t =>
        refine ⟨.inl hprompt, fun t' ht' hnone => ?_⟩
        cases ht'
        exact absurd hprompt hnone
      | _ => exact ⟨trivial, fun t' ht' => by cases ht'⟩
    | _ => exact ⟨trivial, fun t' ht' => by cases ht'⟩
  | _ => trivial

/-! ## Runs -/

section Runs

variable {s : System}

/-- There is one verdict on every request. -/
structure AllSingle (s : System) : Prop where
  keyed : s.Keyed
  single : ∀ x, Single (s.item x)

theorem allSingle_init (policy : ApprovalPolicy) : AllSingle (System.init policy) :=
  ⟨keyed_init policy, fun x => item_init policy x ▸ Single.of_unknown⟩

theorem allSingle_step {e : Event} (h : AllSingle s) (he : Prompt s e) : AllSingle (step s e) :=
  ⟨keyed_step h.keyed e, fun x => (h.single x).steps (item_step h.keyed (handled_of_prompt he))⟩

theorem AllSingle.outcomes (h : AllSingle s) {call : Call} (hcall : call ∈ s.calls) {x : Uuid}
    {v : Verdict} (hv : (call.role x).verdict = some v) : s.manager.outcomes x = [v] := by
  obtain ⟨k, hk⟩ := List.getElem?_of_mem hcall
  have hmem : v ∈ s.manager.outcomes x :=
    (h.single x).told k v (by rw [item_role hk, hv])
  obtain ⟨v', hv'⟩ : ∃ v', s.manager.outcomes x = [v'] :=
    List.length_eq_one_iff.mp
      (le_antisymm (h.single x).records_le (List.length_pos_of_mem hmem))
  rw [hv'] at hmem ⊢
  rw [List.mem_singleton.mp hmem]

theorem AllSingle.singleDecision (h : AllSingle s) : SingleDecision s := by
  refine ⟨fun id => (h.single id).records_le, fun id d hcall => ?_, fun id d hcall => ?_,
    fun response deferred hcall => ?_⟩
  · refine h.outcomes hcall ?_
    rw [role_of_subject rfl]
    rfl
  · obtain ⟨k, hk⟩ := List.getElem?_of_mem hcall
    refine ((h.single id).refused k ?_).1
    rw [item_role hk, role_of_subject rfl]
    rfl
  · have hone : s.manager.outcomes response.requestId = [response.decision.verdict] := by
      refine h.outcomes hcall ?_
      rw [role_of_subject rfl]
      rfl
    refine ⟨hone, ((h.single response.requestId).tidy.settled (.inl ?_)).notInMap⟩
    show s.manager.outcomes response.requestId ≠ []
    rw [hone]
    exact List.cons_ne_nil _ _

/-- **Prompt runs decide once.** In every state of a prompt run there is one decision on each
request. -/
theorem singleDecision_of_prompt (policy : ApprovalPolicy) (es : List Event)
    (h : Along step Prompt (.init policy) es) :
    ∀ before rest, es = before ++ rest → SingleDecision (after step (.init policy) before) := by
  rintro before rest rfl
  have hsingle : AllSingle (after step (.init policy) before) :=
    invariant (fun s e => allSingle_step) (allSingle_init policy) ((along_append _).mp h).1
  exact hsingle.singleDecision

end Runs

theorem singleDecision_escalatedAndApproved :
    SingleDecision (after step (.init escalatingPolicy) escalatedAndApproved) :=
  singleDecision_of_prompt escalatingPolicy _ (by decide) _ [] (List.append_nil _).symm

/-- A policy that denies what expires. -/
def denyingPolicy : ApprovalPolicy := ⟨.deny, .none, [], 0⟩

/-- A request is approved after its timer has fired, and before the waiting call has removed it. -/
def approvedWhileExpiring : List Event :=
  .call (.requestApproval (sampleRequest "r")) :: acts 0 3 ++ .expire 0 ::
    .call (.resolve "r" .approved (some "api") false none) :: acts 1 6 ++ acts 0 3

theorem approvedWhileExpiring_two_decisions :
    ¬ SingleDecision (after step (.init denyingPolicy) approvedWhileExpiring) := by
  intro h
  exact absurd (h.recorded "r") (by decide)

end LibreFang.Approval
