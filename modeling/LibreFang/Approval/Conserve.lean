import Mathlib.Data.List.Perm.Basic
import LibreFang.Approval.Deferred

/-!
# No deferred execution is lost

* `HandEvent`: the calls of `submit_request`, `resolve`, `resolve_batch` and
  `expire_pending_requests`, and their steps.
* `Handed`: the system, the calls that a batch has made, and what has been accepted.
* `Conserved`: every execution that has been accepted is pending, in the hands of a call under way,
  or handed back, and it is once.
* **`conserved_of_unbatched`**: in unbatched runs the executions are conserved.
-/

namespace LibreFang.Approval

open Runs Custody

/-! ## Runs -/

/-- What can happen. -/
inductive HandEvent
  | submitRequest (req : ApprovalRequest) (deferred : DeferredToolExecution)
  | resolve (requestId : Uuid) (decision : ApprovalDecision) (decidedBy : Option String)
      (totpVerified : Bool) (userId : Option String)
  /-- a batch comes to a request -/
  | batch (requestId : Uuid) (decision : ApprovalDecision) (decidedBy : Option String)
  | expirePendingRequests (now : Time)
  /-- a call takes its next step -/
  | act (k : ℕ) (now : Time)
  | updatePolicy (policy : ApprovalPolicy)

/-- What it is to the system. -/
def HandEvent.event : HandEvent → Event
  | .submitRequest req deferred => .call (.submitRequest req deferred)
  | .resolve requestId decision decidedBy totpVerified userId =>
    .call (.resolve requestId decision decidedBy totpVerified userId)
  | .batch requestId decision decidedBy => .call (.resolve requestId decision decidedBy false none)
  | .expirePendingRequests now => .call (.expirePendingRequests now)
  | .act k now => .act k now
  | .updatePolicy policy => .updatePolicy policy

/-- The requests of a batch. -/
def handBatch (ids : List Uuid) (decision : ApprovalDecision) (decidedBy : Option String) :
    List HandEvent := ids.map fun id => .batch id decision decidedBy

/-- The system, the calls that a batch has made, and the executions that have been accepted. -/
structure Handed where
  sys : System
  batches : List ℕ
  accepted : List Execution

namespace Handed

/-- Nothing has happened. -/
def init (policy : ApprovalPolicy) : Handed := ⟨.init policy, [], []⟩

variable (h : Handed)

/-- The call that a batch makes. -/
def newBatch : HandEvent → List ℕ
  | .batch .. => [h.sys.calls.length]
  | _ => []

/-- What is accepted in an event. -/
def newAccepted : HandEvent → List Execution
  | .act k _ => h.sys.calls[k]?.elim [] Call.accepts
  | _ => []

end Handed

/-- One event. -/
def hand (h : Handed) (e : HandEvent) : Handed where
  sys := step h.sys e.event
  batches := h.newBatch e ++ h.batches
  accepted := h.newAccepted e ++ h.accepted

/-- The request that the call takes has no deferred execution. -/
def Call.TakesPlain (m : ApprovalManager) : Call → Prop
  | .resolve (.remove q) => ∀ p ∈ m.pending.lookup q.requestId, p.deferred = none
  | _ => True

namespace Handed

variable (h : Handed)

/-- What the calls under way have in hand. -/
def inHand : List Execution := h.sys.calls.flatMap Call.inHand

/-- What callers have got back; a batch returns the responses alone. -/
def handedBack : List Execution :=
  h.sys.calls.zipIdx.flatMap fun c => if c.2 ∈ h.batches then [] else c.1.result

/-- **Executions are conserved**: what has been accepted, once for each request, is what is pending,
what calls under way have in hand, and what has been handed back. -/
structure Conserved : Prop where
  once : (h.accepted.map Prod.fst).Nodup
  kept : (h.sys.manager.held ++ h.inHand ++ h.handedBack).Perm h.accepted

/-- A batch that takes a request finds no deferred execution. -/
def Unbatched : HandEvent → Prop
  | .act k _ => k ∈ h.batches → ∀ call ∈ h.sys.calls[k]?, call.TakesPlain h.sys.manager
  | _ => True

instance (m : ApprovalManager) : DecidablePred (Call.TakesPlain m) := fun call => by
  unfold Call.TakesPlain
  split <;> infer_instance

instance : DecidablePred h.Unbatched := fun e => by
  unfold Unbatched
  split <;> infer_instance

end Handed

/-! ## Submissions -/

/-- The call is about to submit the request. -/
def Call.Submits (x : Uuid) : Call → Bool
  | .submit call => call.subject = some x
  | _ => false

/-- The submissions of a request, under way and accepted. -/
def Handed.claims (h : Handed) (x : Uuid) : ℕ :=
  h.sys.calls.countP (Call.Submits x) + (h.accepted.map Prod.fst).count x

section Submissions

variable {s : System} {m : ApprovalManager} {k : ℕ} {now : Time} {x : Uuid}

theorem SubmitCall.submits_next (call : SubmitCall) :
    ((Call.submit (call.next m now).2).Submits x).toNat +
        ((Call.submit call).accepts.map Prod.fst).count x ≤
      ((Call.submit call).Submits x).toNat := by
  cases call with
  | duplicate | limit =>
    unfold SubmitCall.next
    dsimp only
    split
    · exact Nat.zero_le _
    · exact le_rfl
  | persist req deferred => exact le_rfl
  | insert req deferred =>
    show 0 + [req.id].count x ≤ (decide (some req.id = some x)).toNat
    by_cases hid : req.id = x
    · subst hid
      simp
    · simp [hid]
  | returned result => exact le_rfl

theorem Call.submits_next (call : Call) :
    ((call.next m k now).2.1.Submits x).toNat + (call.accepts.map Prod.fst).count x ≤
      (call.Submits x).toNat := by
  cases call with
  | submit call => exact call.submits_next
  | _ => exact le_rfl

end Submissions

/-! ## The invariant -/

/-- What is known of a run. -/
structure HandInv (h : Handed) : Prop where
  tidy : AllTidy h.sys
  unblocked : h.sys.Unblocked
  kept : h.sys.held.Perm h.accepted
  once : ∀ x, h.claims x ≤ 1
  fresh : ∀ x, x ∉ h.sys.submitted → h.claims x = 0
  batch : ∀ k ∈ h.batches, ∃ c, h.sys.calls[k]? = some (.resolve c) ∧ (Call.resolve c).load = []

section Invariant

variable {h : Handed} {k : ℕ} {now : Time} {call : Call}

theorem HandInv.handedBack_eq (hinv : HandInv h) :
    h.handedBack = h.sys.calls.flatMap Call.result := by
  have hfst : h.sys.calls.zipIdx.flatMap (fun c => c.1.result) =
      h.sys.calls.flatMap Call.result := by
    rw [← List.flatMap_map, List.zipIdx_map_fst]
  rw [← hfst]
  unfold Handed.handedBack
  apply List.flatMap_congr
  intro c hc
  split
  next hbatch =>
    obtain ⟨c', hcall, hload⟩ := hinv.batch _ hbatch
    rw [List.mem_zipIdx_iff_getElem?.mp hc] at hcall
    rw [Option.some.inj hcall]
    exact (List.append_eq_nil_iff.mp hload).2.symm
  next => rfl

theorem HandInv.conserved (hinv : HandInv h) : h.Conserved := by
  refine ⟨List.nodup_iff_count_le_one.mpr fun x => ?_, ?_⟩
  · exact (Nat.le_add_left _ _).trans (hinv.once x)
  · rw [hinv.handedBack_eq, List.append_assoc]
    exact ((List.flatMap_append_perm _ _ _).append_left _).trans hinv.kept

theorem load_next_of_takesPlain {m : ApprovalManager} {c : ResolveCall}
    (hload : (Call.resolve c).load = []) (hplain : (Call.resolve c).TakesPlain m) :
    (Call.resolve (c.next m now).2.1).load = [] := by
  cases c with
  | gate q =>
    unfold ResolveCall.next
    dsimp only
    split
    · rfl
    · rfl
  | remove q =>
    unfold ResolveCall.next
    dsimp only
    split
    next p hp =>
      show p.held q.requestId ++ [] = []
      unfold PendingRequest.held
      rw [hplain p hp]
      rfl
    · rfl
  | lookUp q => rfl
  | deleteRow q p => exact hload
  | grace q p => exact hload
  | record q p => exact hload
  | send q p response =>
    have hnone : p.deferred = none := by
      cases hp : p.deferred with
      | none => rfl
      | some deferred =>
        have hheld : p.held q.requestId ++ [] = [] := hload
        unfold PendingRequest.held at hheld
        rw [hp] at hheld
        cases hheld
    show [] ++ p.deferred.toList.map _ = []
    rw [hnone]
    rfl
  | returned result => exact hload

theorem handled_of_unblocked {s : System} (hs : s.Unblocked) (e : Event) : s.Handled False e := by
  cases e with
  | act k now =>
    intro call hcall
    have hunblocked := hs call (List.mem_of_getElem? hcall)
    cases call with
    | request call => exact hunblocked.elim
    | _ => exact ⟨trivial, fun t ht => by cases ht⟩
  | _ => trivial

theorem newAccepted_act (hk : h.sys.calls[k]? = some call) :
    h.newAccepted (.act k now) = call.accepts := by
  unfold Handed.newAccepted
  dsimp only
  rw [hk]
  rfl

theorem hand_act_of_none (hk : h.sys.calls[k]? = none) : hand h (.act k now) = h := by
  have hsys : step h.sys (.act k now) = h.sys := step_act_of_none hk now
  have haccepted : h.newAccepted (.act k now) = [] := by
    unfold Handed.newAccepted
    dsimp only
    rw [hk]
    rfl
  show Handed.mk (step h.sys (.act k now)) h.batches (h.newAccepted _ ++ h.accepted) = h
  rw [hsys, haccepted]
  rfl

theorem claims_act (hunblocked : h.sys.Unblocked) (hk : h.sys.calls[k]? = some call) (x : Uuid) :
    (hand h (.act k now)).claims x ≤ h.claims x := by
  have hset := Claims.countP_set (P := Call.Submits x) hk (call.next h.sys.manager k now).2.1
  have hnext := @Call.submits_next h.sys.manager k now x call
  show (h.sys.act k now).calls.countP _ +
    ((h.newAccepted (.act k now) ++ h.accepted).map Prod.fst).count x ≤ h.claims x
  rw [act_of_unblocked hunblocked hk, newAccepted_act hk, List.map_append, List.count_append]
  unfold Handed.claims
  dsimp only
  omega

theorem handInv_act (hinv : HandInv h) (hunbatched : h.Unbatched (.act k now)) :
    HandInv (hand h (.act k now)) := by
  cases hk : h.sys.calls[k]? with
  | none => rwa [hand_act_of_none hk]
  | some call =>
    have hact : h.sys.act k now = ⟨(call.next h.sys.manager k now).1,
        h.sys.calls.set k (call.next h.sys.manager k now).2.1, h.sys.submitted⟩ :=
      act_of_unblocked hinv.unblocked hk
    refine ⟨allTidy_step hinv.tidy (handled_of_unblocked hinv.unblocked (.act k now)), ?_, ?_,
      fun x => ?_, fun x hx => ?_, fun k' hk' => ?_⟩
    · show (h.sys.act k now).Unblocked
      rw [hact]
      intro call' hcall'
      obtain hold | rfl := List.mem_or_eq_of_mem_set hcall'
      · exact hinv.unblocked call' hold
      · exact unblocked_next (hinv.unblocked call (List.mem_of_getElem? hk)) _ _ _
    · show (h.sys.act k now).held.Perm (h.newAccepted (.act k now) ++ h.accepted)
      rw [newAccepted_act hk]
      exact (held_act hinv.tidy hinv.unblocked hk).trans (hinv.kept.append_left _)
    · exact (claims_act hinv.unblocked hk x).trans (hinv.once x)
    · have hsubmitted : x ∉ (h.sys.act k now).submitted := hx
      rw [hact] at hsubmitted
      have hle : (hand h (.act k now)).claims x ≤ h.claims x := claims_act hinv.unblocked hk x
      exact Nat.le_zero.mp (hle.trans_eq (hinv.fresh x hsubmitted))
    · obtain ⟨c, hc, hload⟩ := hinv.batch k' hk'
      show ∃ c', (h.sys.act k now).calls[k']? = some (.resolve c') ∧ _
      rw [hact]
      by_cases hsame : k' = k
      · subst hsame
        obtain rfl := Option.some.inj (hk.symm.trans hc)
        refine ⟨_, List.getElem?_set_self (List.getElem?_eq_some_iff.mp hk).1, ?_⟩
        exact load_next_of_takesPlain hload (hunbatched hk' _ hk)
      · exact ⟨c, (List.getElem?_set_ne (Ne.symm hsame)).trans hc, hload⟩

theorem load_start (ask : Ask) (m : ApprovalManager) (policy : ApprovalPolicy) :
    (ask.start m policy).load = [] := by
  cases ask with
  | expirePendingRequests now =>
    unfold Ask.start
    dsimp only
    split
    · rfl
    · rfl
  | _ => rfl

theorem subject_of_submits {ask : Ask} {m : ApprovalManager} {policy : ApprovalPolicy} {x : Uuid}
    (hx : (ask.start m policy).Submits x = true) : ask.subject = some x := by
  cases ask with
  | submitRequest req deferred => exact of_decide_eq_true hx
  | expirePendingRequests now =>
    unfold Ask.start at hx
    dsimp only at hx
    split at hx
    · cases hx
    · cases hx
  | _ => cases hx

theorem start_of_new {s : System} {ask : Ask} (hnew : ¬ ∃ id ∈ ask.subject, id ∈ s.submitted) :
    s.start ask = ⟨s.manager, s.calls ++ [ask.start s.manager s.manager.policy],
      ask.subject.toList ++ s.submitted⟩ := if_neg hnew

theorem claims_start {ask : Ask} (hnew : ¬ ∃ id ∈ ask.subject, id ∈ h.sys.submitted) (x : Uuid) :
    Handed.claims ⟨h.sys.start ask, h.batches, h.accepted⟩ x =
      h.claims x + ((ask.start h.sys.manager h.sys.manager.policy).Submits x).toNat := by
  unfold Handed.claims
  dsimp only
  rw [start_of_new hnew, List.countP_append, List.countP_singleton]
  cases (ask.start h.sys.manager h.sys.manager.policy).Submits x
  · rfl
  · exact Nat.add_right_comm ..

theorem handInv_start (hinv : HandInv h) (ask : Ask)
    (hask : (ask.start h.sys.manager h.sys.manager.policy).Unblocked) :
    HandInv ⟨h.sys.start ask, h.batches, h.accepted⟩ := by
  by_cases hnew : ∃ id ∈ ask.subject, id ∈ h.sys.submitted
  · have hsame : h.sys.start ask = h.sys := if_pos hnew
    rwa [hsame]
  · have hstart := start_of_new hnew
    refine ⟨allTidy_step hinv.tidy (handled_of_unblocked hinv.unblocked (.call ask)), ?_, ?_,
      fun x => ?_, fun x hx => ?_, fun k hk => ?_⟩
    · show (h.sys.start ask).Unblocked
      rw [hstart]
      intro call hcall
      obtain hold | hcall := List.mem_append.mp hcall
      · exact hinv.unblocked call hold
      · rwa [List.mem_singleton.mp hcall]
    · show (h.sys.start ask).held.Perm h.accepted
      rw [hstart]
      unfold System.held
      dsimp only
      rw [List.flatMap_append, List.flatMap_singleton, load_start, List.append_nil]
      exact hinv.kept
    · rw [claims_start hnew]
      cases hsubmits : (ask.start h.sys.manager h.sys.manager.policy).Submits x with
      | false => exact hinv.once x
      | true =>
        rw [hinv.fresh x fun hmem => hnew ⟨x, subject_of_submits hsubmits, hmem⟩]
        exact le_rfl
    · have hsubmitted : x ∉ (h.sys.start ask).submitted := hx
      rw [hstart] at hsubmitted
      obtain ⟨hsubject, hold⟩ := not_or.mp (List.mem_append.not.mp hsubmitted)
      have hsubmits : (ask.start h.sys.manager h.sys.manager.policy).Submits x = false := by
        refine Bool.eq_false_iff.mpr fun hsubmits => hsubject ?_
        rw [subject_of_submits hsubmits]
        exact List.mem_singleton_self x
      rw [claims_start hnew, hinv.fresh x hold, hsubmits]
      rfl
    · obtain ⟨c, hc, hload⟩ := hinv.batch k hk
      refine ⟨c, ?_, hload⟩
      show (h.sys.start ask).calls[k]? = some _
      rw [hstart]
      exact (List.getElem?_append_left (List.getElem?_eq_some_iff.mp hc).1).trans hc

theorem handInv_batch (hinv : HandInv h) (id : Uuid) (d : ApprovalDecision) (by_ : Option String) :
    HandInv (hand h (.batch id d by_)) := by
  have hstart := handInv_start hinv (.resolve id d by_ false none) trivial
  refine ⟨hstart.tidy, hstart.unblocked, hstart.kept, hstart.once, hstart.fresh, fun k hk => ?_⟩
  obtain hk | hk := List.mem_append.mp hk
  · obtain rfl := List.mem_singleton.mp hk
    have hnew : ¬ ∃ id' ∈ (Ask.resolve id d by_ false none).subject, id' ∈ h.sys.submitted := by
      rintro ⟨id', hid', -⟩
      cases hid'
    refine ⟨.gate ⟨h.sys.manager.policy, id, d, by_, false, none⟩, ?_, rfl⟩
    show (h.sys.start (.resolve id d by_ false none)).calls[h.sys.calls.length]? = _
    rw [start_of_new hnew]
    exact List.getElem?_concat_length
  · exact hstart.batch k hk

theorem unblocked_sweep (m : ApprovalManager) (policy : ApprovalPolicy) (now : Time) :
    ((Ask.expirePendingRequests now).start m policy).Unblocked := by
  unfold Ask.start
  dsimp only
  split
  · trivial
  · trivial

theorem handInv_hand (h : Handed) (e : HandEvent) (hinv : HandInv h) (he : h.Unbatched e) :
    HandInv (hand h e) := by
  cases e with
  | submitRequest req deferred => exact handInv_start hinv _ trivial
  | resolve requestId d by_ totpVerified userId => exact handInv_start hinv _ trivial
  | batch requestId d by_ => exact handInv_batch hinv requestId d by_
  | expirePendingRequests now => exact handInv_start hinv _ (unblocked_sweep _ _ now)
  | act k now => exact handInv_act hinv he
  | updatePolicy policy =>
    exact ⟨allTidy_step hinv.tidy (handled_of_unblocked hinv.unblocked (.updatePolicy policy)),
      hinv.unblocked, hinv.kept, hinv.once, hinv.fresh, hinv.batch⟩

theorem handInv_init (policy : ApprovalPolicy) : HandInv (.init policy) where
  tidy := allTidy_init policy
  unblocked := fun _ h => absurd h List.not_mem_nil
  kept := .refl _
  once := fun _ => Nat.zero_le _
  fresh := fun _ _ => rfl
  batch := fun _ h => absurd h List.not_mem_nil

end Invariant

/-- **Unbatched runs conserve deferred executions.** In every state of an unbatched run what has
been accepted is pending, in hand, or handed back, once. -/
theorem conserved_of_unbatched (policy : ApprovalPolicy) (es : List HandEvent)
    (h : Along hand Handed.Unbatched (.init policy) es) :
    ∀ before rest, es = before ++ rest → (after hand (.init policy) before).Conserved := by
  rintro before rest rfl
  have hinv : HandInv (after hand (.init policy) before) :=
    invariant handInv_hand (handInv_init policy) ((along_append _).mp h).1
  exact hinv.conserved

/-- The `k`th call takes `n` steps. -/
def handActs (k n : ℕ) : List HandEvent := List.replicate n (.act k 0)

/-- A request is escalated, a batch comes to another one, and the request is approved. -/
def escalatedAndHandedBack : List HandEvent :=
  .submitRequest (sampleRequest "r") ⟨"t"⟩ :: handActs 0 4 ++
    .expirePendingRequests (61 * second) :: handActs 1 3 ++
    handBatch ["s"] .denied (some "api") ++ handActs 2 6 ++
    .resolve "r" .approved (some "api") false none :: handActs 3 6

theorem conserved_escalatedAndHandedBack :
    (after hand (.init escalatingPolicy) escalatedAndHandedBack).Conserved :=
  conserved_of_unbatched escalatingPolicy _ (by decide) _ [] (List.append_nil _).symm

/-- A batch approves a request that has a deferred execution. -/
def batchTakesDeferred : List HandEvent :=
  .submitRequest (sampleRequest "r") ⟨"t"⟩ :: handActs 0 4 ++
    handBatch ["r"] .approved (some "api") ++ handActs 1 6

/-- **The batch drops** the execution. -/
theorem batchTakesDeferred_not_conserved :
    ¬ (after hand (.init denyingPolicy) batchTakesDeferred).Conserved := by
  intro h
  exact absurd h.kept.length_eq (by decide)

end LibreFang.Approval
