import LibreFang.Approval.Names
import LibreFang.Approval.Decision

/-!
# The second factor behind an approval

* `GateView`, `Watched`: what the gate of a call saw, and who has approved a protected tool with a
  verified code.
* **`totpGated_of_attributed`**: in attributed runs every approval is gated.
* **`unknownUser_not_gated`**: a call without a user inherits the grace period of a user whose id
  is `unknown`.
-/

namespace LibreFang.Approval

open Runs

/-- What the gate of a call saw: when, the tool of its request if that was pending, and who had
approved with a verified code by then. -/
structure GateView where
  time : Time
  tool : Option String
  verified : List (String × Time)

/-- The system, what each gate saw, and who has approved a protected tool with a verified code and
when. -/
structure Watched where
  sys : System
  gates : ℕ → Option GateView
  verified : List (String × Time)

namespace Watched

/-- Nothing has happened. -/
def init (policy : ApprovalPolicy) : Watched := ⟨.init policy, fun _ => none, []⟩

end Watched

/-- The gate of a call sees the pending requests. -/
def Call.view (m : ApprovalManager) (verified : List (String × Time)) (now : Time) :
    Call → Option GateView
  | .resolve (.gate q) =>
    some ⟨now, (m.pending.lookup q.requestId).map (·.request.toolName), verified⟩
  | _ => none

/-- The user who approves a protected tool with a verified code. -/
def Call.verifiedBy (now : Time) : Call → List (String × Time)
  | .resolve (.grace q p) =>
    if q.decision.isApproved ∧ q.totpVerified ∧ q.policy.toolRequiresTotp p.request.toolName then
      (q.userId.map fun uid => (uid, now)).toList
    else []
  | _ => []

/-- What the gate of the `k`th call sees in an event. -/
def Watched.newView (w : Watched) (k : ℕ) : Event → Option GateView
  | .act k' now =>
    if k = k' then (w.sys.calls[k]?).bind (Call.view w.sys.manager w.verified now) else none
  | _ => none

/-- Who approves with a verified code in an event. -/
def Watched.newVerified (w : Watched) : Event → List (String × Time)
  | .act k now => (w.sys.calls[k]?).elim [] (Call.verifiedBy now)
  | _ => []

/-- One event, watched. -/
def watch (w : Watched) (e : Event) : Watched where
  sys := step w.sys e
  gates := fun k => (w.newView k e).or (w.gates k)
  verified := w.newVerified e ++ w.verified

/-! ## The property -/

/-- A verified code stands behind the `k`th call: its own, or one of the same user within the grace
period before its gate. -/
def Watched.Backed (w : Watched) (k : ℕ) (q : Resolution) : Prop :=
  q.totpVerified = true ∨ ∃ uid view t, q.userId = some uid ∧ w.gates k = some view ∧
    (uid, t) ∈ view.verified ∧ view.time - t < q.policy.totpGracePeriodSecs * second

/-- **Every approval of a protected tool is backed** when it is about to be returned. -/
def TotpGated (w : Watched) : Prop :=
  ∀ k q p response, w.sys.calls[k]? = some (.resolve (.send q p response)) →
    q.decision.isApproved = true → q.policy.toolRequiresTotp p.request.toolName = true →
    w.Backed k q

/-- A protected tool is approved without a code. -/
def Resolution.Unverified (q : Resolution) (p : PendingRequest) : Prop :=
  q.decision.isApproved = true ∧ q.totpVerified = false ∧
    q.policy.toolRequiresTotp p.request.toolName = true

instance (q : Resolution) (p : PendingRequest) : Decidable (q.Unverified p) :=
  inferInstanceAs (Decidable (_ ∧ _ ∧ _))

/-- No grace period of `unknown` lets the call through, and the request that it takes without a code
was pending at its gate. -/
def Call.Attributed (w : Watched) (k : ℕ) (now : Time) : Call → Prop
  | .resolve (.gate q) => q.userId = none →
    ∀ p ∈ w.sys.manager.pending.lookup q.requestId, q.Unverified p →
      w.sys.manager.isWithinTotpGrace "unknown" q.policy now = false
  | .resolve (.remove q) => ∀ p ∈ w.sys.manager.pending.lookup q.requestId, q.Unverified p →
    ∃ view ∈ w.gates k, view.tool.isSome = true
  | _ => True

/-- No call without a user is let through by a grace period, and no call takes without a code what
its gate did not see. -/
def Attributed (w : Watched) : Event → Prop
  | .act k now => ∀ call ∈ w.sys.calls[k]?, call.Attributed w k now
  | _ => True

/-! ## Calls of `resolve` through an event -/

section Events

variable {s : System} {m : ApprovalManager} {k j : ℕ} {now : Time} {call : Call} {c : ResolveCall}

theorem resolve_of_receive {tx : Channel} {d : ApprovalDecision}
    (h : call.receive k tx d = .resolve c) : call = .resolve c := by
  cases call with
  | request call => cases h
  | _ => exact h

theorem resolve_of_expire (h : call.expire = .resolve c) : call = .resolve c := by
  unfold Call.expire at h
  split at h
  · cases h
  · exact h

theorem resolve_of_cancel (h : call.cancel = .resolve c) : call = .resolve c := by
  unfold Call.cancel at h
  split at h
  · cases h
  · exact h

theorem resolve_of_modifyCall {f : Call → Call} (hf : ∀ call, f call = .resolve c → call = .resolve c)
    (h : (s.modifyCall k f).calls[j]? = some (.resolve c)) : s.calls[j]? = some (.resolve c) := by
  unfold System.modifyCall at h
  rw [List.getElem?_modify] at h
  obtain ⟨call, hcall, heq⟩ := Option.map_eq_some_iff.mp h
  rw [hcall]
  split at heq
  · rw [hf call heq]
  · rw [heq]

theorem resolve_of_deliver {msg : Option Message}
    (h : (s.deliver msg).calls[j]? = some (.resolve c)) : s.calls[j]? = some (.resolve c) := by
  unfold System.deliver at h
  split at h
  · exact resolve_of_modifyCall (fun _ => resolve_of_receive) h
  · exact h

theorem resolve_of_next (h : (call.next m k now).2.1 = .resolve c) :
    ∃ c₀, call = .resolve c₀ ∧ (c₀.next m now).2.1 = c := by
  cases call with
  | resolve c₀ => exact ⟨c₀, rfl, Call.resolve.inj h⟩
  | request => cases h
  | submit => cases h
  | sweep => cases h
  | gone => cases h

theorem manager_deliver (msg : Option Message) : (s.deliver msg).manager = s.manager := by
  unfold System.deliver
  split
  · rfl
  · rfl

theorem manager_act (hk : s.calls[k]? = some call) :
    (s.act k now).manager = (call.next s.manager k now).1 := by
  unfold System.act
  rw [hk]
  exact manager_deliver _

theorem resolve_of_act (hk : s.calls[k]? = some call)
    (h : (s.act k now).calls[j]? = some (.resolve c)) :
    (j = k ∧ ∃ c₀, call = .resolve c₀ ∧ (c₀.next s.manager now).2.1 = c) ∨
      (j ≠ k ∧ s.calls[j]? = some (.resolve c)) := by
  unfold System.act at h
  rw [hk] at h
  have hset := resolve_of_deliver h
  by_cases hj : j = k
  · subst hj
    rw [List.getElem?_set_self (List.getElem?_eq_some_iff.mp hk).1] at hset
    exact .inl ⟨rfl, resolve_of_next (Option.some.inj hset)⟩
  · rw [List.getElem?_set_ne (Ne.symm hj)] at hset
    exact .inr ⟨hj, hset⟩

theorem resolve_of_other {e : Event} (he : ∀ k now, e ≠ .act k now)
    (h : (step s e).calls[j]? = some (.resolve c)) :
    s.calls[j]? = some (.resolve c) ∨ (∃ q, c = .gate q) ∨ ∃ result, c = .returned result := by
  cases e with
  | call ask =>
    unfold step System.start at h
    dsimp only at h
    split at h
    · exact .inl h
    · rw [List.getElem?_append] at h
      split at h
      · exact .inl h
      · have hnew := List.mem_singleton.mp (List.mem_of_getElem? h)
        cases ask with
        | resolve => exact .inr (.inl ⟨_, Call.resolve.inj hnew⟩)
        | expirePendingRequests now =>
          unfold Ask.start at hnew
          dsimp only at hnew
          split at hnew
          · cases hnew
          · cases hnew
        | requestApproval => cases hnew
        | submitRequest => cases hnew
  | act k now => exact absurd rfl (he k now)
  | expire k => exact .inl (resolve_of_modifyCall (fun _ => resolve_of_expire) h)
  | cancel k => exact .inl (resolve_of_modifyCall (fun _ => resolve_of_cancel) h)
  | updatePolicy policy => exact .inl h
  | restart policy =>
    have hcrash : (s.calls.map Call.crash)[j]? = some (.resolve c) := h
    rw [List.getElem?_map] at hcrash
    obtain ⟨call, -, heq⟩ := Option.map_eq_some_iff.mp hcrash
    unfold Call.crash at heq
    split at heq
    · cases heq
    · cases heq
    · cases heq
      exact .inr (.inr ⟨_, rfl⟩)
    · cases heq
    · cases heq

theorem verifiedBy_of_grace {uid : String} {t : Time}
    (h : (call.next m k now).1.totpGrace.lookup uid = some t) :
    m.totpGrace.lookup uid = some t ∨ (uid, t) ∈ call.verifiedBy now := by
  cases call with
  | request call =>
    left
    cases call with
    | limit round =>
      unfold Call.next RequestCall.next at h
      dsimp only at h
      split at h
      · exact h
      · exact h
    | _ => exact h
  | submit call =>
    left
    cases call with
    | duplicate | limit =>
      unfold Call.next SubmitCall.next at h
      dsimp only at h
      split at h
      · exact h
      · exact h
    | _ => exact h
  | sweep call =>
    left
    cases call with
    | remove w =>
      unfold Call.next SweepCall.next at h
      dsimp only at h
      split at h
      · exact h
      · exact h
    | _ => exact h
  | gone => exact .inl h
  | resolve call =>
    cases call with
    | gate q =>
      unfold Call.next ResolveCall.next at h
      dsimp only at h
      split at h
      · exact .inl h
      · exact .inl h
    | grace q p =>
      unfold Call.next ResolveCall.next Resolution.withGrace at h
      unfold Call.verifiedBy
      dsimp only at h ⊢
      cases huser : q.userId with
      | none =>
        rw [huser] at h
        exact .inl h
      | some uid' =>
        rw [huser] at h
        dsimp only at h
        split at h
        next hverified =>
          rw [if_pos hverified]
          by_cases huid : uid = uid'
          · subst huid
            have htime : (m.totpGrace.insert uid now).lookup uid = some t := h
            rw [AList.lookup_insert] at htime
            right
            rw [← Option.some.inj htime]
            exact List.mem_singleton_self _
          · have hother : (m.totpGrace.insert uid' now).lookup uid = some t := h
            rw [AList.lookup_insert_ne huid] at hother
            exact .inl hother
        next => exact .inl h
    | _ => exact .inl h

theorem grace_of_other {e : Event} (he : ∀ k now, e ≠ .act k now) {uid : String} {t : Time}
    (h : (step s e).manager.totpGrace.lookup uid = some t) :
    s.manager.totpGrace.lookup uid = some t := by
  cases e with
  | call ask =>
    unfold step System.start at h
    dsimp only at h
    split at h
    · exact h
    · exact h
  | act k now => exact absurd rfl (he k now)
  | expire k => exact h
  | cancel k => exact h
  | updatePolicy policy => exact h
  | restart policy => exact absurd h (Option.some_ne_none _).symm

end Events

/-! ## Gated runs -/

section Invariant

variable {names names' : Names} {w w' : Watched} {k : ℕ} {now : Time} {c : ResolveCall}

/-- A call that has passed its gate is backed if the tool that the gate saw asks for it; a call that
has taken a request is backed if the tool of the request does. -/
def ResolveCall.Sound (names : Names) (w : Watched) (k : ℕ) : ResolveCall → Prop
  | .remove q => ∃ view, w.gates k = some view ∧ ∀ tool ∈ view.tool,
    names q.requestId = some tool ∧
      (q.decision.isApproved = true → q.policy.toolRequiresTotp tool = true → w.Backed k q)
  | .deleteRow q p | .grace q p | .record q p | .send q p _ =>
    q.decision.isApproved = true → q.policy.toolRequiresTotp p.request.toolName = true →
      w.Backed k q
  | _ => True

theorem backed_congr {q : Resolution} (h : w.Backed k q) (hgates : w'.gates k = w.gates k) :
    w'.Backed k q := by
  obtain hverified | ⟨uid, view, t, huser, hview, hmem, hlt⟩ := h
  · exact .inl hverified
  · exact .inr ⟨uid, view, t, huser, hgates.trans hview, hmem, hlt⟩

theorem ResolveCall.Sound.mono (h : c.Sound names w k) (hgrows : names.Grows names')
    (hgates : w'.gates k = w.gates k) : c.Sound names' w' k := by
  cases c with
  | remove q =>
    obtain ⟨view, hview, hall⟩ := h
    refine ⟨view, hgates.trans hview, fun tool htool => ?_⟩
    obtain ⟨hname, hbacked⟩ := hall tool htool
    exact ⟨hgrows _ _ hname, fun happroved htotp =>
      backed_congr (hbacked happroved htotp) hgates⟩
  | deleteRow q p => exact fun ha ht => backed_congr (h ha ht) hgates
  | grace q p => exact fun ha ht => backed_congr (h ha ht) hgates
  | record q p => exact fun ha ht => backed_congr (h ha ht) hgates
  | send q p response => exact fun ha ht => backed_congr (h ha ht) hgates
  | gate | lookUp | returned => trivial

/-- What is known of a watched run. -/
structure GateInv (names : Names) (w : Watched) : Prop where
  keyed : w.sys.Keyed
  named : w.sys.Named names
  sound : ∀ (k : ℕ) (c : ResolveCall), w.sys.calls[k]? = some (.resolve c) → c.Sound names w k
  graces : ∀ uid t, w.sys.manager.totpGrace.lookup uid = some t → (uid, t) ∈ w.verified

theorem gates_watch_of_other {e : Event} (h : w.newView k e = none) :
    (watch w e).gates k = w.gates k := by
  show (w.newView k e).or (w.gates k) = w.gates k
  rw [h]
  rfl

theorem exists_of_isWithinTotpGrace {m : ApprovalManager} {uid : String} {policy : ApprovalPolicy}
    (h : m.isWithinTotpGrace uid policy now = true) :
    ∃ t, m.totpGrace.lookup uid = some t ∧ now - t < policy.totpGracePeriodSecs * second := by
  unfold ApprovalManager.isWithinTotpGrace at h
  by_cases hzero : policy.totpGracePeriodSecs = 0
  · rw [if_pos hzero] at h
    cases h
  · rw [if_neg hzero] at h
    cases hlast : m.totpGrace.lookup uid with
    | none =>
      rw [hlast] at h
      cases h
    | some t =>
      rw [hlast] at h
      exact ⟨t, rfl, (Int.ediv_lt_iff_lt_mul (by decide)).mp (of_decide_eq_true h)⟩

theorem sound_of_gate {q : Resolution} (h : GateInv names w)
    (hk : w.sys.calls[k]? = some (.resolve (.gate q)))
    (hattributed : (Call.resolve (.gate q)).Attributed w k now)
    (hpass : q.totpMissing w.sys.manager now = false) :
    (ResolveCall.remove q).Sound names (watch w (.act k now)) k := by
  have hview : (watch w (.act k now)).gates k = some ⟨now,
      (w.sys.manager.pending.lookup q.requestId).map (·.request.toolName), w.verified⟩ := by
    show (w.newView k (.act k now)).or (w.gates k) = _
    unfold Watched.newView
    dsimp only
    rw [if_pos rfl, hk]
    rfl
  refine ⟨_, hview, fun tool htool => ?_⟩
  obtain ⟨p, hp, rfl⟩ := Option.map_eq_some_iff.mp htool
  refine ⟨h.named.manager.pending _ p hp, fun happroved htotp => ?_⟩
  by_cases hverified : q.totpVerified = true
  · exact .inl hverified
  · have hunverified : q.totpVerified = false := Bool.eq_false_iff.mpr hverified
    have hgrace : w.sys.manager.isWithinTotpGrace (q.userId.getD "unknown") q.policy now = true := by
      unfold Resolution.totpMissing at hpass
      rw [happroved, hp, Bool.true_and, Option.any_some, htotp, hunverified, Bool.true_and,
        Bool.not_false, Bool.and_true, Bool.not_eq_false'] at hpass
      exact hpass
    cases huser : q.userId with
    | none =>
      rw [huser] at hgrace
      have hnone := hattributed huser p hp ⟨happroved, hunverified, htotp⟩
      exact absurd (hnone.symm.trans hgrace) Bool.false_ne_true
    | some uid =>
      rw [huser] at hgrace
      obtain ⟨t, ht, hlt⟩ := exists_of_isWithinTotpGrace hgrace
      exact .inr ⟨uid, _, t, huser, hview, h.graces uid t ht, hlt⟩

theorem sound_of_remove {q : Resolution} {p : PendingRequest} (h : GateInv names w)
    (hk : w.sys.calls[k]? = some (.resolve (.remove q)))
    (hattributed : (Call.resolve (.remove q)).Attributed w k now)
    (hp : w.sys.manager.pending.lookup q.requestId = some p) :
    (ResolveCall.deleteRow q p).Sound names w k := by
  intro happroved htotp
  by_cases hverified : q.totpVerified = true
  · exact .inl hverified
  · obtain ⟨view, hview, htool⟩ :=
      hattributed p hp ⟨happroved, Bool.eq_false_iff.mpr hverified, htotp⟩
    obtain ⟨tool, htool⟩ := Option.isSome_iff_exists.mp htool
    obtain ⟨view', hview', hall⟩ := h.sound k _ hk
    obtain rfl := Option.some.inj (Option.mem_def.mp hview ▸ hview')
    obtain ⟨hname, hbacked⟩ := hall tool htool
    have hsame := (h.named.manager.pending _ p hp).symm.trans hname
    exact hbacked happroved (Option.some.inj hsame ▸ htotp)

theorem sound_next {c₀ : ResolveCall} (h : GateInv names w)
    (hk : w.sys.calls[k]? = some (.resolve c₀))
    (hattributed : (Call.resolve c₀).Attributed w k now) :
    ((c₀.next w.sys.manager now).2.1).Sound names (watch w (.act k now)) k := by
  have hsound := h.sound k c₀ hk
  have hgates (hview : (Call.resolve c₀).view w.sys.manager w.verified now = none) :
      (watch w (.act k now)).gates k = w.gates k := by
    apply gates_watch_of_other
    unfold Watched.newView
    dsimp only
    rw [if_pos rfl, hk]
    exact hview
  have hsame : names.Grows names := fun _ _ hname => hname
  cases c₀ with
  | gate q =>
    unfold ResolveCall.next
    dsimp only
    split
    · trivial
    next hpass => exact sound_of_gate h hk hattributed (Bool.eq_false_iff.mpr hpass)
  | remove q =>
    unfold ResolveCall.next
    dsimp only
    split
    next p hp => exact (sound_of_remove h hk hattributed hp).mono hsame (hgates rfl)
    · trivial
  | deleteRow q p => exact fun ha ht => backed_congr (hsound ha ht) (hgates rfl)
  | grace q p => exact fun ha ht => backed_congr (hsound ha ht) (hgates rfl)
  | record q p => exact fun ha ht => backed_congr (hsound ha ht) (hgates rfl)
  | lookUp | send | returned => trivial

theorem gateInv_watch {e : Event} (h : GateInv names w) (he : Attributed w e) :
    ∃ names, GateInv names (watch w e) := by
  obtain ⟨names', hnamed, hgrows⟩ := named_step h.keyed h.named e
  refine ⟨names', keyed_step h.keyed e, hnamed, fun j c hc => ?_, fun uid t hgrace => ?_⟩
  · by_cases hact : ∃ k now, e = .act k now
    · obtain ⟨k, now, rfl⟩ := hact
      cases hk : w.sys.calls[k]? with
      | none =>
        have hsame : (watch w (.act k now)).sys = w.sys := step_act_of_none hk now
        refine (h.sound j c (hsame ▸ hc)).mono hgrows (gates_watch_of_other ?_)
        unfold Watched.newView
        dsimp only
        split
        next heq => rw [heq, hk]; rfl
        · rfl
      | some call =>
        obtain ⟨rfl, c₀, rfl, rfl⟩ | ⟨hj, hold⟩ := resolve_of_act hk hc
        · exact (sound_next h hk (he _ hk)).mono hgrows rfl
        · refine (h.sound j c hold).mono hgrows (gates_watch_of_other ?_)
          exact if_neg hj
    · have hother : ∀ k now, e ≠ .act k now := fun k now heq => hact ⟨k, now, heq⟩
      obtain hold | ⟨q, rfl⟩ | ⟨result, rfl⟩ := resolve_of_other hother hc
      · refine (h.sound j c hold).mono hgrows (gates_watch_of_other ?_)
        cases e with
        | act k now => exact absurd rfl (hother k now)
        | _ => rfl
      · trivial
      · trivial
  · apply List.mem_append.mpr
    by_cases hact : ∃ k now, e = .act k now
    · obtain ⟨k, now, rfl⟩ := hact
      cases hk : w.sys.calls[k]? with
      | none =>
        have hsame : (watch w (.act k now)).sys = w.sys := step_act_of_none hk now
        exact .inr (h.graces uid t (hsame ▸ hgrace))
      | some call =>
        have hmanager : (step w.sys (.act k now)).manager = (call.next w.sys.manager k now).1 :=
          manager_act hk
        obtain hold | hnew := verifiedBy_of_grace (hmanager ▸ hgrace)
        · exact .inr (h.graces uid t hold)
        · left
          unfold Watched.newVerified
          dsimp only
          rw [hk]
          exact hnew
    · have hother : ∀ k now, e ≠ .act k now := fun k now heq => hact ⟨k, now, heq⟩
      exact .inr (h.graces uid t (grace_of_other hother hgrace))

theorem gateInv_init (policy : ApprovalPolicy) : GateInv (fun _ => none) (.init policy) where
  keyed := keyed_init policy
  named := named_init policy
  sound := fun _ _ h => absurd h (Option.some_ne_none _).symm
  graces := fun _ _ h => absurd h (Option.some_ne_none _).symm

/-- **In attributed runs** every approval of a protected tool is backed by a verified code: of the
call itself, or of the same user within the grace period. -/
theorem totpGated_of_attributed (policy : ApprovalPolicy) (es : List Event)
    (h : Along watch Attributed (.init policy) es) :
    ∀ before rest, es = before ++ rest → TotpGated (after watch (.init policy) before) := by
  rintro before rest rfl
  have hstep (w : Watched) (e : Event) (hw : ∃ names, GateInv names w) (he : Attributed w e) :
      ∃ names, GateInv names (watch w e) := by
    obtain ⟨names, hw⟩ := hw
    exact gateInv_watch hw he
  obtain ⟨names, hinv⟩ := invariant hstep ⟨_, gateInv_init policy⟩ ((along_append _).mp h).1
  intro k q p response hk
  exact hinv.sound k _ hk

end Invariant

instance decidableCallAttributed (w : Watched) (k : ℕ) (now : Time) :
    DecidablePred (Call.Attributed w k now)
  | .resolve (.gate q) => inferInstanceAs (Decidable (q.userId = none →
      ∀ p ∈ w.sys.manager.pending.lookup q.requestId, q.Unverified p →
        w.sys.manager.isWithinTotpGrace "unknown" q.policy now = false))
  | .resolve (.remove q) => inferInstanceAs (Decidable
      (∀ p ∈ w.sys.manager.pending.lookup q.requestId, q.Unverified p →
        ∃ view ∈ w.gates k, view.tool.isSome = true))
  | .resolve (.lookUp _) | .resolve (.deleteRow ..) | .resolve (.grace ..) | .resolve (.record ..)
  | .resolve (.send ..) | .resolve (.returned _) | .request _ | .submit _ | .sweep _ | .gone =>
    .isTrue trivial

instance decidableAttributed (w : Watched) : DecidablePred (Attributed w)
  | .act k now =>
    decidable_of_iff ((w.sys.calls[k]?.all fun call => decide (call.Attributed w k now)) = true)
      (by simp [Attributed, Option.all_eq_true])
  | .call _ | .expire _ | .cancel _ | .updatePolicy _ | .restart _ => .isTrue trivial

/-- A policy with a second factor and a grace period of five minutes. -/
def totpPolicy : ApprovalPolicy := ⟨.deny, .totp, [], 300⟩

/-- A request is submitted by the `k`th call. -/
def submits (k : ℕ) (id : Uuid) : List Event :=
  .call (.submitRequest (sampleRequest id) ⟨id⟩) :: acts k 4

/-- A user approves a request with a code, and then another one without. -/
def approvedTwice : List Event :=
  submits 0 "r1" ++ .call (.resolve "r1" .approved (some "channel") true (some "u")) :: acts 1 6 ++
    submits 2 "r2" ++ .call (.resolve "r2" .approved (some "channel") false (some "u")) :: acts 3 5

theorem totpGated_approvedTwice : TotpGated (after watch (.init totpPolicy) approvedTwice) :=
  totpGated_of_attributed totpPolicy _ (by decide) _ [] (List.append_nil _).symm

/-- A user whose id is `unknown` approves a request with a code, and then a batch approves another
one. -/
def unknownUser : List Event :=
  submits 0 "r1" ++ .call (.resolve "r1" .approved (some "channel") true (some "unknown")) ::
    acts 1 6 ++ submits 2 "r2" ++ (resolveBatch ["r2"] .approved (some "api")).map .call ++ acts 3 5

/-- **The batch inherits** the grace period of the user. -/
theorem unknownUser_not_gated : ¬ TotpGated (after watch (.init totpPolicy) unknownUser) := by
  intro h
  obtain hverified | ⟨uid, view, t, huser, -⟩ := h 3 _ _ _ rfl rfl (by decide)
  · cases hverified
  · cases huser

end LibreFang.Approval
