import LibreFang.Lib.Table

/-!
# Owners of threads

Which of several agents may answer in a thread.

* `decideAt`, `sweepExpiredAt`: the registry of claims and its calls.
* `verdict`: what to decide from the calls before; **`record_eq`**: what the registry decides.
* **`owned_exclusively`**: a call is suppressed exactly by the agent that was allowed last, if that is
  within the time to live, and sweeps change no decision.
-/

namespace LibreFang.Channels.Ownership

/-- `ThreadKey`. -/
structure ThreadKey where
  channel : String
  thread : String
  deriving DecidableEq, Repr

variable {AgentId : Type}

/-- `Claim`. -/
structure Claim (AgentId : Type) where
  agentId : AgentId
  claimedAt : ℕ
  ttl : ℕ
  deriving DecidableEq, Repr

/-- `Claim::is_expired`; `saturating_duration_since` is subtraction cut off at zero. -/
def Claim.isExpired (claim : Claim AgentId) (now : ℕ) : Bool := claim.ttl ≤ now - claim.claimedAt

/-- `DispatchDecision`. -/
inductive DispatchDecision (AgentId : Type)
  | allow (agentId : AgentId)
  | suppress (holder : AgentId)
  deriving DecidableEq, Repr

/-- `ThreadOwnershipRegistry`. -/
structure ThreadOwnershipRegistry (AgentId : Type) where
  claims : Table ThreadKey (Claim AgentId)
  defaultTtl : ℕ

/-- A registry without claims. -/
def ThreadOwnershipRegistry.empty (ttl : ℕ) : ThreadOwnershipRegistry AgentId := ⟨∅, ttl⟩

section Calls

variable [DecidableEq AgentId]

/-- `decide_at`. -/
def decideAt (r : ThreadOwnershipRegistry AgentId) (key : ThreadKey) (candidate : AgentId)
    (wasMentioned : Bool) (now : ℕ) :
    ThreadOwnershipRegistry AgentId × DispatchDecision AgentId :=
  let fresh : Claim AgentId := ⟨candidate, now, r.defaultTtl⟩
  let entry := (r.claims.lookup key).getD fresh
  if entry.agentId = candidate then
    ({ r with claims := r.claims.insert key { entry with claimedAt := now } }, .allow candidate)
  else if entry.isExpired now then
    ({ r with claims := r.claims.insert key fresh }, .allow candidate)
  else if wasMentioned then
    ({ r with claims := r.claims.insert key fresh }, .allow candidate)
  else (r, .suppress entry.agentId)

/-- `sweep_expired_at`; the number of claims that are dropped is left out. -/
def sweepExpiredAt (r : ThreadOwnershipRegistry AgentId) (now : ℕ) : ThreadOwnershipRegistry AgentId :=
  { r with claims := r.claims.retain fun _ claim => !claim.isExpired now }

/-! ## Runs -/

/-- A call that decides. -/
structure Call (AgentId : Type) where
  key : ThreadKey
  candidate : AgentId
  wasMentioned : Bool
  now : ℕ
  deriving DecidableEq, Repr

/-- A call of the registry. -/
inductive Event (AgentId : Type)
  | decide (call : Call AgentId)
  | sweep (now : ℕ)
  deriving DecidableEq, Repr

/-- When an event happens. -/
def Event.time : Event AgentId → ℕ
  | decide call => call.now
  | sweep now => now

/-- The call of an event that decides. -/
def Event.call? : Event AgentId → Option (Call AgentId)
  | decide call => some call
  | sweep _ => none

/-- **The clock does not run back**: what decides is not earlier than any event before it. -/
def InOrder (events : List (Event AgentId)) : Prop :=
  events.Pairwise fun a b => b.call?.isSome → a.time ≤ b.time

instance (events : List (Event AgentId)) : Decidable (InOrder events) :=
  inferInstanceAs (Decidable (events.Pairwise _))

/-- A call with its decision. -/
abbrev Decided (AgentId : Type) := Call AgentId × DispatchDecision AgentId

/-- The calls of a run that decide, with their decisions. -/
def record (r : ThreadOwnershipRegistry AgentId) : List (Event AgentId) → List (Decided AgentId)
  | [] => []
  | .decide call :: events =>
    let result := decideAt r call.key call.candidate call.wasMentioned call.now
    (call, result.2) :: record result.1 events
  | .sweep now :: events => record (sweepExpiredAt r now) events

/-- The agent that was allowed last in a thread, and when. -/
def lastAllowed (key : ThreadKey) (history : List (Decided AgentId)) : Option (AgentId × ℕ) :=
  (history.filter fun d => d.1.key = key ∧ d.2 = .allow d.1.candidate).getLast?.map
    fun d => (d.1.candidate, d.1.now)

/-- **What to decide**: another agent that was allowed last within the time to live suppresses the
candidate, unless that is mentioned. -/
def verdict (ttl : ℕ) (history : List (Decided AgentId)) (call : Call AgentId) :
    DispatchDecision AgentId :=
  ((lastAllowed call.key history).filter fun owner =>
    owner.1 ≠ call.candidate ∧ call.now - owner.2 < ttl ∧ call.wasMentioned = false).elim
      (.allow call.candidate) fun owner => .suppress owner.1

/-- Calls decided one after the other, each from those before. -/
def decided (ttl : ℕ) (history : List (Decided AgentId)) :
    List (Call AgentId) → List (Decided AgentId)
  | [] => []
  | call :: calls =>
    let d := (call, verdict ttl history call)
    d :: decided ttl (history ++ [d]) calls

/-! ## The registry and the history -/

/-- The claims are those of the agents that were allowed last; one that is gone has expired for
every call from `floor` on. -/
structure Tracks (r : ThreadOwnershipRegistry AgentId) (history : List (Decided AgentId))
    (floor : ℕ) : Prop where
  kept : ∀ key claim, r.claims.lookup key = some claim →
    claim.ttl = r.defaultTtl ∧ lastAllowed key history = some (claim.agentId, claim.claimedAt)
  gone : ∀ key owner, r.claims.lookup key = none → lastAllowed key history = some owner →
    r.defaultTtl ≤ floor - owner.2

variable {r : ThreadOwnershipRegistry AgentId} {history : List (Decided AgentId)} {floor : ℕ}

theorem tracks_empty (ttl : ℕ) :
    Tracks (ThreadOwnershipRegistry.empty ttl : ThreadOwnershipRegistry AgentId) [] 0 :=
  ⟨fun key claim h => (by cases h), fun key owner _ h => (by cases h)⟩

theorem lastAllowed_allow (history : List (Decided AgentId)) (call : Call AgentId) :
    lastAllowed call.key (history ++ [(call, .allow call.candidate)]) =
      some (call.candidate, call.now) := by
  unfold lastAllowed
  rw [List.filter_append, List.filter_cons_of_pos (by simp), List.filter_nil, List.getLast?_concat]
  rfl

theorem lastAllowed_other {key : ThreadKey} (history : List (Decided AgentId))
    {d : Decided AgentId} (h : ¬ (d.1.key = key ∧ d.2 = .allow d.1.candidate)) :
    lastAllowed key (history ++ [d]) = lastAllowed key history := by
  unfold lastAllowed
  rw [List.filter_append, List.filter_cons_of_neg (by simpa using h), List.filter_nil,
    List.append_nil]

theorem Tracks.mono (h : Tracks r history floor) {floor' : ℕ} (hle : floor ≤ floor') :
    Tracks r history floor' :=
  ⟨h.kept, fun key owner hnone howner =>
    le_trans (h.gone key owner hnone howner) (Nat.sub_le_sub_right hle _)⟩

theorem Tracks.insert (h : Tracks r history floor) (call : Call AgentId) :
    Tracks { r with claims := r.claims.insert call.key ⟨call.candidate, call.now, r.defaultTtl⟩ }
      (history ++ [(call, .allow call.candidate)]) floor := by
  refine ⟨fun key claim hclaim => ?_, fun key owner hnone howner => ?_⟩
  · by_cases hkey : key = call.key
    · rw [hkey] at hclaim ⊢
      rw [AList.lookup_insert] at hclaim
      rw [lastAllowed_allow, ← Option.some.inj hclaim]
      exact ⟨rfl, rfl⟩
    · rw [AList.lookup_insert_ne hkey] at hclaim
      rw [lastAllowed_other history fun hd => hkey hd.1.symm]
      exact h.kept key claim hclaim
  · by_cases hkey : key = call.key
    · rw [hkey, AList.lookup_insert] at hnone
      cases hnone
    · rw [AList.lookup_insert_ne hkey] at hnone
      rw [lastAllowed_other history fun hd => hkey hd.1.symm] at howner
      exact h.gone key owner hnone howner

theorem verdict_eq_allow {ttl : ℕ} {call : Call AgentId}
    (h : ∀ owner, lastAllowed call.key history = some owner → owner.1 ≠ call.candidate →
      call.now - owner.2 < ttl → call.wasMentioned = true) :
    verdict ttl history call = .allow call.candidate := by
  unfold verdict
  rw [Option.filter_eq_none_iff.mpr fun owner howner hcond => ?_]
  · rfl
  · obtain ⟨hne, hlt, hmentioned⟩ := of_decide_eq_true hcond
    exact Bool.false_ne_true (hmentioned.symm.trans (h owner howner hne hlt))

theorem verdict_eq_suppress {ttl : ℕ} {call : Call AgentId} {owner : AgentId × ℕ}
    (h : lastAllowed call.key history = some owner) (hne : owner.1 ≠ call.candidate)
    (hlt : call.now - owner.2 < ttl) (hmentioned : call.wasMentioned = false) :
    verdict ttl history call = .suppress owner.1 := by
  unfold verdict
  rw [h, Option.filter_some, if_pos (decide_eq_true ⟨hne, hlt, hmentioned⟩)]
  rfl

/-- **A call is decided as the calls before it say**, and the claims still follow them. -/
theorem Tracks.decide (h : Tracks r history floor) (call : Call AgentId) (hfloor : floor ≤ call.now) :
    (decideAt r call.key call.candidate call.wasMentioned call.now).2 =
        verdict r.defaultTtl history call ∧
      (decideAt r call.key call.candidate call.wasMentioned call.now).1.defaultTtl = r.defaultTtl ∧
      Tracks (decideAt r call.key call.candidate call.wasMentioned call.now).1
        (history ++ [(call, verdict r.defaultTtl history call)]) call.now := by
  have hinsert := (h.insert call).mono hfloor
  unfold decideAt
  cases hlookup : r.claims.lookup call.key with
  | none =>
    have hallow : verdict r.defaultTtl history call = .allow call.candidate := by
      refine verdict_eq_allow fun owner howner _ hlt => ?_
      have hgone := (h.mono hfloor).gone call.key owner hlookup howner
      omega
    dsimp only
    rw [hallow, Option.getD_none, if_pos rfl]
    exact ⟨rfl, rfl, hinsert⟩
  | some claim =>
    obtain ⟨httl, hlast⟩ := h.kept call.key claim hlookup
    dsimp only
    rw [Option.getD_some]
    by_cases hsame : claim.agentId = call.candidate
    · have hallow : verdict r.defaultTtl history call = .allow call.candidate := by
        refine verdict_eq_allow fun owner howner hne _ => absurd ?_ hne
        rw [howner, Option.some_inj] at hlast
        rw [hlast]
        exact hsame
      have hclaim : { claim with claimedAt := call.now } =
          (⟨call.candidate, call.now, r.defaultTtl⟩ : Claim AgentId) := by
        rw [← hsame, ← httl]
      rw [hallow, if_pos hsame, hclaim]
      exact ⟨rfl, rfl, hinsert⟩
    rw [if_neg hsame]
    by_cases hexpired : claim.isExpired call.now = true
    · have hallow : verdict r.defaultTtl history call = .allow call.candidate := by
        refine verdict_eq_allow fun owner howner _ hlt => ?_
        rw [howner, Option.some_inj] at hlast
        have hle : claim.ttl ≤ call.now - claim.claimedAt := of_decide_eq_true hexpired
        rw [hlast, ← httl] at hlt
        exact absurd hlt (Nat.not_lt.mpr hle)
      rw [hallow, if_pos hexpired]
      exact ⟨rfl, rfl, hinsert⟩
    rw [if_neg hexpired]
    by_cases hmentioned : call.wasMentioned = true
    · have hallow : verdict r.defaultTtl history call = .allow call.candidate :=
        verdict_eq_allow fun _ _ _ _ => hmentioned
      rw [hallow, if_pos hmentioned]
      exact ⟨rfl, rfl, hinsert⟩
    have hsuppress : verdict r.defaultTtl history call = .suppress claim.agentId := by
      refine verdict_eq_suppress hlast hsame ?_ (Bool.not_eq_true _ ▸ hmentioned)
      have hlt : ¬ claim.ttl ≤ call.now - claim.claimedAt := fun hle =>
        hexpired (decide_eq_true hle)
      exact httl ▸ Nat.not_le.mp hlt
    rw [hsuppress, if_neg hmentioned]
    have hother (key : ThreadKey) : lastAllowed key (history ++ [(call, .suppress claim.agentId)]) =
        lastAllowed key history := lastAllowed_other history fun hd => by cases hd.2
    refine ⟨rfl, rfl, fun key claim hclaim => ?_, fun key owner hnone howner => ?_⟩
    · rw [hother]
      exact h.kept key claim hclaim
    · rw [hother] at howner
      exact (h.mono hfloor).gone key owner hnone howner

theorem Tracks.sweep (h : Tracks r history floor) (now : ℕ) :
    Tracks (sweepExpiredAt r now) history (max floor now) := by
  refine ⟨fun key claim hclaim => ?_, fun key owner hnone howner => ?_⟩
  · have hlookup : ((r.claims.lookup key).filter fun c => !c.isExpired now) = some claim :=
      (Table.lookup_retain _ _).symm.trans hclaim
    exact h.kept key claim (Option.filter_eq_some_iff.mp hlookup).1
  · have hlookup : ((r.claims.lookup key).filter fun c => !c.isExpired now) = none :=
      (Table.lookup_retain _ _).symm.trans hnone
    cases hclaim : r.claims.lookup key with
    | none => exact (h.mono (Nat.le_max_left _ _)).gone key owner hclaim howner
    | some claim =>
      obtain ⟨httl, hlast⟩ := h.kept key claim hclaim
      rw [hclaim, Option.filter_eq_none_iff] at hlookup
      have hexpired : claim.isExpired now = true := by simpa using hlookup claim rfl
      rw [howner, Option.some_inj] at hlast
      have hle : claim.ttl ≤ now - claim.claimedAt := of_decide_eq_true hexpired
      rw [hlast]
      exact httl ▸ le_trans hle (Nat.sub_le_sub_right (Nat.le_max_right _ _) _)

theorem record_eq_of_tracks (h : Tracks r history floor) {events : List (Event AgentId)}
    (horder : InOrder events) (hfloor : ∀ e ∈ events, e.call?.isSome → floor ≤ e.time) :
    record r events = decided r.defaultTtl history (events.filterMap Event.call?) := by
  induction events generalizing r history floor with
  | nil => rfl
  | cons e events ih =>
    obtain ⟨hbefore, hrest⟩ := List.pairwise_cons.mp horder
    cases e with
    | decide call =>
      obtain ⟨hdecision, httl, htracks⟩ := h.decide call (hfloor _ List.mem_cons_self rfl)
      have heq := ih htracks hrest hbefore
      rw [httl] at heq
      rw [List.filterMap_cons_some (f := Event.call?) rfl, decided, record, hdecision, heq]
    | sweep now =>
      rw [List.filterMap_cons_none (f := Event.call?) rfl, record]
      exact ih (h.sweep now) hrest fun e he hcall =>
        Nat.max_le.mpr ⟨hfloor e (List.mem_cons_of_mem _ he) hcall, hbefore e he hcall⟩

theorem record_eq (ttl : ℕ) {events : List (Event AgentId)} (h : InOrder events) :
    record (.empty ttl) events = decided ttl [] (events.filterMap Event.call?) :=
  record_eq_of_tracks (tracks_empty ttl) h fun _ _ _ => Nat.zero_le _

theorem decided_split {ttl : ℕ} {calls : List (Call AgentId)} {before after : List (Decided AgentId)}
    {d : Decided AgentId} (h : decided ttl history calls = before ++ d :: after) :
    d.2 = verdict ttl (history ++ before) d.1 := by
  induction calls generalizing history before with
  | nil => exact absurd h.symm (List.append_ne_nil_of_right_ne_nil _ (List.cons_ne_nil _ _))
  | cons call calls ih =>
    rw [decided] at h
    cases before with
    | nil =>
      rw [List.nil_append] at h
      rw [← (List.cons.inj h).1, List.append_nil]
    | cons first before =>
      obtain ⟨rfl, hrest⟩ := List.cons.inj h
      rw [ih hrest, List.append_assoc]
      rfl

/-- Who may answer, of every call of a run. -/
structure OwnedExclusively (ttl : ℕ) (before : List (Decided AgentId)) (d : Decided AgentId) :
    Prop where
  allowed : d.1.wasMentioned = false → (d.2 = .allow d.1.candidate ↔
    ∀ owner, lastAllowed d.1.key before = some owner → d.1.now - owner.2 < ttl →
      owner.1 = d.1.candidate)
  named : ∀ holder, d.2 = .suppress holder → holder ≠ d.1.candidate ∧ d.1.wasMentioned = false ∧
    ∃ at', lastAllowed d.1.key before = some (holder, at') ∧ d.1.now - at' < ttl
  decided : d.2 = .allow d.1.candidate ∨ ∃ holder, d.2 = .suppress holder

theorem ownedExclusively_verdict (ttl : ℕ) (before : List (Decided AgentId)) (call : Call AgentId) :
    OwnedExclusively ttl before (call, verdict ttl before call) := by
  by_cases hother : ∃ owner, lastAllowed call.key before = some owner ∧ owner.1 ≠ call.candidate ∧
      call.now - owner.2 < ttl ∧ call.wasMentioned = false
  · obtain ⟨owner, hlast, hne, hlt, hmentioned⟩ := hother
    rw [verdict_eq_suppress hlast hne hlt hmentioned]
    refine ⟨fun _ => iff_of_false (fun h => by cases h) fun h => hne (h owner hlast hlt),
      fun holder hholder => ?_, .inr ⟨_, rfl⟩⟩
    cases hholder
    exact ⟨hne, hmentioned, owner.2, hlast, hlt⟩
  · have hnone : ∀ owner, lastAllowed call.key before = some owner → owner.1 ≠ call.candidate →
        call.now - owner.2 < ttl → call.wasMentioned = true := fun owner hlast hne hlt => by
      by_contra hmentioned
      exact hother ⟨owner, hlast, hne, hlt, Bool.not_eq_true _ ▸ hmentioned⟩
    rw [verdict_eq_allow hnone]
    refine ⟨fun hmentioned => iff_of_true rfl fun owner hlast hlt => ?_, fun holder hholder => ?_,
      .inl rfl⟩
    · by_contra hne
      exact hother ⟨owner, hlast, hne, hlt, hmentioned⟩
    · cases hholder

/-- **Threads are owned exclusively, and sweeps change no decision.** -/
theorem owned_exclusively (ttl : ℕ) (events : List (Event AgentId)) (h : InOrder events) :
    (∀ before d after, record (.empty ttl) events = before ++ d :: after →
      OwnedExclusively ttl before d) ∧
    ∀ others : List (Event AgentId), InOrder others →
      others.filterMap Event.call? = events.filterMap Event.call? →
      record (.empty ttl) others = record (.empty ttl) events := by
  refine ⟨fun before d after hrecord => ?_, fun others hothers hcalls => ?_⟩
  · rw [record_eq ttl h] at hrecord
    have hverdict := decided_split hrecord
    obtain ⟨call, decision⟩ := d
    rw [List.nil_append] at hverdict
    dsimp only at hverdict
    rw [hverdict]
    exact ownedExclusively_verdict ttl before call
  · rw [record_eq ttl hothers, record_eq ttl h, hcalls]

end Calls

/-- A call in the thread of the witness, where nobody is mentioned. -/
def unmentioned (agent now : ℕ) : Call ℕ := ⟨⟨"slack", "T1"⟩, agent, false, now⟩

/-- Agent `2` waits for the claim of agent `1` to expire. -/
theorem owned_exclusively_handover :
    OwnedExclusively 10 [(unmentioned 1 0, .allow 1)] (unmentioned 2 9, .suppress 1) ∧
    record (.empty 10) [.decide (unmentioned 1 0), .decide (unmentioned 2 9), .sweep 9,
        .decide (unmentioned 2 10)] =
      record (.empty 10) [.decide (unmentioned 1 0), .sweep 5, .decide (unmentioned 2 9), .sweep 10,
        .decide (unmentioned 2 10)] :=
  ⟨(owned_exclusively 10 [.decide (unmentioned 1 0), .sweep 5, .decide (unmentioned 2 9), .sweep 10,
      .decide (unmentioned 2 10)] (by decide)).1 _ _ [(unmentioned 2 10, .allow 2)] (by decide),
    (owned_exclusively 10 _ (by decide)).2 _ (by decide) rfl⟩

end LibreFang.Channels.Ownership
