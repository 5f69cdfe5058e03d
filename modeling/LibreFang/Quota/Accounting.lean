import LibreFang.Lib.Runs
import LibreFang.Quota.Scheduler

/-!
# Accounting of reservations

Any number of callers reserve, settle, release and record tokens of one agent while its hourly
window rolls over and its usage is reset.

* `World`, `step`: the agent, the clock, and the reservations the callers hold.
* `owed`: what the current window must cover: its open reservations and its actual tokens.
* **`accounted_iff_timely`**: a run stays accounted exactly when its steps are timely.
-/

namespace LibreFang.Quota

variable {i : ℕ}

/-- A reservation a caller holds; `current` when it was granted in the current window. -/
structure Reservation where
  estimate : ℕ
  current : Bool
  deriving DecidableEq, Repr

/-- The agent, the time, the open reservations and the actual tokens of the current window. -/
structure World where
  agent : Agent
  now : ℕ
  reservations : List Reservation
  spent : ℕ
  deriving DecidableEq, Repr

/-- What a caller or the clock does. A caller passes the amount it was granted, once. -/
inductive Event
  | reserve (estimatedTokens : ℕ)
  | settle (i : ℕ) (usage : TokenUsage)
  | release (i : ℕ)
  | record (usage : TokenUsage)
  | toolCalls (count : ℕ)
  | check
  | reset
  | wait (duration : ℕ)
  deriving DecidableEq, Repr

/-- A new window: the open reservations belong to an earlier one, and nothing is spent. -/
def World.newWindow (w : World) : World :=
  { w with reservations := w.reservations.map fun r => { r with current := false }, spent := 0 }

/-- The window in which an operation that checks for expiry works. -/
def World.roll (w : World) : World :=
  match w.agent.usage with
  | some tracker => if tracker.expired w.now then w.newWindow else w
  | none => w

/-- The actual tokens of an LLM call. -/
def TokenUsage.actual (usage : TokenUsage) : ℕ := usage.inputTokens + usage.outputTokens

/-- One operation of a caller. -/
def step (w : World) : Event → World
  | .reserve estimatedTokens =>
    let w' := if w.agent.quota.isSome then w.roll else w
    match checkQuotaAndReserve w.agent w.now estimatedTokens with
    | (.ok reserved, agent) =>
      { w' with agent := agent, reservations := w'.reservations ++ [⟨reserved, true⟩] }
    | (.error _, agent) => { w' with agent := agent }
  | .settle i usage =>
    match w.reservations[i]? with
    | some r =>
      { w.roll with
        agent := settleReservation w.agent w.now r.estimate usage
        reservations := w.roll.reservations.eraseIdx i
        spent := w.roll.spent + usage.actual }
    | none => w
  | .release i =>
    match w.reservations[i]? with
    | some r =>
      let w' := if r.estimate = 0 then w else w.roll
      { w' with
        agent := releaseReservation w.agent w.now r.estimate
        reservations := w'.reservations.eraseIdx i }
    | none => w
  | .record usage =>
    { w.roll with
      agent := recordUsage w.agent w.now usage
      spent := w.roll.spent + usage.actual }
  | .toolCalls count =>
    { (if count = 0 then w else w.roll) with agent := recordToolCalls w.agent w.now count }
  | .check =>
    { (if w.agent.quota.isSome then w.roll else w) with agent := (checkQuota w.agent w.now).2 }
  | .reset => { w.newWindow with agent := resetUsage w.agent w.now }
  | .wait duration => { w with now := w.now + duration }

/-- The open reservations granted in the current window. -/
def outstanding (w : World) : ℕ := ((w.reservations.filter (·.current)).map (·.estimate)).sum

/-- What the current window has to cover. -/
def owed (w : World) : ℕ := outstanding w + w.spent

/-- The reservations granted in the current window fit the limit. -/
def WithinLimit (w : World) : Prop :=
  ∀ quota, w.agent.quota = some quota → 0 < quota.effectiveTokenLimit →
    outstanding w ≤ quota.effectiveTokenLimit

/-- The tracker covers what is owed, and the open reservations fit the limit. -/
def Accounted (w : World) : Prop :=
  (∀ tracker, w.agent.usage = some tracker → owed w ≤ tracker.totalTokens) ∧ WithinLimit w

/-- The window without one of its open reservations. -/
def World.without (w : World) (i : ℕ) : World :=
  { w with reservations := w.reservations.eraseIdx i }

/-- A reservation of an earlier window is taken out only while nothing is owed. -/
def InTime (w : World) (r : Reservation) : Prop :=
  r.current = false → 0 < r.estimate → owed w = 0

/-- The tokens of the last minute and the estimate stay below a fifth of the limit. -/
def WithinBurst (quota : ResourceQuota) (tracker : UsageTracker) (now estimate : ℕ) : Prop :=
  saturatingAdd ((tracker.resetIfExpired now).tokensInLastMinute now).1 estimate ≤
    quota.effectiveTokenLimit / 5

/-- The condition on a step: what it takes out is taken out in time, and what it adds fits the
counter. A reservation can overflow the counter only under the largest limit. -/
def Timely (w : World) : Event → Prop
  | .reserve estimate => ∀ quota tracker, w.agent.quota = some quota →
      w.agent.usage = some tracker → maxU64 ≤ quota.effectiveTokenLimit →
      WithinBurst quota tracker w.now estimate → owed w.roll + estimate ≤ maxU64
  | .settle i usage => ∀ r, w.roll.reservations[i]? = some r →
      InTime w.roll r ∧ owed (w.roll.without i) + usage.actual ≤ maxU64
  | .release i => ∀ r, w.roll.reservations[i]? = some r → InTime w.roll r
  | .record usage => owed w.roll + usage.actual ≤ maxU64
  | .toolCalls _ | .check | .reset | .wait _ => True

/-! ## What is outstanding -/

section Outstanding

variable (w : World)

@[simp] theorem outstanding_newWindow : outstanding w.newWindow = 0 := by
  unfold outstanding World.newWindow
  rw [List.filter_eq_nil_iff.mpr]
  · rfl
  · intro r hr
    obtain ⟨r', -, rfl⟩ := List.mem_map.mp hr
    exact Bool.false_ne_true

@[simp] theorem owed_newWindow : owed w.newWindow = 0 := by
  rw [owed, outstanding_newWindow]
  rfl

/-- What a reservation counts for in the current window. -/
def Reservation.share (r : Reservation) : ℕ := if r.current then r.estimate else 0

theorem outstanding_eq_sum : outstanding w = (w.reservations.map Reservation.share).sum := by
  unfold outstanding
  induction w.reservations with
  | nil => rfl
  | cons r rs ih =>
    rw [List.map_cons, List.sum_cons, ← ih, Reservation.share]
    cases h : r.current <;> simp [h]

variable {r : Reservation}

theorem sum_share_eraseIdx {rs : List Reservation} (h : rs[i]? = some r) :
    ((rs.eraseIdx i).map Reservation.share).sum + r.share = (rs.map Reservation.share).sum := by
  induction rs generalizing i with
  | nil => simp at h
  | cons a rs ih =>
    cases i with
    | zero =>
      obtain rfl : a = r := by simpa using h
      simp [Nat.add_comm]
    | succ i =>
      have := ih (by simpa using h)
      simp only [List.eraseIdx_cons_succ, List.map_cons, List.sum_cons]
      omega

end Outstanding

/-! ## The invariant -/

/-- The tracker holds exactly what is owed. -/
structure Exact (w : World) (tracker : UsageTracker) : Prop where
  usage : w.agent.usage = some tracker
  total : tracker.totalTokens = owed w
  fits : owed w ≤ maxU64
  limit : WithinLimit w

theorem Exact.accounted {w : World} {tracker : UsageTracker} (h : Exact w tracker) : Accounted w := by
  refine ⟨fun t ht => ?_, h.limit⟩
  rw [h.usage] at ht
  obtain rfl := Option.some.inj ht
  exact h.total.ge

theorem withinLimit_of_le {w w' : World} (hq : w'.agent.quota = w.agent.quota)
    (hle : outstanding w' ≤ outstanding w) (h : WithinLimit w) : WithinLimit w' :=
  fun quota hquota hpos => hle.trans (h quota (hq ▸ hquota) hpos)

section Roll

variable {w : World} {tracker : UsageTracker}

@[simp] theorem roll_agent (w : World) : w.roll.agent = w.agent := by
  unfold World.roll
  split
  · split <;> rfl
  · rfl

@[simp] theorem roll_now (w : World) : w.roll.now = w.now := by
  unfold World.roll
  split
  · split <;> rfl
  · rfl

theorem roll_total (h : Exact w tracker) :
    (tracker.resetIfExpired w.now).totalTokens = owed w.roll := by
  unfold UsageTracker.resetIfExpired World.roll
  rw [h.usage]
  by_cases he : tracker.expired w.now = true
  · simp only [he, if_true, owed_newWindow]
    rfl
  · simp only [he, Bool.false_eq_true, if_false]
    exact h.total

theorem roll_outstanding_le (h : Exact w tracker) : outstanding w.roll ≤ outstanding w := by
  unfold World.roll
  rw [h.usage]
  by_cases he : tracker.expired w.now = true
  · simp [he]
  · simp [he]

theorem roll_owed_le (h : Exact w tracker) : owed w.roll ≤ owed w := by
  unfold World.roll
  rw [h.usage]
  by_cases he : tracker.expired w.now = true
  · simp [he]
  · simp [he]

theorem roll_getElem? (h : Exact w tracker) (hr : w.reservations[i]? = some r) :
    ∃ r', w.roll.reservations[i]? = some r' ∧ r'.estimate = r.estimate := by
  unfold World.roll
  rw [h.usage]
  by_cases he : tracker.expired w.now = true
  · refine ⟨{ r with current := false }, ?_, rfl⟩
    simp [he, World.newWindow, hr]
  · exact ⟨r, by simpa [he] using hr, rfl⟩

theorem roll_getElem?_none (hr : w.reservations[i]? = none) : w.roll.reservations[i]? = none := by
  have hlen : w.roll.reservations.length = w.reservations.length := by
    unfold World.roll
    split
    · split
      · exact List.length_map _
      · rfl
    · rfl
  rw [List.getElem?_eq_none_iff] at hr ⊢
  exact hlen.trans_le hr

end Roll

/-! ## The operations -/

section Steps

variable {w : World} {tracker : UsageTracker}

theorem wrappingAdd_of_le {a b : ℕ} (h : a + b ≤ maxU64) : wrappingAdd a b = a + b :=
  Nat.mod_eq_of_lt (by unfold maxU64 at h; omega)

theorem wrappingAdd_le (a b : ℕ) : wrappingAdd a b ≤ a + b := Nat.mod_le _ _

theorem wrappingAdd_le_max (a b : ℕ) : wrappingAdd a b ≤ maxU64 := by
  have := Nat.mod_lt (a + b) (y := 2 ^ 64) (by omega)
  unfold wrappingAdd maxU64
  omega

theorem saturatingAdd_of_le {a b : ℕ} (h : a + b ≤ maxU64) : saturatingAdd a b = a + b :=
  min_eq_left h

theorem saturatingAdd_le_max (a b : ℕ) : saturatingAdd a b ≤ maxU64 := min_le_right _ _

theorem total_of_le {usage : TokenUsage} (h : usage.actual ≤ maxU64) : usage.total = usage.actual :=
  wrappingAdd_of_le h

theorem total_le (usage : TokenUsage) : usage.total ≤ usage.actual := wrappingAdd_le _ _

variable {quota : ResourceQuota} {agent : Agent}

theorem checkQuotaAndReserve_cases (now estimate : ℕ)
    (hq : agent.quota = some quota) (hu : agent.usage = some tracker) :
    ∃ tracker', (checkQuotaAndReserve agent now estimate).2 = { agent with usage := some tracker' } ∧
      (((∃ text, (checkQuotaAndReserve agent now estimate).1 = .error text) ∧
          (quota.effectiveTokenLimit <
              saturatingAdd (tracker.resetIfExpired now).totalTokens estimate ∨
            ¬ WithinBurst quota tracker now estimate) ∧
          tracker'.totalTokens = (tracker.resetIfExpired now).totalTokens) ∨
        ((checkQuotaAndReserve agent now estimate).1 = .ok 0 ∧ quota.effectiveTokenLimit = 0 ∧
          tracker'.totalTokens = (tracker.resetIfExpired now).totalTokens) ∨
        ((checkQuotaAndReserve agent now estimate).1 = .ok estimate ∧
          tracker'.totalTokens ≤ quota.effectiveTokenLimit ∧
          (5 ≤ quota.effectiveTokenLimit → WithinBurst quota tracker now estimate) ∧
          tracker'.totalTokens =
            saturatingAdd (tracker.resetIfExpired now).totalTokens estimate)) := by
  unfold checkQuotaAndReserve
  rw [hq, hu]
  dsimp only
  by_cases hzero : quota.effectiveTokenLimit = 0
  · rw [if_pos hzero]
    exact ⟨_, rfl, .inr (.inl ⟨rfl, hzero, rfl⟩)⟩
  rw [if_neg hzero]
  by_cases hover : quota.effectiveTokenLimit <
      saturatingAdd (tracker.resetIfExpired now).totalTokens estimate
  · rw [if_pos hover]
    exact ⟨_, rfl, .inl ⟨⟨_, rfl⟩, .inl hover, rfl⟩⟩
  rw [if_neg hover]
  unfold WithinBurst
  by_cases hburst : 0 < quota.effectiveTokenLimit / 5 ∧ quota.effectiveTokenLimit / 5 <
      saturatingAdd ((tracker.resetIfExpired now).tokensInLastMinute now).1 estimate
  · rw [if_pos hburst]
    exact ⟨_, rfl, .inl ⟨⟨_, rfl⟩, .inr (Nat.not_le_of_lt hburst.2), rfl⟩⟩
  · rw [if_neg hburst]
    exact ⟨_, rfl, .inr (.inr ⟨rfl, Nat.le_of_not_lt hover, by omega, rfl⟩)⟩

theorem outstanding_grant (w : World) (agent : Agent) (reserved : ℕ) :
    outstanding { w with agent := agent, reservations := w.reservations ++ [⟨reserved, true⟩] } =
      outstanding w + reserved := by
  rw [outstanding_eq_sum, outstanding_eq_sum, List.map_append, List.sum_append]
  simp [Reservation.share]

theorem owed_grant (w : World) (agent : Agent) (reserved : ℕ) :
    owed { w with agent := agent, reservations := w.reservations ++ [⟨reserved, true⟩] } =
      owed w + reserved := by
  rw [owed, outstanding_grant, owed]
  exact Nat.add_right_comm _ _ _

theorem step_granted {estimate reserved : ℕ} (hq : w.agent.quota = some quota)
    (hres : checkQuotaAndReserve w.agent w.now estimate = (.ok reserved, agent)) :
    step w (.reserve estimate) =
      { w.roll with
        agent := agent
        reservations := w.roll.reservations ++ [⟨reserved, true⟩] } := by
  simp [step, hres, hq]

theorem exact_reserve (h : Exact w tracker) {estimate : ℕ} (hT : Timely w (.reserve estimate)) :
    ∃ tracker', Exact (step w (.reserve estimate)) tracker' := by
  cases hq : w.agent.quota with
  | none =>
    have hstep : step w (.reserve estimate) =
        { w with agent := w.agent, reservations := w.reservations ++ [⟨0, true⟩] } := by
      simp [step, checkQuotaAndReserve, hq]
    rw [hstep]
    refine ⟨tracker, h.usage, ?_, ?_, fun quota hquota => ?_⟩
    · rw [owed_grant]
      exact h.total
    · rw [owed_grant]
      exact h.fits
    · rw [show _ = _ from hquota] at hq
      cases hq
  | some quota =>
    obtain ⟨tracker', hagent, hcases⟩ := checkQuotaAndReserve_cases w.now estimate hq h.usage
    have htotal := roll_total h
    rcases hres : checkQuotaAndReserve w.agent w.now estimate with ⟨result, agent⟩
    rw [hres] at hagent hcases
    obtain rfl := hagent
    obtain ⟨⟨text, rfl⟩, -, ht⟩ | ⟨rfl, hzero, ht⟩ | ⟨rfl, hle, hburst, ht⟩ := hcases
    -- refused: only the window may have rolled over
    · have hstep : step w (.reserve estimate) =
          { w.roll with agent := { w.agent with usage := some tracker' } } := by
        simp [step, hres, hq]
      rw [hstep]
      refine ⟨tracker', rfl, ht.trans htotal, (roll_owed_le h).trans h.fits, ?_⟩
      exact withinLimit_of_le (w := w) rfl (roll_outstanding_le h) h.limit
    -- unlimited: nothing is reserved
    · rw [step_granted hq hres]
      refine ⟨tracker', rfl, ?_, ?_, fun quota' hquota' hpos => ?_⟩
      · rw [owed_grant]
        exact ht.trans htotal
      · rw [owed_grant]
        exact (roll_owed_le h).trans h.fits
      · obtain rfl : quota = quota' := by
          rw [show _ = _ from hquota'] at hq
          exact (Option.some.inj hq).symm
        omega
    -- granted: the total is charged with the estimate
    · have hfits : owed w.roll + estimate ≤ maxU64 := by
        rcases Nat.lt_or_ge quota.effectiveTokenLimit maxU64 with hsmall | hlarge
        · rw [ht, htotal] at hle
          unfold saturatingAdd at hle
          omega
        · exact hT quota tracker hq h.usage hlarge (hburst (le_trans (by decide) hlarge))
      have hcharged : tracker'.totalTokens = owed w.roll + estimate := by
        rw [ht, htotal, saturatingAdd_of_le hfits]
      rw [step_granted hq hres]
      refine ⟨tracker', rfl, ?_, ?_, fun quota' hquota' _ => ?_⟩
      · rw [owed_grant]
        exact hcharged
      · rw [owed_grant]
        exact hfits
      · obtain rfl : quota = quota' := by
          rw [show _ = _ from hquota'] at hq
          exact (Option.some.inj hq).symm
        rw [outstanding_grant]
        have : outstanding w.roll ≤ owed w.roll := Nat.le_add_right _ _
        omega

theorem timely_reserve (h : Exact w tracker) {estimate : ℕ}
    (hA : Accounted (step w (.reserve estimate))) : Timely w (.reserve estimate) := by
  intro quota tracker₀ hq husage hlarge hwithin
  obtain rfl : tracker = tracker₀ := Option.some.inj (h.usage.symm.trans husage)
  obtain ⟨tracker', hagent, hcases⟩ := checkQuotaAndReserve_cases w.now estimate hq h.usage
  rcases hres : checkQuotaAndReserve w.agent w.now estimate with ⟨result, agent⟩
  rw [hres] at hagent hcases
  obtain rfl := hagent
  obtain ⟨-, hover | hburst, -⟩ | ⟨-, hzero, -⟩ | ⟨rfl, -, -, ht⟩ := hcases
  · exact absurd (saturatingAdd_le_max _ _) (Nat.not_le_of_lt (hlarge.trans_lt hover))
  · exact absurd hwithin hburst
  · exact absurd (hzero ▸ hlarge) (by decide)
  · rw [step_granted hq hres] at hA
    have hcovers := hA.1 tracker' rfl
    rw [owed_grant, ht] at hcovers
    exact hcovers.trans (saturatingAdd_le_max _ _)

theorem outstanding_without (hr : w.reservations[i]? = some r) :
    outstanding (w.without i) + r.share = outstanding w := by
  rw [outstanding_eq_sum, outstanding_eq_sum]
  exact sum_share_eraseIdx hr

theorem owed_without (hr : w.reservations[i]? = some r) :
    owed (w.without i) + r.share = owed w := by
  have hout := outstanding_without hr
  unfold owed
  rw [← hout]
  exact Nat.add_right_comm _ _ _

theorem owed_sub_le (hr : w.reservations[i]? = some r) :
    owed w - r.estimate ≤ owed (w.without i) := by
  have howed := owed_without hr
  unfold Reservation.share at howed
  split at howed <;> omega

/-- **Taking the estimate out leaves enough exactly when the reservation is not late.** -/
theorem owed_without_le_iff (hr : w.reservations[i]? = some r) :
    owed (w.without i) ≤ owed w - r.estimate ↔
      (r.current = false → 0 < r.estimate → owed w = 0) := by
  have howed := owed_without hr
  unfold Reservation.share at howed
  cases hc : r.current
  · rw [hc] at howed
    simp only [Bool.false_eq_true, if_false] at howed
    constructor
    · intro hle _ hpos
      omega
    · intro hlate
      rcases Nat.eq_zero_or_pos r.estimate with hzero | hpos
      · omega
      · have := hlate rfl hpos
        omega
  · rw [hc] at howed
    simp only [if_true] at howed
    constructor
    · intro _ hfalse
      cases hfalse
    · intro _
      omega

theorem settled_total_le (total estimate : ℕ) (usage : TokenUsage) :
    (if 0 < estimate then saturatingAdd (total - estimate) usage.total
      else wrappingAdd total usage.total) ≤ min (total - estimate + usage.actual) maxU64 := by
  have hle := total_le usage
  split
  · have h₁ : saturatingAdd (total - estimate) usage.total ≤ total - estimate + usage.total :=
      min_le_left _ _
    exact le_min (by omega) (saturatingAdd_le_max _ _)
  · have h₁ := wrappingAdd_le total usage.total
    exact le_min (by omega) (wrappingAdd_le_max _ _)

theorem settled_total_of_le {total estimate : ℕ} {usage : TokenUsage}
    (h : total - estimate + usage.actual ≤ maxU64) :
    (if 0 < estimate then saturatingAdd (total - estimate) usage.total
      else wrappingAdd total usage.total) = total - estimate + usage.actual := by
  have htotal : usage.total = usage.actual := total_of_le (by omega)
  rw [htotal]
  split
  · exact saturatingAdd_of_le h
  · rw [wrappingAdd_of_le (by omega)]
    omega

theorem withinLimit_step {w' : World} (h : Exact w tracker) (hq : w'.agent.quota = w.agent.quota)
    (hr : outstanding w' ≤ outstanding w.roll) : WithinLimit w' :=
  withinLimit_of_le hq (hr.trans (roll_outstanding_le h)) h.limit

section Settle

variable {i : ℕ} {r : Reservation} {usage : TokenUsage}

theorem step_settle (hr : w.reservations[i]? = some r) : step w (.settle i usage) =
    { w.roll.without i with
      agent := settleReservation w.agent w.now r.estimate usage
      spent := w.roll.spent + usage.actual } := by
  simp [step, hr, World.without]

theorem owed_settle (hr : w.reservations[i]? = some r) :
    owed (step w (.settle i usage)) = owed (w.roll.without i) + usage.actual := by
  rw [step_settle hr]
  exact (Nat.add_assoc _ _ _).symm

theorem usage_settle (usage : TokenUsage) (h : Exact w tracker) (hr : w.reservations[i]? = some r) :
    ∃ tracker', (step w (.settle i usage)).agent.usage = some tracker' ∧
      tracker'.totalTokens =
        if 0 < r.estimate then saturatingAdd (owed w.roll - r.estimate) usage.total
        else wrappingAdd (owed w.roll) usage.total := by
  rw [step_settle hr, ← roll_total h]
  unfold settleReservation
  exact ⟨_, by rw [h.usage]; rfl, rfl⟩

theorem exact_settle (h : Exact w tracker) (hT : Timely w (.settle i usage)) :
    ∃ tracker', Exact (step w (.settle i usage)) tracker' := by
  cases hr : w.reservations[i]? with
  | none => exact ⟨tracker, by simpa [step, hr] using h⟩
  | some r =>
    obtain ⟨r', hr', hest⟩ := roll_getElem? h hr
    obtain ⟨hlate, hfits⟩ := hT r' hr'
    have hrest : owed w.roll - r.estimate = owed (w.roll.without i) := by
      rw [← hest]
      exact le_antisymm (owed_sub_le hr') ((owed_without_le_iff hr').mpr hlate)
    obtain ⟨tracker', husage, htotal⟩ := usage_settle usage h hr
    refine ⟨tracker', husage, ?_, by rwa [owed_settle hr], ?_⟩
    · rw [owed_settle hr, ← hrest]
      rw [← hrest] at hfits
      exact htotal.trans (settled_total_of_le hfits)
    · refine withinLimit_step h ?_ ?_
      · rw [step_settle hr]
        rfl
      · rw [step_settle hr]
        exact (Nat.le_add_right _ _).trans (outstanding_without hr').le

theorem timely_settle (h : Exact w tracker) (hA : Accounted (step w (.settle i usage))) :
    Timely w (.settle i usage) := by
  intro r' hr'
  cases hr : w.reservations[i]? with
  | none =>
    rw [roll_getElem?_none hr] at hr'
    cases hr'
  | some r =>
    obtain ⟨tracker', husage, htotal⟩ := usage_settle usage h hr
    have hcovers := hA.1 tracker' husage
    have hle := settled_total_le (owed w.roll) r.estimate usage
    rw [← htotal] at hle
    rw [owed_settle hr] at hcovers
    have hbound := hcovers.trans hle
    obtain ⟨r'', hr'', hest⟩ := roll_getElem? h hr
    obtain rfl : r'' = r' := Option.some.inj (hr''.symm.trans hr')
    refine ⟨(owed_without_le_iff hr').mp ?_, hbound.trans (min_le_right _ _)⟩
    have := hbound.trans (min_le_left _ _)
    omega

end Settle

section Release

variable {i : ℕ} {r : Reservation}

theorem step_release (hr : w.reservations[i]? = some r) (hpos : 0 < r.estimate) :
    step w (.release i) =
      { w.roll.without i with agent := releaseReservation w.agent w.now r.estimate } := by
  simp [step, hr, World.without, hpos.ne']

theorem step_release_zero (hr : w.reservations[i]? = some r) (hzero : r.estimate = 0) :
    step w (.release i) = w.without i := by
  simp [step, hr, World.without, hzero, releaseReservation]

theorem usage_release (h : Exact w tracker) (hr : w.reservations[i]? = some r)
    (hpos : 0 < r.estimate) :
    ∃ tracker', (step w (.release i)).agent.usage = some tracker' ∧
      tracker'.totalTokens = owed w.roll - r.estimate := by
  rw [step_release hr hpos, ← roll_total h]
  unfold releaseReservation
  rw [if_neg hpos.ne']
  exact ⟨_, by rw [h.usage]; rfl, rfl⟩

theorem exact_without_zero (h : Exact w tracker) (hr : w.reservations[i]? = some r)
    (hzero : r.estimate = 0) : Exact (w.without i) tracker := by
  have hshare : r.share = 0 := by
    unfold Reservation.share
    split
    · exact hzero
    · rfl
  have howed : owed (w.without i) = owed w := by rw [← owed_without hr, hshare, Nat.add_zero]
  have hout := outstanding_without hr
  exact ⟨h.usage, h.total.trans howed.symm, howed.trans_le h.fits,
    withinLimit_of_le (w := w) rfl (by omega) h.limit⟩

theorem exact_release (h : Exact w tracker) (hT : Timely w (.release i)) :
    ∃ tracker', Exact (step w (.release i)) tracker' := by
  cases hr : w.reservations[i]? with
  | none => exact ⟨tracker, by simpa [step, hr] using h⟩
  | some r =>
    rcases Nat.eq_zero_or_pos r.estimate with hzero | hpos
    · rw [step_release_zero hr hzero]
      exact ⟨tracker, exact_without_zero h hr hzero⟩
    · obtain ⟨r', hr', hest⟩ := roll_getElem? h hr
      have hrest : owed w.roll - r.estimate = owed (w.roll.without i) := by
        rw [← hest]
        exact le_antisymm (owed_sub_le hr') ((owed_without_le_iff hr').mpr (hT r' hr'))
      obtain ⟨tracker', husage, htotal⟩ := usage_release h hr hpos
      have howed : tracker'.totalTokens = owed (step w (.release i)) := by
        rw [htotal, hrest, step_release hr hpos]
        rfl
      have hrolled := (roll_owed_le h).trans h.fits
      refine ⟨tracker', husage, howed, by omega, ?_⟩
      · refine withinLimit_step h ?_ ?_
        · rw [step_release hr hpos]
          unfold releaseReservation
          split <;> rfl
        · rw [step_release hr hpos]
          exact (Nat.le_add_right _ _).trans (outstanding_without hr').le

theorem timely_release (h : Exact w tracker) (hA : Accounted (step w (.release i))) :
    Timely w (.release i) := by
  intro r' hr' hlate hpos'
  cases hr : w.reservations[i]? with
  | none =>
    rw [roll_getElem?_none hr] at hr'
    cases hr'
  | some r =>
    obtain ⟨r'', hr'', hest⟩ := roll_getElem? h hr
    obtain rfl : r'' = r' := Option.some.inj (hr''.symm.trans hr')
    have hpos : 0 < r.estimate := hest ▸ hpos'
    obtain ⟨tracker', husage, htotal⟩ := usage_release h hr hpos
    have hcovers := hA.1 tracker' husage
    rw [htotal, step_release hr hpos, ← hest] at hcovers
    exact (owed_without_le_iff hr').mp hcovers hlate hpos'

end Release

section Other

variable {usage : TokenUsage}

theorem owed_record : owed (step w (.record usage)) = owed w.roll + usage.actual :=
  (Nat.add_assoc _ _ _).symm

theorem usage_record (h : Exact w tracker) (usage : TokenUsage) :
    ∃ tracker', (step w (.record usage)).agent.usage = some tracker' ∧
      tracker'.totalTokens = wrappingAdd (owed w.roll) usage.total := by
  rw [← roll_total h]
  exact ⟨_, by simp only [step, recordUsage]; rw [h.usage]; rfl, rfl⟩

theorem exact_record (h : Exact w tracker) (hfits : owed w.roll + usage.actual ≤ maxU64) :
    ∃ tracker', Exact (step w (.record usage)) tracker' := by
  obtain ⟨tracker', husage, htotal⟩ := usage_record h usage
  refine ⟨tracker', husage, ?_, by rwa [owed_record], withinLimit_step h rfl le_rfl⟩
  rw [owed_record, htotal, total_of_le (by omega), wrappingAdd_of_le hfits]

theorem exact_reset (h : Exact w tracker) : Exact (step w .reset) (.fresh w.now) := by
  have howed : owed (step w .reset) = 0 := owed_newWindow w
  refine ⟨?_, howed.symm, howed.trans_le (Nat.zero_le _), withinLimit_of_le (w := w) rfl ?_ h.limit⟩
  · simp only [step, resetUsage]
    rw [h.usage]
    rfl
  · exact (outstanding_newWindow w).trans_le (Nat.zero_le _)

theorem exact_rolled {tracker' : UsageTracker} (h : Exact w tracker)
    (hagent : agent = { w.agent with usage := some tracker' })
    (htotal : tracker'.totalTokens = (tracker.resetIfExpired w.now).totalTokens) :
    Exact { w.roll with agent := agent } tracker' := by
  obtain rfl := hagent
  exact ⟨rfl, htotal.trans (roll_total h), (roll_owed_le h).trans h.fits,
    withinLimit_step h rfl le_rfl⟩

theorem exact_toolCalls (h : Exact w tracker) (count : ℕ) :
    ∃ tracker', Exact (step w (.toolCalls count)) tracker' := by
  by_cases hzero : count = 0
  · have hstep : step w (.toolCalls count) = w := by simp [step, recordToolCalls, hzero]
    rw [hstep]
    exact ⟨tracker, h⟩
  · have hstep : step w (.toolCalls count) =
        { w.roll with agent := recordToolCalls w.agent w.now count } := by simp [step, hzero]
    rw [hstep]
    have hagent : recordToolCalls w.agent w.now count =
        { w.agent with usage := (some tracker).map fun tracker =>
            let tracker := tracker.resetIfExpired w.now
            { tracker with
              toolCallTimestamps := tracker.toolCallTimestamps ++ List.replicate count w.now
              toolCalls := wrappingAdd tracker.toolCalls count } } := by
      unfold recordToolCalls
      rw [if_neg hzero, h.usage]
    exact ⟨_, exact_rolled h hagent rfl⟩

theorem checkQuota_cases (now : ℕ)
    (hq : agent.quota = some quota) (hu : agent.usage = some tracker) :
    ∃ tracker', (checkQuota agent now).2 = { agent with usage := some tracker' } ∧
      tracker'.totalTokens = (tracker.resetIfExpired now).totalTokens := by
  unfold checkQuota
  rw [hq, hu]
  dsimp only [UsageTracker.tokensInLastMinute, UsageTracker.toolCallsInLastMinute]
  by_cases hlimit : 0 < quota.effectiveTokenLimit
  · simp only [hlimit, true_and, if_true]
    split
    · exact ⟨_, rfl, rfl⟩
    split
    · exact ⟨_, rfl, rfl⟩
    split
    · split
      · exact ⟨_, rfl, rfl⟩
      · exact ⟨_, rfl, rfl⟩
    · exact ⟨_, rfl, rfl⟩
  · simp only [hlimit, false_and, if_false]
    split
    · split
      · exact ⟨_, rfl, rfl⟩
      · exact ⟨_, rfl, rfl⟩
    · exact ⟨_, rfl, rfl⟩

theorem exact_check (h : Exact w tracker) : ∃ tracker', Exact (step w .check) tracker' := by
  cases hq : w.agent.quota with
  | none =>
    have hstep : step w .check = w := by simp [step, checkQuota, hq]
    rw [hstep]
    exact ⟨tracker, h⟩
  | some quota =>
    obtain ⟨tracker', hagent, htotal⟩ := checkQuota_cases w.now hq h.usage
    have hstep : step w .check = { w.roll with agent := (checkQuota w.agent w.now).2 } := by
      simp [step, hq]
    rw [hstep]
    exact ⟨tracker', exact_rolled h hagent htotal⟩

end Other

/-! ## Runs -/

theorem exact_step {e : Event} (h : Exact w tracker) (hT : Timely w e) :
    ∃ tracker', Exact (step w e) tracker' := by
  cases e with
  | reserve estimate => exact exact_reserve h hT
  | settle i usage => exact exact_settle h hT
  | release i => exact exact_release h hT
  | record usage => exact exact_record h hT
  | toolCalls count => exact exact_toolCalls h count
  | check => exact exact_check h
  | reset => exact ⟨_, exact_reset h⟩
  | wait duration => exact ⟨tracker, h.usage, h.total, h.fits, h.limit⟩

theorem timely_step {e : Event} (h : Exact w tracker) (hA : Accounted (step w e)) : Timely w e := by
  cases e with
  | reserve estimate => exact timely_reserve h hA
  | settle i usage => exact timely_settle h hA
  | release i => exact timely_release h hA
  | record usage =>
    obtain ⟨tracker', husage, htotal⟩ := usage_record h usage
    have hcovers := hA.1 tracker' husage
    rw [owed_record] at hcovers
    exact hcovers.trans (htotal.trans_le (wrappingAdd_le_max _ _))
  | toolCalls count => trivial
  | check => trivial
  | reset => trivial
  | wait duration => trivial

end Steps

/-- An agent registered with its quota, before any call. -/
def World.start (quota : ResourceQuota) (now : ℕ) : World := ⟨.register quota now, now, [], 0⟩

theorem exact_start (quota : ResourceQuota) (now : ℕ) : Exact (.start quota now) (.fresh now) :=
  ⟨rfl, rfl, Nat.zero_le _, fun _ _ _ => Nat.zero_le _⟩

/-- **A run stays accounted exactly when its steps are timely**: no reservation of an earlier
window is taken out of a window that owes something, and the sums fit the counter. -/
theorem accounted_iff_timely (quota : ResourceQuota) (now : ℕ) (events : List Event) :
    (∀ before rest, events = before ++ rest →
      Accounted (Runs.after step (.start quota now) before)) ↔
      Runs.Along step Timely (.start quota now) events := by
  refine Runs.along_iff_of_strengthening (I := fun w => ∃ tracker, Exact w tracker) ?_ ?_ ?_
    ⟨_, exact_start quota now⟩
  · rintro w ⟨tracker, h⟩
    exact h.accounted
  · rintro w e ⟨tracker, h⟩ hA
    exact timely_step h hA
  · rintro w e ⟨tracker, h⟩ hT
    exact exact_step h hT

/-- An hourly limit of 1000 tokens. -/
def sampleQuota : ResourceQuota := ⟨some 1000, 60⟩

/-- A call that outlives its window is released while another one is in flight. -/
def lateRelease : List Event := [.reserve 60, .wait oneHour, .reserve 60, .release 0]

/-- The late release takes out what the other call reserved. -/
theorem lateRelease_unaccounted :
    ¬ Accounted (Runs.after step (.start sampleQuota 0) lateRelease) := by
  rintro ⟨hcovers, -⟩
  exact absurd (hcovers _ rfl) (by decide)

end LibreFang.Quota
