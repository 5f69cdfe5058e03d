import LibreFang.Quota.Accounting

/-!
# The reserving check against the plain one

Both checks of the quota read the same tracker. The reserving one projects the tokens, and does not
count the tool calls.

* `OverTokens`, `OverBurst`, `OverCalls`, **`checkQuota_error_iff`**: what the plain check refuses.
* `Refuses`, **`reserve_error_iff`**: what the reserving check refuses.
* **`atLeastAsStrict_iff`**: the reserving check refuses all that the plain one refuses exactly if
  it refuses the agents that are out of tool calls.
-/

namespace LibreFang.Quota

/-! ## What is refused -/

section Limits

variable (quota : ResourceQuota) (tracker : UsageTracker) (now : ℕ)

/-- The tokens of the hour are over the limit. -/
def OverTokens : Prop :=
  0 < quota.effectiveTokenLimit ∧ quota.effectiveTokenLimit < tracker.totalTokens

/-- The tokens of the last minute are over a fifth of the limit. -/
def OverBurst : Prop :=
  0 < quota.effectiveTokenLimit ∧ 0 < quota.effectiveTokenLimit / 5 ∧
    quota.effectiveTokenLimit / 5 < (tracker.tokensInLastMinute now).1

/-- The tool calls of the last minute are used up. -/
def OverCalls : Prop :=
  0 < quota.maxToolCallsPerMinute ∧
    quota.maxToolCallsPerMinute ≤ (tracker.toolCallsInLastMinute now).1

/-- The tokens with the estimate are over the limit, or over its fifth. -/
def Refuses (estimatedTokens : ℕ) : Prop :=
  0 < quota.effectiveTokenLimit ∧
    (quota.effectiveTokenLimit < saturatingAdd tracker.totalTokens estimatedTokens ∨
      0 < quota.effectiveTokenLimit / 5 ∧ quota.effectiveTokenLimit / 5 <
        saturatingAdd (tracker.tokensInLastMinute now).1 estimatedTokens)

end Limits

/-- The tokens that are counted in the hourly window. -/
def Agent.totalTokens (agent : Agent) : Option ℕ := agent.usage.map (·.totalTokens)

/-- What the plain check refuses, the reserving check refuses as well, and charges nothing. -/
def AtLeastAsStrict (agent : Agent) (now estimatedTokens : ℕ) : Prop :=
  ∀ e, (checkQuota agent now).1 = .error e →
    (∃ e', (checkQuotaAndReserve agent now estimatedTokens).1 = .error e') ∧
      (checkQuotaAndReserve agent now estimatedTokens).2.totalTokens = agent.totalTokens

section Checks

variable {agent : Agent} {quota : ResourceQuota} {tracker : UsageTracker} {now estimatedTokens : ℕ}

theorem not_error_of_ok {α : Type} {a : α} :
    ¬ ∃ e : String, (Except.ok a : Except String α) = .error e := by
  rintro ⟨e, h⟩
  cases h

theorem toolCalls_evicted (c : Prop) [Decidable c] (tracker : UsageTracker) (now : ℕ) :
    ((if c then (tracker.tokensInLastMinute now).2 else tracker).toolCallsInLastMinute now).1 =
      (tracker.toolCallsInLastMinute now).1 := by
  split <;> rfl

/-- **The plain check** refuses an agent that is over one of three limits. -/
theorem checkQuota_error_iff (hq : agent.quota = some quota) (hu : agent.usage = some tracker) :
    (∃ e, (checkQuota agent now).1 = .error e) ↔
      OverTokens quota (tracker.resetIfExpired now) ∨
        OverBurst quota (tracker.resetIfExpired now) now ∨
          OverCalls quota (tracker.resetIfExpired now) now := by
  unfold checkQuota
  rw [hq, hu]
  dsimp only
  by_cases htokens : OverTokens quota (tracker.resetIfExpired now)
  · rw [if_pos (show _ ∧ _ from htokens)]
    exact iff_of_true ⟨_, rfl⟩ (.inl htokens)
  rw [if_neg (show ¬ (_ ∧ _) from htokens)]
  by_cases hburst : OverBurst quota (tracker.resetIfExpired now) now
  · rw [if_pos (show _ ∧ _ ∧ _ from hburst)]
    exact iff_of_true ⟨_, rfl⟩ (.inr (.inl hburst))
  rw [if_neg (show ¬ (_ ∧ _ ∧ _) from hburst)]
  by_cases hlimited : 0 < quota.maxToolCallsPerMinute
  · rw [if_pos hlimited, toolCalls_evicted]
    by_cases hcalls : quota.maxToolCallsPerMinute ≤
        ((tracker.resetIfExpired now).toolCallsInLastMinute now).1
    · rw [if_pos hcalls]
      exact iff_of_true ⟨_, rfl⟩ (.inr (.inr ⟨hlimited, hcalls⟩))
    · rw [if_neg hcalls]
      refine iff_of_false not_error_of_ok ?_
      rintro (h | h | h)
      · exact htokens h
      · exact hburst h
      · exact hcalls h.2
  · rw [if_neg hlimited]
    refine iff_of_false not_error_of_ok ?_
    rintro (h | h | h)
    · exact htokens h
    · exact hburst h
    · exact hlimited h.1

/-- **The reserving check** refuses what the estimate takes over a limit. -/
theorem reserve_error_iff (hq : agent.quota = some quota) (hu : agent.usage = some tracker) :
    (∃ e, (checkQuotaAndReserve agent now estimatedTokens).1 = .error e) ↔
      Refuses quota (tracker.resetIfExpired now) now estimatedTokens := by
  unfold checkQuotaAndReserve
  rw [hq, hu]
  dsimp only
  by_cases hzero : quota.effectiveTokenLimit = 0
  · rw [if_pos hzero]
    exact iff_of_false not_error_of_ok fun h => absurd hzero (Nat.ne_of_gt h.1)
  rw [if_neg hzero]
  have hpos : 0 < quota.effectiveTokenLimit := Nat.pos_of_ne_zero hzero
  by_cases hover : quota.effectiveTokenLimit <
      saturatingAdd (tracker.resetIfExpired now).totalTokens estimatedTokens
  · rw [if_pos hover]
    exact iff_of_true ⟨_, rfl⟩ ⟨hpos, .inl hover⟩
  rw [if_neg hover]
  by_cases hburst : 0 < quota.effectiveTokenLimit / 5 ∧ quota.effectiveTokenLimit / 5 <
      saturatingAdd ((tracker.resetIfExpired now).tokensInLastMinute now).1 estimatedTokens
  · rw [if_pos hburst]
    exact iff_of_true ⟨_, rfl⟩ ⟨hpos, .inr hburst⟩
  · rw [if_neg hburst]
    refine iff_of_false not_error_of_ok ?_
    rintro ⟨-, h | h⟩
    · exact hover h
    · exact hburst h

theorem totalTokens_of_reserve_error (hu : agent.usage = some tracker)
    (h : ∃ e, (checkQuotaAndReserve agent now estimatedTokens).1 = .error e) :
    (checkQuotaAndReserve agent now estimatedTokens).2.totalTokens =
      some (tracker.resetIfExpired now).totalTokens := by
  obtain ⟨e, he⟩ := h
  cases hq : agent.quota with
  | none =>
    unfold checkQuotaAndReserve at he
    rw [hq] at he
    cases he
  | some quota =>
    obtain ⟨tracker', hagent, ⟨-, -, htotal⟩ | ⟨hok, -⟩ | ⟨hok, -⟩⟩ :=
      checkQuotaAndReserve_cases now estimatedTokens hq hu
    · rw [hagent, ← htotal]
      rfl
    · rw [hok] at he
      cases he
    · rw [hok] at he
      cases he

theorem not_expired_of_over (h : OverTokens quota (tracker.resetIfExpired now) ∨
    OverBurst quota (tracker.resetIfExpired now) now ∨
      OverCalls quota (tracker.resetIfExpired now) now) :
    tracker.resetIfExpired now = tracker := by
  unfold UsageTracker.resetIfExpired at h ⊢
  by_cases hexpired : tracker.expired now
  · rw [if_pos hexpired] at h
    obtain ⟨-, h⟩ | ⟨-, -, h⟩ | ⟨hpos, h⟩ := h
    · exact absurd h (Nat.not_lt_zero _)
    · exact absurd h (Nat.not_lt_zero _)
    · exact absurd hpos (Nat.not_lt_of_le h)
  · rw [if_neg hexpired]

theorem le_saturatingAdd {a : ℕ} (h : a ≤ maxU64) (b : ℕ) : a ≤ saturatingAdd a b :=
  Nat.le_min.mpr ⟨Nat.le_add_right a b, h⟩

theorem tokensInLastMinute_le (tracker : UsageTracker) (now : ℕ) :
    (tracker.tokensInLastMinute now).1 ≤ maxU64 := by
  unfold UsageTracker.tokensInLastMinute
  dsimp only
  generalize (tracker.tokenTimestamps.dropWhile fun entry => entry.1 < now - oneMinute).map
    Prod.snd = tokens
  obtain rfl | ⟨tokens', n, rfl⟩ := List.eq_nil_or_concat' tokens
  · exact Nat.zero_le _
  · rw [List.foldl_append]
    exact wrappingAdd_le_max _ _

/-- **The reserving check is at least as strict** exactly if it refuses an agent that is out of
tool calls. -/
theorem atLeastAsStrict_iff (agent : Agent) (now estimatedTokens : ℕ)
    (hfits : ∀ tracker, agent.usage = some tracker → tracker.totalTokens ≤ maxU64) :
    AtLeastAsStrict agent now estimatedTokens ↔
      ∀ quota tracker, agent.quota = some quota → agent.usage = some tracker →
        OverCalls quota (tracker.resetIfExpired now) now →
          Refuses quota (tracker.resetIfExpired now) now estimatedTokens := by
  constructor
  · intro h quota tracker hq hu hcalls
    obtain ⟨e, he⟩ := (checkQuota_error_iff hq hu).mpr (.inr (.inr hcalls))
    exact (reserve_error_iff hq hu).mp (h e he).1
  · intro h e he
    cases hq : agent.quota with
    | none =>
      unfold checkQuota at he
      rw [hq] at he
      cases he
    | some quota =>
    cases hu : agent.usage with
    | none =>
      unfold checkQuota at he
      rw [hq, hu] at he
      cases he
    | some tracker =>
      have hover := (checkQuota_error_iff hq hu).mp ⟨e, he⟩
      have hsame := not_expired_of_over hover
      have hrefuses : Refuses quota (tracker.resetIfExpired now) now estimatedTokens := by
        obtain ⟨hpos, htokens⟩ | ⟨hpos, hcap, hburst⟩ | hcalls := hover
        · rw [hsame] at htokens ⊢
          exact ⟨hpos, .inl (Nat.lt_of_lt_of_le htokens (le_saturatingAdd (hfits tracker hu) _))⟩
        · exact ⟨hpos, .inr ⟨hcap,
            Nat.lt_of_lt_of_le hburst (le_saturatingAdd (tokensInLastMinute_le _ _) _)⟩⟩
        · exact h quota tracker hq hu hcalls
      have herror : ∃ e', (checkQuotaAndReserve agent now estimatedTokens).1 = .error e' :=
        (reserve_error_iff hq hu).mpr hrefuses
      refine ⟨herror, ?_⟩
      rw [totalTokens_of_reserve_error hu herror, hsame, Agent.totalTokens, hu]
      rfl

end Checks

/-- An agent that has made all the tool calls of a minute. -/
def busyAgent : Agent := recordToolCalls (.register ⟨some 1000, 5⟩ 0) 0 5

/-- The condition for the agent that is out of tool calls. -/
theorem atLeastAsStrict_iff_busyAgent : AtLeastAsStrict busyAgent 0 10 ↔
    ∀ quota tracker, busyAgent.quota = some quota → busyAgent.usage = some tracker →
      OverCalls quota (tracker.resetIfExpired 0) 0 →
        Refuses quota (tracker.resetIfExpired 0) 0 10 :=
  atLeastAsStrict_iff busyAgent 0 10 fun tracker h => by
    obtain rfl := Option.some.inj h
    decide

/-- The plain check refuses it, and the reserving check grants the tokens. -/
theorem busyAgent_reserves : ¬ AtLeastAsStrict busyAgent 0 10 := by
  intro h
  obtain ⟨⟨e, he⟩, -⟩ := h _ rfl
  cases he

end LibreFang.Quota
