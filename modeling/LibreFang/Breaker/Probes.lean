import LibreFang.Breaker.Cooldown

/-!
# How many probes are let through

`check` does not note that it lets a probe through; only a failed probe that is reported by
`record_probe_result` does.

* `Open`, `HalfOpen`: the cooldown has not, or has, expired; `check_eq_allowProbe_iff`: when a
  request is let through as a probe.
* **`probe_limit_iff`**: in every run, probes keep their distance and wait for each other exactly
  when the callers report each of them before the next check.
-/

namespace LibreFang.Breaker

open Runs

variable {F : Type} {scale : ℕ → F → ℕ → ℕ} {cb : ProviderCooldown F} {provider : String}
  {now : ℕ} {c : Call} {calls : List Call}

/-- The cooldown of the provider has not expired. -/
def Open (provider : String) (cb : ProviderCooldown F) (now : ℕ) : Prop :=
  ∃ state ∈ cb.states.lookup provider, ∃ start ∈ state.cooldownStart,
    now - start < state.cooldownDuration

/-- The cooldown of the provider has expired. -/
def HalfOpen (provider : String) (cb : ProviderCooldown F) (now : ℕ) : Prop :=
  ∃ state ∈ cb.states.lookup provider, ∃ start ∈ state.cooldownStart,
    state.cooldownDuration ≤ now - start

/-- A probe of the provider may be let through again. -/
def ProbeOk (provider : String) (cb : ProviderCooldown F) (now : ℕ) : Prop :=
  ∃ state ∈ cb.states.lookup provider, cb.probeOk state now

/-- The call records the outcome of a request. -/
def Call.Records : Call → Prop
  | .check _ => False
  | _ => True

/-- The circuit is open at each call. -/
def StaysOpen (scale : ℕ → F → ℕ → ℕ) (provider : String) (cb : ProviderCooldown F)
    (calls : List Call) : Prop :=
  Along (step scale provider) (fun cb c => Open provider cb c.now) cb calls

/-! ## The verdict -/

theorem not_halfOpen_of_open (h : Open provider cb now) : ¬ HalfOpen provider cb now := by
  obtain ⟨state, hstate, start, hstart, hlt⟩ := h
  rintro ⟨state', hstate', start', hstart', hle⟩
  obtain rfl := Option.mem_unique hstate hstate'
  obtain rfl := Option.mem_unique hstart hstart'
  exact Nat.not_le.mpr hlt hle

/-- **When a request is let through as a probe.** -/
theorem check_eq_allowProbe_iff :
    cb.check provider now = .allowProbe ↔ HalfOpen provider cb now ∨
      Open provider cb now ∧ cb.config.probeEnabled ∧ ProbeOk provider cb now := by
  unfold ProviderCooldown.check HalfOpen Open ProbeOk
  cases cb.states.lookup provider with
  | none => simp
  | some state =>
    simp only [Option.mem_def, Option.some.injEq, exists_eq_left']
    cases state.cooldownStart with
    | none => simp
    | some start =>
      simp only [Option.some.injEq, exists_eq_left']
      split
      · next hlt =>
        split
        · next hprobe => exact iff_of_true rfl (.inr ⟨hlt, hprobe⟩)
        · next hprobe =>
          refine iff_of_false nofun ?_
          rintro (hle | ⟨-, hprobe'⟩)
          · exact Nat.not_le.mpr hlt hle
          · exact hprobe hprobe'
      · next hle => exact iff_of_true rfl (.inl (Nat.not_lt.mp hle))

/-! ## What calls remember of probes -/

/-- A probe reported since an instant is remembered, or the circuit is closed. -/
def Probed (provider : String) (since : ℕ) (cb : ProviderCooldown F) : Prop :=
  ∃ state ∈ cb.states.lookup provider,
    state.cooldownStart = none ∨ ∃ last ∈ state.lastProbe, since ≤ last

/-- A probe is due since an instant. -/
def Due (provider : String) (since : ℕ) (cb : ProviderCooldown F) : Prop :=
  ∀ state ∈ cb.states.lookup provider, cb.probeOk state since

theorem config_step : (step scale provider cb c).config = cb.config := by
  cases c with
  | recordProbeResult success now => cases success <;> rfl
  | _ => rfl

theorem lookup_recordSuccess :
    (cb.recordSuccess provider).states.lookup provider =
      (cb.states.lookup provider).map fun state =>
        { state with
          errorCount := 0
          isBilling := false
          cooldownStart := none
          cooldownDuration := 0
          lastProbe := none } :=
  Table.lookup_modify_self ..

theorem probeOk_eq_of_lastProbe {state state' : ProviderState}
    (h : state'.lastProbe = state.lastProbe) : cb.probeOk state' now = cb.probeOk state now := by
  unfold ProviderCooldown.probeOk
  rw [h]

variable {state : ProviderState}

theorem probeOk_of_none (h : state.lastProbe = none) : cb.probeOk state now = true := by
  rw [ProviderCooldown.probeOk, h]

theorem probeOk_mono {now' : ℕ} (hle : now ≤ now')
    (h : cb.probeOk state now = true) : cb.probeOk state now' = true := by
  unfold ProviderCooldown.probeOk at h ⊢
  split
  · next last hlast =>
    rw [hlast] at h
    simp only [decide_eq_true_eq] at h ⊢
    exact Nat.le_trans h (Nat.sub_le_sub_right hle last)
  · rfl

theorem not_probeOk_of_last {last since : ℕ} (hlast : last ∈ state.lastProbe)
    (hsince : since ≤ last) (hle : since ≤ now)
    (hlt : now < since + fromSecs cb.config.probeIntervalSecs) : cb.probeOk state now = false := by
  unfold ProviderCooldown.probeOk
  rw [Option.mem_def.mp hlast]
  simp only [decide_eq_false_iff_not]
  omega

theorem lastProbe_manageWindow (state : ProviderState) :
    (cb.manageWindow state now).lastProbe = state.lastProbe := by
  unfold ProviderCooldown.manageWindow
  split
  · split <;> rfl
  · rfl

theorem lookup_recordFailure (isBilling : Bool) :
    ∃ state', (cb.recordFailure scale provider isBilling now).states.lookup provider =
        some state' ∧
      state'.lastProbe = ((cb.states.lookup provider).getD .new).lastProbe := by
  refine ⟨_, AList.lookup_insert .., ?_⟩
  exact lastProbe_manageWindow _

variable {since : ℕ}

theorem probed_recordSuccess
    (hstate : state ∈ cb.states.lookup provider) :
    Probed provider since (cb.recordSuccess provider) := by
  refine ⟨{ state with
      errorCount := 0
      isBilling := false
      cooldownStart := none
      cooldownDuration := 0
      lastProbe := none }, ?_, .inl rfl⟩
  rw [lookup_recordSuccess, Option.mem_def.mp hstate]
  rfl

theorem probed_of_report {success : Bool} (hopen : Open provider cb now) (hsince : since ≤ now) :
    Probed provider since (step scale provider cb (.recordProbeResult success now)) := by
  obtain ⟨state, hstate, -⟩ := hopen
  cases success with
  | true => exact probed_recordSuccess hstate
  | false =>
    have hlookup : (step scale provider cb (.recordProbeResult false now)).states.lookup provider =
        _ := Table.lookup_modify_self ..
    rw [Option.mem_def.mp hstate] at hlookup
    exact ⟨_, hlookup, .inr ⟨now, rfl, hsince⟩⟩

/-- **It is remembered as long as the circuit is open.** -/
theorem probed_step (hopen : Open provider cb c.now) (h : Probed provider since cb)
    (hsince : since ≤ c.now) : Probed provider since (step scale provider cb c) := by
  obtain ⟨state, hstate, start, hstart, -⟩ := id hopen
  obtain ⟨state', hstate', hlast⟩ := id h
  obtain rfl := Option.mem_unique hstate hstate'
  rcases hlast with hnone | ⟨last, hlast, hle⟩
  · rw [Option.mem_def.mp hstart] at hnone
    cases hnone
  · cases c with
    | check now => exact h
    | recordSuccess now => exact probed_recordSuccess hstate
    | recordFailure isBilling now =>
      obtain ⟨next, hnext, hsame⟩ := @lookup_recordFailure _ scale cb provider now
        isBilling
      refine ⟨next, hnext, .inr ⟨last, ?_, hle⟩⟩
      rw [hsame, Option.mem_def.mp hstate]
      exact hlast
    | recordProbeResult success now => exact probed_of_report hopen hsince

/-- **A probe that is due stays due** until one is reported. -/
theorem due_step (h : Due provider since cb)
    (hreport : ∀ success now, c ≠ .recordProbeResult success now) :
    Due provider since (step scale provider cb c) := by
  cases c with
  | check now => exact h
  | recordSuccess now =>
    intro state hstate
    change state ∈ (cb.recordSuccess provider).states.lookup provider at hstate
    rw [lookup_recordSuccess] at hstate
    obtain ⟨old, -, rfl⟩ := Option.map_eq_some_iff.mp hstate
    exact probeOk_of_none rfl
  | recordFailure isBilling now =>
    intro state hstate
    obtain ⟨next, hnext, hsame⟩ := @lookup_recordFailure _ scale cb provider now
      isBilling
    obtain rfl : next = state := Option.some.inj (hnext.symm.trans hstate)
    cases hold : cb.states.lookup provider with
    | none =>
      rw [hold] at hsame
      exact probeOk_of_none hsame
    | some old =>
      rw [hold] at hsame
      exact (@probeOk_eq_of_lastProbe _ cb _ _ _ hsame).trans (h old hold)
  | recordProbeResult success now => exact absurd rfl (hreport success now)

theorem probed_after (hopen : StaysOpen scale provider cb calls)
    (h : Probed provider since cb) (hsince : ∀ c ∈ calls, since ≤ c.now) :
    Probed provider since (after (step scale provider) cb calls) := by
  induction calls generalizing cb with
  | nil => exact h
  | cons c calls ih =>
    exact ih hopen.2 (probed_step hopen.1 h (hsince c List.mem_cons_self))
      fun c' hc' => hsince c' (List.mem_cons_of_mem _ hc')

theorem due_after (h : Due provider since cb)
    (hreport : ∀ success now, .recordProbeResult success now ∉ calls) :
    Due provider since (after (step scale provider) cb calls) := by
  induction calls generalizing cb with
  | nil => exact h
  | cons c calls ih =>
    refine ih (due_step h ?_) fun success now hmem =>
      hreport success now (List.mem_cons_of_mem _ hmem)
    rintro success now rfl
    exact hreport success now List.mem_cons_self

theorem config_after : (after (step scale provider) cb calls).config = cb.config := by
  induction calls generalizing cb with
  | nil => rfl
  | cons c calls ih => exact ih.trans config_step

/-! ## Two checks of an open circuit -/

variable {t₁ t₂ : ℕ}

theorem not_probe_of_report (hclock : (.check t₁ :: (calls ++ [.check t₂])).Pairwise
      fun c c' => Call.now c ≤ c'.now)
    (hopen : StaysOpen scale provider cb (calls ++ [.check t₂])) {success : Bool} {now : ℕ}
    (hreport : .recordProbeResult success now ∈ calls)
    (hlt : t₂ < t₁ + fromSecs cb.config.probeIntervalSecs) :
    (after (step scale provider) cb calls).check provider t₂ ≠ .allowProbe := by
  obtain ⟨before, later, rfl⟩ := List.append_of_mem hreport
  have hafter : ∀ c ∈ before ++ .recordProbeResult success now :: later, t₁ ≤ c.now := fun c hc =>
    (List.pairwise_cons.mp hclock).1 c (List.mem_append_left _ hc)
  obtain ⟨hcalls, hcheck, -⟩ := along_append (step scale provider) |>.mp hopen
  obtain ⟨-, hreportOpen, hlater⟩ := along_append (step scale provider) |>.mp hcalls
  have hprobed : Probed provider t₁ (after (step scale provider) cb
      (before ++ .recordProbeResult success now :: later)) := by
    rw [after_append, after_cons]
    refine probed_after hlater (probed_of_report hreportOpen ?_) fun c hc => ?_
    · exact hafter _ (List.mem_append_right _ List.mem_cons_self)
    · exact hafter c (List.mem_append_right _ (List.mem_cons_of_mem _ hc))
  have ht : t₁ ≤ t₂ := (List.pairwise_cons.mp hclock).1 (.check t₂)
    (List.mem_append_right _ (List.mem_singleton_self _))
  intro hallow
  rcases check_eq_allowProbe_iff.mp hallow with hhalf | ⟨hopen₂, -, state, hstate, hok⟩
  · exact not_halfOpen_of_open hcheck hhalf
  · obtain ⟨state', hstate', hlast⟩ := hprobed
    obtain rfl := Option.mem_unique hstate hstate'
    obtain ⟨state', hstate', start, hstart, -⟩ := hopen₂
    obtain rfl := Option.mem_unique hstate hstate'
    rcases hlast with hnone | ⟨last, hlast, hle⟩
    · rw [Option.mem_def.mp hstart] at hnone
      cases hnone
    · rw [not_probeOk_of_last hlast hle ht (by rwa [config_after])] at hok
      cases hok

theorem probe_of_no_report (hle : t₁ ≤ t₂) (henabled : cb.config.probeEnabled = true)
    (hok : ProbeOk provider cb t₁) (hreport : ∀ success now, .recordProbeResult success now ∉ calls)
    (hopen : Open provider (after (step scale provider) cb calls) t₂) :
    (after (step scale provider) cb calls).check provider t₂ = .allowProbe := by
  have hdue : Due provider t₁ (after (step scale provider) cb calls) := by
    refine due_after (fun state hstate => ?_) hreport
    obtain ⟨state', hstate', hok⟩ := hok
    obtain rfl := Option.mem_unique hstate hstate'
    exact hok
  refine check_eq_allowProbe_iff.mpr (.inr ⟨hopen, by rwa [config_after], ?_⟩)
  obtain ⟨state, hstate, -⟩ := hopen
  exact ⟨state, hstate, probeOk_mono hle (hdue state hstate)⟩

/-! ## Runs -/

/-- Two checks of a run with some calls between them: probes of an open circuit keep their
distance, and the one of a half-open circuit waits for the outcome of the one before. -/
def Limited (scale : ℕ → F → ℕ → ℕ) (provider : String) (cb : ProviderCooldown F) (t₁ t₂ : ℕ)
    (calls : List Call) : Prop :=
  cb.check provider t₁ = .allowProbe →
  (after (step scale provider) cb calls).check provider t₂ = .allowProbe →
    (StaysOpen scale provider cb (.check t₁ :: (calls ++ [.check t₂])) →
      t₁ + fromSecs cb.config.probeIntervalSecs ≤ t₂) ∧
    (HalfOpen provider cb t₁ → HalfOpen provider (after (step scale provider) cb calls) t₂ →
      ∃ c ∈ calls, c.Records)

/-- The callers report a probe before the next check. -/
def Reported (scale : ℕ → F → ℕ → ℕ) (provider : String) (cb : ProviderCooldown F) (t₁ t₂ : ℕ)
    (calls : List Call) : Prop :=
  (StaysOpen scale provider cb (.check t₁ :: (calls ++ [.check t₂])) → cb.config.probeEnabled →
    ProbeOk provider cb t₁ → t₂ < t₁ + fromSecs cb.config.probeIntervalSecs →
      ∃ success now, .recordProbeResult success now ∈ calls) ∧
  (HalfOpen provider cb t₁ → HalfOpen provider (after (step scale provider) cb calls) t₂ →
    ∃ c ∈ calls, c.Records)

theorem limited_iff_reported (hclock : (.check t₁ :: (calls ++ [.check t₂])).Pairwise
      fun c c' => Call.now c ≤ c'.now) :
    Limited scale provider cb t₁ t₂ calls ↔ Reported scale provider cb t₁ t₂ calls := by
  constructor
  · refine fun hlimited => ⟨fun hopen henabled hok hlt => ?_, fun hhalf₁ hhalf₂ => ?_⟩
    · by_contra hreport
      push Not at hreport
      have ht : t₁ ≤ t₂ := (List.pairwise_cons.mp hclock).1 (.check t₂)
        (List.mem_append_right _ (List.mem_singleton_self _))
      have hcheck := (along_append (step scale provider) |>.mp hopen.2).2.1
      have hspaced := (hlimited (check_eq_allowProbe_iff.mpr (.inr ⟨hopen.1, henabled, hok⟩))
        (probe_of_no_report ht henabled hok hreport hcheck)).1 hopen
      exact Nat.not_le.mpr hlt hspaced
    · exact (hlimited (check_eq_allowProbe_iff.mpr (.inl hhalf₁))
        (check_eq_allowProbe_iff.mpr (.inl hhalf₂))).2 hhalf₁ hhalf₂
  · refine fun hreported hallow₁ hallow₂ => ⟨fun hopen => ?_, hreported.2⟩
    by_contra hlt
    rw [Nat.not_le] at hlt
    rcases check_eq_allowProbe_iff.mp hallow₁ with hhalf | ⟨-, henabled, hok⟩
    · exact not_halfOpen_of_open hopen.1 hhalf
    · obtain ⟨success, now, hreport⟩ := hreported.1 hopen henabled hok hlt
      exact not_probe_of_report hclock hopen.2 hreport hlt hallow₂

/-- **Probes are limited exactly when the callers report each of them**: from any state, for any two
checks of any run. -/
theorem probe_limit_iff (scale : ℕ → F → ℕ → ℕ) (provider : String) (start : ProviderCooldown F)
    (run : List Call) (hclock : run.Pairwise fun c c' => c.now ≤ c'.now) :
    (∀ before t₁ between t₂ rest,
      run = before ++ .check t₁ :: (between ++ .check t₂ :: rest) →
        Limited scale provider (after (step scale provider) start before) t₁ t₂ between) ↔
    ∀ before t₁ between t₂ rest,
      run = before ++ .check t₁ :: (between ++ .check t₂ :: rest) →
        Reported scale provider (after (step scale provider) start before) t₁ t₂ between := by
  refine forall_congr' fun before => forall_congr' fun t₁ => forall_congr' fun between =>
    forall_congr' fun t₂ => forall_congr' fun rest => forall_congr' fun hrun => ?_
  refine limited_iff_reported (hclock.sublist ?_)
  rw [hrun]
  refine List.sublist_append_of_sublist_right (List.Sublist.cons_cons _ ?_)
  rw [← List.singleton_append (l := rest), ← List.append_assoc]
  exact List.sublist_append_left ..

/-- A probe is reported as failed before the next check. -/
theorem probe_limit_of_reported :
    (∀ before t₁ between t₂ rest,
      [.recordFailure false 0, .check 1, .recordProbeResult false 2, .check 3] =
          before ++ .check t₁ :: (between ++ .check t₂ :: rest) →
        Limited scaleNat "openai" (after (step scaleNat "openai") (.new (.default 5 2)) before) t₁ t₂
          between) ↔
    ∀ before t₁ between t₂ rest,
      [.recordFailure false 0, .check 1, .recordProbeResult false 2, .check 3] =
          before ++ .check t₁ :: (between ++ .check t₂ :: rest) →
        Reported scaleNat "openai" (after (step scaleNat "openai") (.new (.default 5 2)) before) t₁
          t₂ between :=
  probe_limit_iff scaleNat "openai" (.new (.default 5 2))
    [.recordFailure false 0, .check 1, .recordProbeResult false 2, .check 3] (by decide)

/-- Two checks in a row of an open circuit both let a probe through. -/
theorem two_probes_at_once :
    ¬ ∀ (config : CooldownConfig ℕ) (run : List Call), (run.Pairwise fun c c' => c.now ≤ c'.now) →
      ∀ before t₁ between t₂ rest,
        run = before ++ .check t₁ :: (between ++ .check t₂ :: rest) →
          Limited scaleNat "openai" (after (step scaleNat "openai") (.new config) before) t₁ t₂
            between := by
  intro h
  have hlimited := h (.default 5 2) [.recordFailure false 0, .check 1, .check 2] (by decide)
    [.recordFailure false 0] 1 [] 2 [] rfl (by decide) (by decide)
  have hopen : ∀ now < 3, Open "openai"
      (after (step scaleNat "openai") (.new (.default 5 2)) [.recordFailure false 0]) now := by
    intro now hnow
    refine ⟨_, rfl, 0, rfl, ?_⟩
    exact Nat.lt_trans hnow (by decide)
  exact absurd (hlimited.1 ⟨hopen 1 (by decide), hopen 2 (by decide), trivial⟩) (by decide)

end LibreFang.Breaker
