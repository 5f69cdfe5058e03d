import LibreFang.Guard.LoopGuard

/-!
# What the loop guard bounds

* `CheckSpec`, `check_spec`: what a check does to the counters.
* `Bounded`: the bounds of a run: on the calls that pass, on the calls with one hash, on calls that
  give the same result again and again.
* `NoWrap`: no counter is at its largest value when it is counted up.
* **`bounded_of_noWrap`**: a run in which no counter wraps is bounded.
* **`breaker_wraps`**: the `2 ^ 32`-nd check passes a guard that lets nothing pass.
-/

namespace LibreFang.Guard

variable {host : Host} {guard guard' : LoopGuard} {call : Call} {hash : String}
  {verdict : LoopGuardVerdict}

@[simp] theorem countOf_bump_self (counts : Table String ℕ) (key : String) :
    countOf (bump counts key) key = nextU32 (countOf counts key) := by
  simp [countOf, bump]

theorem countOf_bump_ne (counts : Table String ℕ) {key key' : String} (h : key' ≠ key) :
    countOf (bump counts key) key' = countOf counts key' := by
  simp [countOf, bump, AList.lookup_insert_ne h]

theorem nextU32_of_lt {n : ℕ} (h : n + 1 < 2 ^ 32) : nextU32 n = n + 1 := Nat.mod_eq_of_lt h

namespace LoopGuard

/-! ## What a check does -/

/-- A call that has been counted has got a verdict: warnings may have been counted, and the call is
counted as blocked if it does not pass. -/
structure Judged (guard : LoopGuard) (verdict : LoopGuardVerdict) (guard' : LoopGuard) : Prop where
  config_eq : guard'.config = guard.config
  totalCalls_eq : guard'.totalCalls = guard.totalCalls
  callCounts_eq : guard'.callCounts = guard.callCounts
  outcomeCounts_eq : guard'.outcomeCounts = guard.outcomeCounts
  blockedOutcomes_eq : guard'.blockedOutcomes = guard.blockedOutcomes
  blockedCalls_eq : guard'.blockedCalls =
    if verdict.Passes then guard.blockedCalls else nextU32 guard.blockedCalls

theorem judged_blocked (hstop : verdict.Passes = false) :
    Judged guard (guard.blocked verdict).1 (guard.blocked verdict).2 := by
  refine ⟨rfl, rfl, rfl, rfl, rfl, ?_⟩
  unfold blocked
  dsimp only
  rw [hstop]
  exact (if_neg Bool.false_ne_true).symm

theorem Judged.of_warned {warnings : Table String ℕ}
    (h : Judged { guard with warningsEmitted := warnings } verdict guard') :
    Judged guard verdict guard' :=
  ⟨h.config_eq, h.totalCalls_eq, h.callCounts_eq, h.outcomeCounts_eq, h.blockedOutcomes_eq,
    h.blockedCalls_eq⟩

theorem judged_of_passes (hpass : verdict.Passes = true) : Judged guard verdict guard :=
  ⟨rfl, rfl, rfl, rfl, rfl, (if_pos hpass).symm⟩

theorem judged_checkPingPong (guard : LoopGuard) (hash : String) :
    Judged guard (guard.checkPingPong hash).1 (guard.checkPingPong hash).2 ∧
      (guard.checkPingPong hash).1.Breaks = false := by
  unfold checkPingPong
  cases guard.detectPingPong with
  | none => exact ⟨judged_of_passes rfl, rfl⟩
  | some message =>
    dsimp only
    split
    · exact ⟨judged_blocked rfl, rfl⟩
    · split
      · exact ⟨(judged_of_passes rfl).of_warned, rfl⟩
      · exact ⟨(judged_of_passes rfl).of_warned, rfl⟩

theorem judged_checkWarnings (guard : LoopGuard) (call : Call) (hash : String) (count : ℕ) :
    Judged guard (guard.checkWarnings call hash count).1 (guard.checkWarnings call hash count).2 ∧
      (guard.checkWarnings call hash count).1.Breaks = false := by
  unfold checkWarnings
  dsimp only
  split
  · exact ⟨(judged_blocked rfl).of_warned, rfl⟩
  · exact ⟨(judged_of_passes rfl).of_warned, rfl⟩

theorem judged_checkCount (host : Host) (guard : LoopGuard) (call : Call) (hash : String) :
    Judged guard (guard.checkCount host call hash).1 (guard.checkCount host call hash).2 ∧
      (guard.checkCount host call hash).1.Breaks = false := by
  unfold checkCount
  dsimp only
  split
  · exact ⟨judged_blocked rfl, rfl⟩
  · split
    · exact judged_checkWarnings ..
    · exact judged_checkPingPong ..

theorem count_lt_of_passes (h : (guard.checkCount host call hash).1.Passes = true) :
    countOf guard.callCounts hash <
      guard.config.blockThreshold * guard.config.multiplier host call % 2 ^ 32 := by
  by_contra hle
  unfold checkCount at h
  dsimp only at h
  rw [if_pos (not_lt.mp hle)] at h
  exact Bool.false_ne_true h

/-- What a check does to the counters. -/
structure CheckSpec (host : Host) (guard : LoopGuard) (call : Call) (verdict : LoopGuardVerdict)
    (guard' : LoopGuard) : Prop where
  config_eq : guard'.config = guard.config
  totalCalls_eq : guard'.totalCalls = nextU32 guard.totalCalls
  outcomeCounts_eq : guard'.outcomeCounts = guard.outcomeCounts
  blockedOutcomes_eq : guard'.blockedOutcomes = guard.blockedOutcomes
  blockedCalls_eq : guard'.blockedCalls =
    if verdict.Passes then guard.blockedCalls else nextU32 guard.blockedCalls
  breaks_iff : verdict.Breaks = true ↔ guard.config.globalCircuitBreaker < nextU32 guard.totalCalls
  callCounts_eq : guard'.callCounts = guard.callCounts ∨
    guard'.callCounts = bump guard.callCounts (computeHash host call)
  of_passes : verdict.Passes = true → computeHash host call ∉ guard.blockedOutcomes ∧
    guard'.callCounts = bump guard.callCounts (computeHash host call) ∧
    nextU32 (countOf guard.callCounts (computeHash host call)) <
      guard.config.blockThreshold * guard.config.multiplier host call % 2 ^ 32

theorem check_spec (host : Host) (guard : LoopGuard) (call : Call) :
    CheckSpec host guard call (guard.check host call).1 (guard.check host call).2 := by
  unfold check
  by_cases hbreak : guard.config.globalCircuitBreaker < guard.countTotal.totalCalls
  · rw [if_pos hbreak]
    exact ⟨rfl, rfl, rfl, rfl, rfl, iff_of_true rfl hbreak, .inl rfl, fun h => by cases h⟩
  · rw [if_neg hbreak]
    unfold checkCall
    dsimp only
    by_cases hblocked : computeHash host call ∈
        (guard.countTotal.remember call (computeHash host call)).blockedOutcomes
    · rw [if_pos hblocked]
      exact ⟨rfl, rfl, rfl, rfl, rfl, iff_of_false Bool.false_ne_true hbreak, .inl rfl,
        fun h => by cases h⟩
    · rw [if_neg hblocked]
      -- the call is counted, and judged by its count
      obtain ⟨hjudged, hgoes⟩ := judged_checkCount host
        ((guard.countTotal.remember call (computeHash host call)).countCall (computeHash host call))
        call (computeHash host call)
      refine ⟨hjudged.config_eq, hjudged.totalCalls_eq, hjudged.outcomeCounts_eq,
        hjudged.blockedOutcomes_eq, hjudged.blockedCalls_eq,
        iff_of_false (by rw [hgoes]; exact Bool.false_ne_true) hbreak, .inr hjudged.callCounts_eq,
        fun hpass => ⟨hblocked, hjudged.callCounts_eq, ?_⟩⟩
      have hcount := count_lt_of_passes hpass
      unfold countCall remember countTotal at hcount
      dsimp only at hcount
      rwa [countOf_bump_self] at hcount

/-- What recording a result does to the counters. -/
structure RecordSpec (host : Host) (guard : LoopGuard) (call : Call) (result : String)
    (guard' : LoopGuard) : Prop where
  config_eq : guard'.config = guard.config
  totalCalls_eq : guard'.totalCalls = guard.totalCalls
  callCounts_eq : guard'.callCounts = guard.callCounts
  blockedCalls_eq : guard'.blockedCalls = guard.blockedCalls
  outcomeCounts_eq : guard'.outcomeCounts =
    bump guard.outcomeCounts (computeOutcomeHash host call result)
  blockedOutcomes_eq : guard'.blockedOutcomes =
    if guard.config.outcomeBlockThreshold ≤
        nextU32 (countOf guard.outcomeCounts (computeOutcomeHash host call result)) then
      insert (computeHash host call) guard.blockedOutcomes
    else guard.blockedOutcomes

theorem recordOutcome_spec (host : Host) (guard : LoopGuard) (call : Call) (result : String) :
    RecordSpec host guard call result (guard.recordOutcome host call result).2 := by
  unfold recordOutcome
  dsimp only
  rw [countOf_bump_self]
  split
  next hblock => exact ⟨rfl, rfl, rfl, rfl, rfl, (if_pos hblock).symm⟩
  next hblock =>
    split
    · exact ⟨rfl, rfl, rfl, rfl, rfl, (if_neg hblock).symm⟩
    · exact ⟨rfl, rfl, rfl, rfl, rfl, (if_neg hblock).symm⟩

end LoopGuard

/-! ## The bounds of a run -/

namespace Event

/-- The event is a check. -/
def IsCheck : Event → Bool
  | checked _ _ => true
  | recorded _ _ => false

/-- The event is a check whose verdict is as given. -/
def Has (p : LoopGuardVerdict → Bool) : Event → Bool
  | checked _ verdict => p verdict
  | recorded _ _ => false

/-- A call with the hash passes. -/
def PassesAs (host : Host) (hash : String) : Event → Bool
  | checked call verdict => verdict.Passes && computeHash host call == hash
  | recorded _ _ => false

/-- A call with the hash has had the outcome. -/
def Records (host : Host) (hash outcome : String) : Event → Bool
  | checked _ _ => false
  | recorded call result =>
    computeHash host call == hash && computeOutcomeHash host call result == outcome

end Event

/-- **The bounds of a run.** -/
structure Bounded (host : Host) (config : LoopGuardConfig) (run : Run) : Prop where
  /-- No more calls pass than the circuit breaker allows. -/
  passes_le : run.events.countP (Event.Has (·.Passes)) ≤ config.globalCircuitBreaker
  /-- Once the loop has been broken off, every check breaks it off. -/
  breaks_forever : run.events.Pairwise fun later earlier =>
    earlier.Has (·.Breaks) = true → later.IsCheck = true → later.Has (·.Breaks) = true
  /-- Fewer calls with one hash pass than the threshold of the call, if calls with the same hash
  have the same factor. -/
  passesAs_lt : ∀ call,
    (∀ call' verdict, .checked call' verdict ∈ run.events →
      computeHash host call' = computeHash host call →
        config.multiplier host call' = config.multiplier host call) →
    0 < config.blockThreshold * config.multiplier host call →
      run.events.countP (Event.PassesAs host (computeHash host call)) <
        config.blockThreshold * config.multiplier host call
  /-- A call does not pass once one outcome of it has been recorded as often as the threshold
  says. -/
  repeated_stopped : ∀ later call verdict earlier outcome,
    run.events = later ++ .checked call verdict :: earlier →
    0 < earlier.countP (Event.Records host (computeHash host call) outcome) →
    config.outcomeBlockThreshold ≤
      earlier.countP (Event.Records host (computeHash host call) outcome) →
    verdict.Passes = false
  /-- The calls that did not pass have been counted. -/
  blockedCalls_eq : run.guard.blockedCalls = run.events.countP (Event.Has (!·.Passes))

/-- No counter is at the largest `u32` when it is counted up. -/
def NoWrap (host : Host) (run : Run) : Act → Prop
  | .check _ => run.guard.totalCalls + 1 < 2 ^ 32
  | .recordOutcome call result =>
    countOf run.guard.outcomeCounts (computeOutcomeHash host call result) + 1 < 2 ^ 32

instance decidableNoWrap (host : Host) (run : Run) : ∀ act, Decidable (NoWrap host run act)
  | .check _ => inferInstanceAs (Decidable (_ < _))
  | .recordOutcome _ _ => inferInstanceAs (Decidable (_ < _))

/-- The bounds, and what the counters have counted. -/
structure Inv (host : Host) (config : LoopGuardConfig) (run : Run) : Prop where
  bounded : Bounded host config run
  config_eq : run.guard.config = config
  totalCalls_eq : run.guard.totalCalls = run.events.countP Event.IsCheck
  broken : ∀ e ∈ run.events, e.Has (·.Breaks) = true →
    config.globalCircuitBreaker < run.guard.totalCalls
  passesAs_le : ∀ hash,
    run.events.countP (Event.PassesAs host hash) ≤ countOf run.guard.callCounts hash
  callCounts_le : ∀ hash, countOf run.guard.callCounts hash ≤ run.guard.totalCalls
  records_le : ∀ hash outcome,
    run.events.countP (Event.Records host hash outcome) ≤ countOf run.guard.outcomeCounts outcome
  blocked_of_records : ∀ hash outcome, 0 < run.events.countP (Event.Records host hash outcome) →
    config.outcomeBlockThreshold ≤ run.events.countP (Event.Records host hash outcome) →
    hash ∈ run.guard.blockedOutcomes

variable {config : LoopGuardConfig} {run : Run} {result : String}

theorem bounded_start (host : Host) (config : LoopGuardConfig) :
    Bounded host config (start config) where
  passes_le := Nat.zero_le _
  breaks_forever := .nil
  passesAs_lt := fun _ _ hpos => hpos
  repeated_stopped := fun _ _ _ _ _ h => absurd h (List.append_ne_nil_of_right_ne_nil _
    (List.cons_ne_nil _ _)).symm
  blockedCalls_eq := rfl

theorem inv_start (host : Host) (config : LoopGuardConfig) : Inv host config (start config) where
  bounded := bounded_start host config
  config_eq := rfl
  totalCalls_eq := rfl
  broken := fun _ h => by cases h
  passesAs_le := fun _ => Nat.zero_le _
  callCounts_le := fun _ => Nat.zero_le _
  records_le := fun _ _ => Nat.zero_le _
  blocked_of_records := fun _ _ h => absurd h (Nat.lt_irrefl 0)

theorem countP_has_le (p : LoopGuardVerdict → Bool) (events : List Event) :
    events.countP (Event.Has p) ≤ events.countP Event.IsCheck := by
  apply List.countP_mono_left
  rintro (⟨call, verdict⟩ | ⟨call, result⟩) - h
  · rfl
  · cases h

theorem passes_of_breaks (h : verdict.Passes = true) : verdict.Breaks = false := by
  cases verdict with
  | allow => rfl
  | warn => rfl
  | block => cases h
  | circuitBreak => cases h

section Check

variable (h : Inv host config run) (hwrap : run.guard.totalCalls + 1 < 2 ^ 32)
include h hwrap

theorem Inv.total_le_of_passes (hpass : (run.guard.check host call).1.Passes = true) :
    run.guard.totalCalls + 1 ≤ config.globalCircuitBreaker := by
  have hspec := LoopGuard.check_spec host run.guard call
  by_contra hlt
  have hbreaks := hspec.breaks_iff.mpr (by rw [nextU32_of_lt hwrap, h.config_eq]; omega)
  rw [passes_of_breaks hpass] at hbreaks
  exact Bool.false_ne_true hbreaks

theorem Inv.bounded_check (call : Call) : Bounded host config (step host run (.check call)) := by
  have hspec := LoopGuard.check_spec host run.guard call
  have hnext := h.callCounts_le (computeHash host call)
  unfold step
  dsimp only
  generalize hv : (run.guard.check host call).1 = verdict at hspec ⊢
  generalize hg : (run.guard.check host call).2 = guard' at hspec ⊢
  constructor
  · by_cases hpass : (Event.checked call verdict).Has (·.Passes) = true
    · have hle := countP_has_le (·.Passes) run.events
      have hbound := h.total_le_of_passes hwrap (hv ▸ hpass)
      rw [← h.totalCalls_eq] at hle
      rw [List.countP_cons_of_pos hpass]
      omega
    · rw [List.countP_cons_of_neg hpass]
      exact h.bounded.passes_le
  · refine List.Pairwise.cons ?_ h.bounded.breaks_forever
    intro earlier hmem hbreaks _
    have hlt := h.broken earlier hmem hbreaks
    apply hspec.breaks_iff.mpr
    rw [nextU32_of_lt hwrap, h.config_eq]
    omega
  · intro call₀ hsame hpos
    have hbefore := h.bounded.passesAs_lt call₀
      (fun call' verdict' hmem => hsame call' verdict' (List.mem_cons_of_mem _ hmem)) hpos
    by_cases hpass : (Event.checked call verdict).PassesAs host (computeHash host call₀) = true
    · rw [List.countP_cons_of_pos hpass]
      obtain ⟨hv, hhash⟩ := Bool.and_eq_true_iff.mp hpass
      obtain ⟨-, -, hcount⟩ := hspec.of_passes hv
      have hle := h.passesAs_le (computeHash host call)
      rw [nextU32_of_lt (by omega), h.config_eq,
        hsame call verdict List.mem_cons_self (beq_iff_eq.mp hhash)] at hcount
      rw [← beq_iff_eq.mp hhash]
      have hmod := Nat.mod_le (config.blockThreshold * config.multiplier host call₀) (2 ^ 32)
      omega
    · rw [List.countP_cons_of_neg hpass]
      exact hbefore
  · intro later call₀ verdict₀ earlier outcome hevents hpos hreached
    cases later with
    | nil =>
      injection hevents with hhead htail
      injection hhead with hcall hverdict
      subst hcall hverdict htail
      by_contra hpass
      exact (hspec.of_passes (Bool.not_eq_false _ ▸ hpass)).1
        (h.blocked_of_records _ outcome hpos hreached)
    | cons e later =>
      injection hevents with _ htail
      exact h.bounded.repeated_stopped later call₀ verdict₀ earlier outcome htail hpos hreached
  · rw [hspec.blockedCalls_eq, List.countP_cons, ← h.bounded.blockedCalls_eq]
    have hle := countP_has_le (!·.Passes) run.events
    rw [← h.totalCalls_eq, ← h.bounded.blockedCalls_eq] at hle
    cases hpass : verdict.Passes with
    | true => simp [Event.Has, hpass]
    | false => simp [Event.Has, hpass, nextU32_of_lt (show run.guard.blockedCalls + 1 < _ by omega)]

theorem Inv.check : Inv host config (step host run (.check call)) := by
  have hbounded := h.bounded_check hwrap call
  have hspec := LoopGuard.check_spec host run.guard call
  unfold step at hbounded ⊢
  dsimp only at hbounded ⊢
  generalize (run.guard.check host call).1 = verdict at hspec hbounded ⊢
  generalize (run.guard.check host call).2 = guard' at hspec hbounded ⊢
  have htotal : guard'.totalCalls = run.guard.totalCalls + 1 := by
    rw [hspec.totalCalls_eq, nextU32_of_lt hwrap]
  have hcounts : ∀ hash, countOf run.guard.callCounts hash ≤ countOf guard'.callCounts hash ∧
      countOf guard'.callCounts hash ≤ guard'.totalCalls := by
    intro hash
    have hle := h.callCounts_le hash
    rcases hspec.callCounts_eq with hcalls | hcalls
    · rw [hcalls]
      omega
    · rw [hcalls]
      by_cases hhash : hash = computeHash host call
      · subst hhash
        rw [countOf_bump_self, nextU32_of_lt (by omega)]
        omega
      · rw [countOf_bump_ne _ hhash]
        omega
  refine ⟨hbounded, hspec.config_eq.trans h.config_eq, ?_, ?_, ?_, fun hash => (hcounts hash).2,
    ?_, ?_⟩
  · rw [List.countP_cons_of_pos rfl, htotal, h.totalCalls_eq]
  · intro e hmem hbreaks
    rcases List.mem_cons.mp hmem with rfl | hmem
    · have hlt := hspec.breaks_iff.mp hbreaks
      rwa [← hspec.totalCalls_eq, h.config_eq] at hlt
    · exact htotal ▸ (h.broken e hmem hbreaks).trans (Nat.lt_succ_self _)
  · intro hash
    have hle := h.passesAs_le hash
    by_cases hpass : (Event.checked call verdict).PassesAs host hash = true
    · rw [List.countP_cons_of_pos hpass]
      obtain ⟨hv, hhash⟩ := Bool.and_eq_true_iff.mp hpass
      obtain ⟨-, hcalls, -⟩ := hspec.of_passes hv
      have htotal := h.callCounts_le hash
      rw [hcalls, ← beq_iff_eq.mp hhash, countOf_bump_self, beq_iff_eq.mp hhash,
        nextU32_of_lt (by omega)]
      omega
    · rw [List.countP_cons_of_neg hpass]
      exact hle.trans (hcounts hash).1
  · intro hash outcome
    rw [List.countP_cons_of_neg Bool.false_ne_true, hspec.outcomeCounts_eq]
    exact h.records_le hash outcome
  · intro hash outcome
    rw [List.countP_cons_of_neg Bool.false_ne_true, hspec.blockedOutcomes_eq]
    exact h.blocked_of_records hash outcome

end Check

section Record

variable (h : Inv host config run)
include h

theorem Inv.bounded_recordOutcome (call : Call) (result : String) :
    Bounded host config (step host run (.recordOutcome call result)) := by
  have hspec := LoopGuard.recordOutcome_spec host run.guard call result
  constructor
  · exact h.bounded.passes_le
  · exact List.Pairwise.cons (fun _ _ _ hcheck => absurd hcheck Bool.false_ne_true)
      h.bounded.breaks_forever
  · intro call₀ hsame
    exact h.bounded.passesAs_lt call₀ fun call' verdict' hmem =>
      hsame call' verdict' (List.mem_cons_of_mem _ hmem)
  · intro later call₀ verdict₀ earlier outcome hevents
    cases later with
    | nil =>
      injection hevents with hhead _
      cases hhead
    | cons e later =>
      injection hevents with _ htail
      exact h.bounded.repeated_stopped later call₀ verdict₀ earlier outcome htail
  · exact hspec.blockedCalls_eq.trans h.bounded.blockedCalls_eq

theorem Inv.recordOutcome
    (hwrap : countOf run.guard.outcomeCounts (computeOutcomeHash host call result) + 1 < 2 ^ 32) :
    Inv host config (step host run (.recordOutcome call result)) := by
  have hbounded := h.bounded_recordOutcome call result
  have hspec := LoopGuard.recordOutcome_spec host run.guard call result
  unfold step at hbounded ⊢
  dsimp only at hbounded ⊢
  generalize (run.guard.recordOutcome host call result).2 = guard' at hspec hbounded ⊢
  have hrecords : ∀ hash outcome,
      (Event.recorded call result :: run.events).countP (Event.Records host hash outcome) ≤
        countOf guard'.outcomeCounts outcome := by
    intro hash outcome
    have hle := h.records_le hash outcome
    rw [hspec.outcomeCounts_eq]
    by_cases houtcome : outcome = computeOutcomeHash host call result
    · subst houtcome
      rw [countOf_bump_self, nextU32_of_lt hwrap, List.countP_cons]
      split <;> omega
    · rw [countOf_bump_ne _ houtcome, List.countP_cons_of_neg]
      · exact hle
      · intro hrecord
        exact houtcome (beq_iff_eq.mp (Bool.and_eq_true_iff.mp hrecord).2).symm
  refine ⟨hbounded, hspec.config_eq.trans h.config_eq, ?_, ?_, ?_, ?_, hrecords, ?_⟩
  · rw [hspec.totalCalls_eq, h.totalCalls_eq]
    rfl
  · intro e hmem hbreaks
    rw [hspec.totalCalls_eq]
    rcases List.mem_cons.mp hmem with rfl | hmem
    · cases hbreaks
    · exact h.broken e hmem hbreaks
  · intro hash
    rw [hspec.callCounts_eq]
    exact h.passesAs_le hash
  · intro hash
    rw [hspec.callCounts_eq, hspec.totalCalls_eq]
    exact h.callCounts_le hash
  · intro hash outcome hpos hreached
    rw [hspec.blockedOutcomes_eq, h.config_eq]
    by_cases hrecord : (Event.recorded call result).Records host hash outcome = true
    · -- the record that reaches the threshold blocks the call
      obtain ⟨hhash, houtcome⟩ := Bool.and_eq_true_iff.mp hrecord
      have hle := hreached.trans (hrecords hash outcome)
      rw [hspec.outcomeCounts_eq, ← beq_iff_eq.mp houtcome, countOf_bump_self] at hle
      rw [if_pos hle, ← beq_iff_eq.mp hhash]
      exact Finset.mem_insert_self ..
    · rw [List.countP_cons_of_neg hrecord] at hpos hreached
      have hblocked := h.blocked_of_records hash outcome hpos hreached
      split
      · exact Finset.mem_insert_of_mem hblocked
      · exact hblocked

end Record

/-- **A run in which no counter wraps is bounded.** -/
theorem bounded_of_noWrap (host : Host) (config : LoopGuardConfig) (acts : List Act)
    (h : Runs.Along (step host) (NoWrap host) (start config) acts) :
    Bounded host config (Runs.after (step host) (start config) acts) := by
  refine (Runs.invariant (I := Inv host config) ?_ (inv_start host config) h).bounded
  rintro run (call | ⟨call, result⟩) hinv hwrap
  · exact hinv.check hwrap
  · exact hinv.recordOutcome hwrap

/-- A host that hashes nothing. -/
def plainHost : Host := ⟨fun _ => [], fun _ => "", id⟩

/-- A call of a file tool. -/
def readCall : Call := ⟨"read_file", .null⟩

/-- A call, its result, and the call again. -/
theorem bounded_of_noWrap_read : Bounded plainHost .default (Runs.after (step plainHost)
    (start .default) [.check readCall, .recordOutcome readCall "", .check readCall]) :=
  bounded_of_noWrap plainHost .default _ (by decide)

/-! ## Counters that wrap -/

theorem totalCalls_after_checks (host : Host) (call : Call) (n : ℕ) (run : Run) :
    (Runs.after (step host) run (List.replicate n (.check call))).guard.totalCalls % 2 ^ 32 =
      (run.guard.totalCalls + n) % 2 ^ 32 := by
  induction n generalizing run with
  | zero => rfl
  | succ n ih =>
    rw [List.replicate_succ, Runs.after_cons, ih]
    have htotal : (step host run (.check call)).guard.totalCalls = nextU32 run.guard.totalCalls :=
      (LoopGuard.check_spec host run.guard call).totalCalls_eq
    rw [htotal]
    unfold nextU32
    omega

theorem events_suffix_after (host : Host) (run : Run) (acts : List Act) :
    run.events <:+ (Runs.after (step host) run acts).events := by
  induction acts generalizing run with
  | nil => exact List.suffix_rfl
  | cons act acts ih =>
    refine List.IsSuffix.trans ?_ (ih (step host run act))
    cases act with
    | check call => exact List.suffix_cons ..
    | recordOutcome call result => exact List.suffix_cons ..

/-- A guard that lets nothing pass. -/
def closed : LoopGuardConfig := { LoopGuardConfig.default with globalCircuitBreaker := 0 }

theorem not_bounded_of_wrap {n : ℕ} (hn : (n + 2) % 2 ^ 32 = 0) :
    ¬ Bounded plainHost closed (Runs.after (step plainHost) (start closed)
      (.check readCall :: (List.replicate n (.check readCall) ++ [.check readCall]))) := by
  intro hbounded
  rw [Runs.after_cons, Runs.after_append, Runs.after_cons, Runs.after_nil] at hbounded
  have htotal := totalCalls_after_checks plainHost readCall n
    (step plainHost (start closed) (.check readCall))
  have hsuffix := events_suffix_after plainHost (step plainHost (start closed) (.check readCall))
    (List.replicate n (.check readCall))
  revert hbounded htotal hsuffix
  generalize Runs.after (step plainHost) (step plainHost (start closed) (.check readCall))
    (List.replicate n (.check readCall)) = run
  intro hbounded htotal hsuffix
  -- the first check has broken the loop off
  have hfirst := LoopGuard.check_spec plainHost (.new closed) readCall
  have hlast := List.rel_of_pairwise_cons hbounded.breaks_forever
    (hsuffix.subset List.mem_cons_self) (hfirst.breaks_iff.mpr (by decide)) rfl
  have hover := (LoopGuard.check_spec plainHost run.guard readCall).breaks_iff.mp hlast
  have hone : (step plainHost (start closed) (.check readCall)).guard.totalCalls = nextU32 0 :=
    hfirst.totalCalls_eq
  rw [hone] at htotal
  have hzero : nextU32 run.guard.totalCalls = 0 := by
    unfold nextU32 at htotal ⊢
    omega
  rw [hzero] at hover
  exact Nat.not_lt_zero _ hover

/-- **The `2 ^ 32`-nd check** of a guard that lets nothing pass does not break the loop off. -/
theorem breaker_wraps : ¬∀ host config acts,
    Bounded host config (Runs.after (step host) (start config) acts) :=
  fun hall => @not_bounded_of_wrap (2 ^ 32 - 2) (by decide) (hall plainHost closed _)

end LibreFang.Guard
