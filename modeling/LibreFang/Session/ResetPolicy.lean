import LibreFang.Drivers.ResetValue
import LibreFang.Lib.Runs

/-!
# When a session is reset

A session that has been idle for too long is reset, or one that has not been used since the last
time the clock has shown a certain hour.

* `shouldReset`: the reason to reset a session; the outer `none` stands for a panic.
* **`shouldReset_exact_iff`**: when the two agree: the minutes must fit into a `u64` as seconds, and
  the local time must not lie before the hour on the first day of the epoch.
* **`separated_of_fits`**: between two daily resets the clock has shown the hour.
-/

namespace LibreFang.Session.Reset

open Drivers.RateLimit (SystemTime)

/-- `SessionResetMode`. -/
inductive SessionResetMode
  | off
  | idle
  | daily
  | both
  deriving DecidableEq

/-- `SessionResetReason`. -/
inductive SessionResetReason
  | idle
  | daily
  | suspended
  | manual
  deriving DecidableEq

/-- `SessionResetPolicy`. -/
structure SessionResetPolicy where
  mode : SessionResetMode
  idleMinutes : UInt64
  dailyAtHour : UInt8

/-- The mode includes the idle rule. -/
def SessionResetMode.Idles (mode : SessionResetMode) : Bool := mode = .idle || mode = .both

/-- The mode includes the daily rule. -/
def SessionResetMode.Recurs (mode : SessionResetMode) : Bool := mode = .daily || mode = .both

/-- What `chrono::Local` says: the offset of the local time, and the last second of which it has a
date. -/
structure LocalTime where
  utcOffset : ℤ
  lastSecs : ℤ
  offset_lt : -86400 < utcOffset ∧ utcOffset < 86400
  lastSecs_lt : lastSecs < 2 ^ 62

/-- `system_time_to_secs`. -/
def systemTimeToSecs (t : SystemTime) : ℤ :=
  if 0 ≤ t.1 then t.1 / 1000000000 else -(-t.1 / 1000000000)

variable (overflowChecks : Bool) (localTime : LocalTime) (policy : SessionResetPolicy)
  (lastActive now : SystemTime)

/-- `local_utc_offset_secs`: `Local::now` panics when it has no date. -/
def localUtcOffsetSecs : Option ℤ :=
  if localTime.lastSecs < systemTimeToSecs now then none else some localTime.utcOffset

/-- `crossed_daily_boundary`, with an offset. -/
def crossedWith (utcOffsetSecs : ℤ) : Bool :=
  let nowLocal := systemTimeToSecs now + utcOffsetSecs
  let lastLocal := systemTimeToSecs lastActive + utcOffsetSecs
  let targetSecsIntoDay : ℤ := policy.dailyAtHour.toNat * 3600
  let nowDayStart := nowLocal.tdiv 86400 * 86400
  let resetToday := nowDayStart + targetSecsIntoDay
  let lastBoundary :=
    if nowDayStart + targetSecsIntoDay ≤ nowLocal then resetToday else resetToday - 86400
  lastLocal < lastBoundary

/-- `crossed_daily_boundary`. -/
def crossedDailyBoundary : Option Bool :=
  (localUtcOffsetSecs localTime now).map (crossedWith policy lastActive now)

/-- `idle_minutes * 60`, in a `u64`. -/
def idleSecs : Option ℕ :=
  if policy.idleMinutes.toNat * 60 < 2 ^ 64 then some (policy.idleMinutes.toNat * 60)
  else if overflowChecks then none
  else some (policy.idleMinutes.toNat * 60 % 2 ^ 64)

/-- The idle rule applies. -/
def idleApplies : Option Bool :=
  if policy.mode.Idles then
    (idleSecs overflowChecks policy).map fun (secs : ℕ) =>
      lastActive.1 ≤ now.1 ∧ (secs : ℤ) * 1000000000 ≤ now.1 - lastActive.1
  else some false

/-- The daily rule applies. -/
def dailyApplies : Option Bool :=
  if policy.mode.Recurs ∧ policy.dailyAtHour ≤ 23 then
    crossedDailyBoundary localTime policy lastActive now
  else some false

/-- `should_reset`. -/
def shouldReset (suspended : Bool) : Option (Option SessionResetReason) :=
  if suspended then some (some .suspended)
  else if policy.mode = .off then some none
  else
    match idleApplies overflowChecks policy lastActive now with
    | none => none
    | some true => some (some .idle)
    | some false =>
      match dailyApplies localTime policy lastActive now with
      | none => none
      | some true => some (some .daily)
      | some false => some none

/-! ## What the rules say -/

/-- The session has been idle for the minutes of the policy. -/
def IdleDue : Prop :=
  policy.mode.Idles = true ∧
    (policy.idleMinutes.toNat : ℤ) * 60 * 1000000000 ≤ now.1 - lastActive.1

/-- The instant is the hour of the policy, in local time. -/
def Boundary (t : ℤ) : Prop :=
  ∃ day : ℤ, t =
    (day * 86400 + policy.dailyAtHour.toNat * 3600 - localTime.utcOffset) * 1000000000

/-- The clock has shown the hour of the policy since the session was active. -/
def DailyDue : Prop :=
  policy.mode.Recurs = true ∧ policy.dailyAtHour ≤ 23 ∧
    ∃ t, Boundary localTime policy t ∧ lastActive.1 < t ∧ t ≤ now.1

/-- The reason is the one that the rules give. -/
structure Exact : Prop where
  idle_iff : shouldReset overflowChecks localTime policy lastActive now false =
    some (some .idle) ↔ IdleDue policy lastActive now
  daily_iff : shouldReset overflowChecks localTime policy lastActive now false =
    some (some .daily) ↔ ¬IdleDue policy lastActive now ∧ DailyDue localTime policy lastActive now
  none_iff : shouldReset overflowChecks localTime policy lastActive now false = some none ↔
    ¬IdleDue policy lastActive now ∧ ¬DailyDue localTime policy lastActive now

/-- The minutes are a `u64` of seconds; or they wrap to more than the time that has passed. -/
def IdleFits : Prop :=
  policy.mode.Idles = true → policy.idleMinutes.toNat * 60 < 2 ^ 64 ∨
    overflowChecks = false ∧
      now.1 - lastActive.1 < (policy.idleMinutes.toNat * 60 % 2 ^ 64 : ℕ) * 1000000000

/-- There is a date, and the local time is not before the hour on the day before the epoch. -/
def DailyFits : Prop :=
  policy.mode.Recurs = true → policy.dailyAtHour ≤ 23 →
    systemTimeToSecs now ≤ localTime.lastSecs ∧
      (policy.dailyAtHour.toNat : ℤ) * 3600 - 86400 ≤ systemTimeToSecs now + localTime.utcOffset

/-- The numbers fit. -/
def Fits : Prop :=
  IdleFits overflowChecks policy lastActive now ∧
    (¬IdleDue policy lastActive now → DailyFits localTime policy now)

/-! ## The idle rule -/

section Rules

variable {overflowChecks localTime policy lastActive now}

theorem not_idleDue_of_le (hlast : 0 ≤ lastActive.1)
    (hle : 2 ^ 64 ≤ policy.idleMinutes.toNat * 60) : ¬IdleDue policy lastActive now := by
  rintro ⟨-, hdue⟩
  have hnow := now.2.2
  omega

theorem idleApplies_of_fits (hlast : 0 ≤ lastActive.1) (hle : lastActive.1 ≤ now.1)
    (hfits : IdleFits overflowChecks policy lastActive now) :
    idleApplies overflowChecks policy lastActive now = some true ∧ IdleDue policy lastActive now ∨
      idleApplies overflowChecks policy lastActive now = some false ∧
        ¬IdleDue policy lastActive now := by
  unfold idleApplies
  by_cases hidles : policy.mode.Idles = true
  · rw [if_pos hidles]
    unfold idleSecs
    by_cases hlt : policy.idleMinutes.toNat * 60 < 2 ^ 64
    · rw [if_pos hlt, Option.map_some]
      by_cases hdue : (policy.idleMinutes.toNat : ℤ) * 60 * 1000000000 ≤ now.1 - lastActive.1
      · exact .inl ⟨congrArg some (decide_eq_true ⟨hle, by push_cast; exact hdue⟩), hidles, hdue⟩
      · refine .inr ⟨congrArg some (decide_eq_false ?_), fun h => hdue h.2⟩
        rintro ⟨-, h⟩
        push_cast at h
        exact hdue h
    · obtain ⟨hchecks, hwrapped⟩ := (hfits hidles).resolve_left hlt
      rw [if_neg hlt, hchecks, if_neg Bool.false_ne_true, Option.map_some]
      refine .inr ⟨congrArg some (decide_eq_false ?_), not_idleDue_of_le hlast (not_lt.mp hlt)⟩
      rintro ⟨-, h⟩
      omega
  · rw [if_neg hidles]
    exact .inr ⟨rfl, fun h => hidles h.1⟩

theorem idleApplies_of_not_fits (hlast : 0 ≤ lastActive.1) (hle : lastActive.1 ≤ now.1)
    (hfits : ¬IdleFits overflowChecks policy lastActive now) :
    idleApplies overflowChecks policy lastActive now ≠ some false ∧
      ¬IdleDue policy lastActive now := by
  unfold IdleFits at hfits
  push Not at hfits
  obtain ⟨hidles, hbig, hwrapped⟩ := hfits
  refine ⟨?_, not_idleDue_of_le hlast hbig⟩
  unfold idleApplies idleSecs
  rw [if_pos hidles, if_neg (not_lt.mpr hbig)]
  cases overflowChecks with
  | true => exact fun h => (Option.some_ne_none _ h.symm).elim
  | false =>
    rw [if_neg Bool.false_ne_true, Option.map_some, decide_eq_true ⟨hle, hwrapped rfl⟩]
    exact fun h => Bool.false_ne_true (Option.some.inj h).symm

/-! ## The daily rule -/

theorem systemTimeToSecs_of_nonneg (h : 0 ≤ now.1) : systemTimeToSecs now = now.1 / 1000000000 :=
  if_pos h

theorem exists_boundary_iff (hlast : 0 ≤ lastActive.1) (hle : lastActive.1 ≤ now.1) :
    (∃ t, Boundary localTime policy t ∧ lastActive.1 < t ∧ t ≤ now.1) ↔
      ∃ day : ℤ,
        systemTimeToSecs lastActive + localTime.utcOffset <
            day * 86400 + policy.dailyAtHour.toNat * 3600 ∧
          day * 86400 + policy.dailyAtHour.toNat * 3600 ≤
            systemTimeToSecs now + localTime.utcOffset := by
  rw [systemTimeToSecs_of_nonneg hlast, systemTimeToSecs_of_nonneg (hlast.trans hle)]
  constructor
  · rintro ⟨t, ⟨day, rfl⟩, hafter, hbefore⟩
    exact ⟨day, by omega, by omega⟩
  · rintro ⟨day, hafter, hbefore⟩
    exact ⟨_, ⟨day, rfl⟩, by omega, by omega⟩

theorem hour_bounds (h : policy.dailyAtHour ≤ 23) :
    (0 : ℤ) ≤ policy.dailyAtHour.toNat ∧ (policy.dailyAtHour.toNat : ℤ) ≤ 23 := by
  have hle := UInt8.le_iff_toNat_le.mp h
  have htop : (23 : UInt8).toNat = 23 := rfl
  omega

theorem secs_bounds (hlast : 0 ≤ lastActive.1) (hle : lastActive.1 ≤ now.1) :
    0 ≤ systemTimeToSecs lastActive ∧ systemTimeToSecs lastActive ≤ systemTimeToSecs now := by
  rw [systemTimeToSecs_of_nonneg hlast, systemTimeToSecs_of_nonneg (hlast.trans hle)]
  omega

theorem crossedWith_iff (hlast : 0 ≤ lastActive.1) (hle : lastActive.1 ≤ now.1)
    (hhour : policy.dailyAtHour ≤ 23)
    (hstart : (policy.dailyAtHour.toNat : ℤ) * 3600 - 86400 ≤
      systemTimeToSecs now + localTime.utcOffset) :
    crossedWith policy lastActive now localTime.utcOffset = true ↔
      ∃ t, Boundary localTime policy t ∧ lastActive.1 < t ∧ t ≤ now.1 := by
  have hhour := hour_bounds hhour
  have hoffset := localTime.offset_lt
  have hsecs := secs_bounds hlast hle
  rw [exists_boundary_iff hlast hle]
  unfold crossedWith
  dsimp only
  rw [decide_eq_true_iff]
  revert hstart hsecs
  generalize systemTimeToSecs now = nowSecs
  generalize systemTimeToSecs lastActive = lastSecs
  generalize (policy.dailyAtHour.toNat : ℤ) = hour at *
  generalize localTime.utcOffset = offset at *
  intro hstart hsecs
  by_cases hneg : nowSecs + offset < 0
  · -- the first local day begins before the epoch
    have hzero : (nowSecs + offset).tdiv 86400 = 0 := by
      rw [show nowSecs + offset = -(-(nowSecs + offset)) by omega, Int.neg_tdiv,
        Int.tdiv_eq_ediv_of_nonneg (by omega)]
      omega
    rw [hzero, if_neg (by omega)]
    constructor
    · exact fun hcrossed => ⟨-1, by omega, by omega⟩
    · rintro ⟨day, hafter, hbefore⟩
      omega
  · rw [Int.tdiv_eq_ediv_of_nonneg (not_lt.mp hneg)]
    constructor
    · intro hcrossed
      split at hcrossed
      · exact ⟨_, hcrossed, by omega⟩
      · exact ⟨(nowSecs + offset) / 86400 - 1, by omega, by omega⟩
    · rintro ⟨day, hafter, hbefore⟩
      split <;> omega

theorem crossedWith_of_lt (hlast : 0 ≤ lastActive.1) (hle : lastActive.1 ≤ now.1)
    (hhour : policy.dailyAtHour ≤ 23)
    (hstart : systemTimeToSecs now + localTime.utcOffset <
      (policy.dailyAtHour.toNat : ℤ) * 3600 - 86400) :
    crossedWith policy lastActive now localTime.utcOffset = true ∧
      ¬∃ t, Boundary localTime policy t ∧ lastActive.1 < t ∧ t ≤ now.1 := by
  have hhour := hour_bounds hhour
  have hoffset := localTime.offset_lt
  have hsecs := secs_bounds hlast hle
  rw [exists_boundary_iff hlast hle]
  constructor
  · unfold crossedWith
    dsimp only
    rw [decide_eq_true_iff]
    have hzero : (systemTimeToSecs now + localTime.utcOffset).tdiv 86400 = 0 := by
      rw [show systemTimeToSecs now + localTime.utcOffset =
          -(-(systemTimeToSecs now + localTime.utcOffset)) by omega, Int.neg_tdiv,
        Int.tdiv_eq_ediv_of_nonneg (by omega)]
      omega
    rw [hzero, if_neg (by omega)]
    omega
  · rintro ⟨day, hafter, hbefore⟩
    omega

theorem dailyApplies_of_fits (hlast : 0 ≤ lastActive.1) (hle : lastActive.1 ≤ now.1)
    (hfits : DailyFits localTime policy now) :
    dailyApplies localTime policy lastActive now = some true ∧
        DailyDue localTime policy lastActive now ∨
      dailyApplies localTime policy lastActive now = some false ∧
        ¬DailyDue localTime policy lastActive now := by
  unfold dailyApplies
  by_cases hrule : policy.mode.Recurs = true ∧ policy.dailyAtHour ≤ 23
  · obtain ⟨hdate, hstart⟩ := hfits hrule.1 hrule.2
    have hiff := crossedWith_iff hlast hle hrule.2 hstart
    rw [if_pos hrule]
    unfold crossedDailyBoundary localUtcOffsetSecs
    rw [if_neg (not_lt.mpr hdate), Option.map_some]
    cases hcrossed : crossedWith policy lastActive now localTime.utcOffset with
    | true => exact .inl ⟨rfl, hrule.1, hrule.2, hiff.mp hcrossed⟩
    | false =>
      refine .inr ⟨rfl, fun hdue => ?_⟩
      rw [hiff.mpr hdue.2.2] at hcrossed
      exact Bool.false_ne_true hcrossed.symm
  · rw [if_neg hrule]
    exact .inr ⟨rfl, fun hdue => hrule ⟨hdue.1, hdue.2.1⟩⟩

theorem dailyApplies_of_not_fits (hlast : 0 ≤ lastActive.1) (hle : lastActive.1 ≤ now.1)
    (hfits : ¬DailyFits localTime policy now) :
    dailyApplies localTime policy lastActive now = none ∨
      dailyApplies localTime policy lastActive now = some true ∧
        ¬DailyDue localTime policy lastActive now := by
  unfold DailyFits at hfits
  push Not at hfits
  obtain ⟨hrecurs, hhour, hbad⟩ := hfits
  unfold dailyApplies crossedDailyBoundary localUtcOffsetSecs
  rw [if_pos ⟨hrecurs, hhour⟩]
  by_cases hdate : localTime.lastSecs < systemTimeToSecs now
  · rw [if_pos hdate]
    exact .inl rfl
  · obtain ⟨hcrossed, hnone⟩ := crossedWith_of_lt hlast hle hhour (hbad (not_lt.mp hdate))
    rw [if_neg hdate, Option.map_some, hcrossed]
    exact .inr ⟨rfl, fun hdue => hnone hdue.2.2⟩

/-! ## The reason -/

theorem shouldReset_false :
    shouldReset overflowChecks localTime policy lastActive now false =
      match idleApplies overflowChecks policy lastActive now with
      | none => none
      | some true => some (some .idle)
      | some false =>
        match dailyApplies localTime policy lastActive now with
        | none => none
        | some true => some (some .daily)
        | some false => some none := by
  unfold shouldReset
  rw [if_neg Bool.false_ne_true]
  by_cases hoff : policy.mode = .off
  · rw [if_pos hoff]
    unfold idleApplies dailyApplies SessionResetMode.Idles SessionResetMode.Recurs
    rw [hoff]
    rfl
  · rw [if_neg hoff]

theorem exact_of_fits (hlast : 0 ≤ lastActive.1) (hle : lastActive.1 ≤ now.1)
    (hfits : Fits overflowChecks localTime policy lastActive now) :
    Exact overflowChecks localTime policy lastActive now := by
  have hreset := @shouldReset_false overflowChecks localTime policy lastActive now
  rcases idleApplies_of_fits hlast hle hfits.1 with ⟨hidle, hdue⟩ | ⟨hidle, hnot⟩
  · rw [hidle] at hreset
    exact ⟨by rw [hreset]; simp [hdue], by rw [hreset]; simp [hdue], by rw [hreset]; simp [hdue]⟩
  · rw [hidle] at hreset
    rcases dailyApplies_of_fits hlast hle (hfits.2 hnot) with ⟨hdaily, hdue⟩ | ⟨hdaily, hnone⟩
    · rw [hdaily] at hreset
      exact ⟨by rw [hreset]; simp [hnot], by rw [hreset]; simp [hnot, hdue],
        by rw [hreset]; simp [hdue]⟩
    · rw [hdaily] at hreset
      exact ⟨by rw [hreset]; simp [hnot], by rw [hreset]; simp [hnone],
        by rw [hreset]; simp [hnot, hnone]⟩

theorem Exact.isSome (h : Exact overflowChecks localTime policy lastActive now) :
    shouldReset overflowChecks localTime policy lastActive now false ≠ none := by
  intro hpanic
  have hidle := h.idle_iff
  have hdaily := h.daily_iff
  have hnone := h.none_iff
  rw [hpanic] at hidle hdaily hnone
  by_cases hdue : IdleDue policy lastActive now
  · exact Option.some_ne_none _ (hidle.mpr hdue).symm
  · by_cases hday : DailyDue localTime policy lastActive now
    · exact Option.some_ne_none _ (hdaily.mpr ⟨hdue, hday⟩).symm
    · exact Option.some_ne_none _ (hnone.mpr ⟨hdue, hday⟩).symm

theorem fits_of_exact (hlast : 0 ≤ lastActive.1) (hle : lastActive.1 ≤ now.1)
    (h : Exact overflowChecks localTime policy lastActive now) :
    Fits overflowChecks localTime policy lastActive now := by
  have hsome := h.isSome
  have hidle := h.idle_iff
  have hdaily := h.daily_iff
  rw [shouldReset_false] at hsome hidle hdaily
  by_cases hfits : IdleFits overflowChecks policy lastActive now
  · refine ⟨hfits, fun hnot => ?_⟩
    have happlies := ((idleApplies_of_fits hlast hle hfits).resolve_left (fun hdue => hnot hdue.2)).1
    rw [happlies] at hsome hdaily
    by_contra hdays
    rcases dailyApplies_of_not_fits hlast hle hdays with hnone | ⟨hcrossed, hnever⟩
    · rw [hnone] at hsome
      exact hsome rfl
    · rw [hcrossed] at hdaily
      exact hnever (hdaily.mp rfl).2
  · exfalso
    obtain ⟨hwrong, hnot⟩ := idleApplies_of_not_fits hlast hle hfits
    cases happlies : idleApplies overflowChecks policy lastActive now with
    | none =>
      rw [happlies] at hsome
      exact hsome rfl
    | some applies =>
      cases applies with
      | true =>
        rw [happlies] at hidle
        exact hnot (hidle.mp rfl)
      | false => exact hwrong happlies

/-- **When the reason is the one that the rules give.** -/
theorem shouldReset_exact_iff (hlast : 0 ≤ lastActive.1) (hle : lastActive.1 ≤ now.1) :
    Exact overflowChecks localTime policy lastActive now ↔
      Fits overflowChecks localTime policy lastActive now :=
  ⟨fits_of_exact hlast hle, exact_of_fits hlast hle⟩

end Rules

/-! ## One session for a long time -/

/-- The session is looked at, or it is used. -/
inductive Act
  | check (now : SystemTime)
  | touch (now : SystemTime)

/-- When a session was last active, and when it has been reset by the daily rule, the last time
first. -/
structure Run where
  lastActive : SystemTime
  dailyResets : List SystemTime

/-- A session that is reset is active then. -/
def step (run : Run) : Act → Run
  | .check now =>
    match shouldReset overflowChecks localTime policy run.lastActive now false with
    | some (some .daily) => ⟨now, now :: run.dailyResets⟩
    | some (some _) => { run with lastActive := now }
    | some none | none => run
  | .touch now => { run with lastActive := now }

/-- The clock does not run back, and the numbers fit. -/
def StepFits (run : Run) : Act → Prop
  | .check now => run.lastActive.1 ≤ now.1 ∧
    Fits overflowChecks localTime policy run.lastActive now
  | .touch now => run.lastActive.1 ≤ now.1

/-- Between any two daily resets the clock has shown the hour. -/
def Separated (run : Run) : Prop :=
  run.dailyResets.Pairwise fun later earlier =>
    ∃ t, Boundary localTime policy t ∧ earlier.1 < t ∧ t ≤ later.1

variable {overflowChecks localTime policy}

theorem separated_step {run : Run} {act : Act} (hlast : 0 ≤ run.lastActive.1)
    (hbefore : ∀ t ∈ run.dailyResets, t.1 ≤ run.lastActive.1)
    (h : Separated localTime policy run) (hfits : StepFits overflowChecks localTime policy run act) :
    0 ≤ (step overflowChecks localTime policy run act).lastActive.1 ∧
      (∀ t ∈ (step overflowChecks localTime policy run act).dailyResets,
        t.1 ≤ (step overflowChecks localTime policy run act).lastActive.1) ∧
      Separated localTime policy (step overflowChecks localTime policy run act) := by
  cases act with
  | touch now => exact ⟨hlast.trans hfits, fun t ht => (hbefore t ht).trans hfits, h⟩
  | check now =>
    obtain ⟨hle, hfits⟩ := hfits
    have hexact := exact_of_fits hlast hle hfits
    have hlater : ∀ t ∈ run.dailyResets, t.1 ≤ now.1 := fun t ht => (hbefore t ht).trans hle
    unfold step
    dsimp only
    split
    · -- the hour lies after the last activity, and so after every earlier reset
      next hdaily =>
      obtain ⟨-, -, -, t, ht, hafter, hnow⟩ := hexact.daily_iff.mp hdaily
      refine ⟨hlast.trans hle, ?_, List.Pairwise.cons (fun u hu => ?_) h⟩
      · rintro u (_ | ⟨_, hu⟩)
        · exact le_rfl
        · exact hlater u hu
      · exact ⟨t, ht, (hbefore u hu).trans_lt hafter, hnow⟩
    · exact ⟨hlast.trans hle, hlater, h⟩
    · exact ⟨hlast, hbefore, h⟩
    · exact ⟨hlast, hbefore, h⟩

/-- **A daily reset happens at most once** from one time the clock shows the hour to the next. -/
theorem separated_of_fits {begin : SystemTime} (hbegin : 0 ≤ begin.1) {acts : List Act}
    (hfits : Runs.Along (step overflowChecks localTime policy)
      (StepFits overflowChecks localTime policy) ⟨begin, []⟩ acts) :
    Separated localTime policy
      (Runs.after (step overflowChecks localTime policy) ⟨begin, []⟩ acts) := by
  have hstart : Separated localTime policy ⟨begin, []⟩ := List.Pairwise.nil
  refine (Runs.invariant (I := fun (run : Run) => 0 ≤ run.lastActive.1 ∧
    (∀ t ∈ run.dailyResets, t.1 ≤ run.lastActive.1) ∧ Separated localTime policy run) ?_
    ⟨hbegin, fun _ h => (List.not_mem_nil h).elim, hstart⟩ hfits).2.2
  exact fun run act hinv hstep => separated_step hinv.1 hinv.2.1 hinv.2.2 hstep

variable (overflowChecks localTime policy) in
/-- **When sessions are reset exactly**: the reason is the one of the rules if and only if the
numbers fit, and as long as they fit the daily rule applies at most once between two hours. -/
theorem resets_exactly :
    (∀ lastActive now : SystemTime, 0 ≤ lastActive.1 → lastActive.1 ≤ now.1 →
      (Exact overflowChecks localTime policy lastActive now ↔
        Fits overflowChecks localTime policy lastActive now)) ∧
    ∀ (begin : SystemTime) (acts : List Act), 0 ≤ begin.1 →
      Runs.Along (step overflowChecks localTime policy) (StepFits overflowChecks localTime policy)
        ⟨begin, []⟩ acts →
      Separated localTime policy
        (Runs.after (step overflowChecks localTime policy) ⟨begin, []⟩ acts) :=
  ⟨fun _ _ hlast hle => shouldReset_exact_iff hlast hle,
    fun _ _ hbegin hfits => separated_of_fits hbegin hfits⟩

/-- UTC. -/
def utc : LocalTime := ⟨0, 10 ^ 12, by decide, by decide⟩

/-- Sessions are reset at four in the morning. -/
def morningPolicy : SessionResetPolicy := ⟨.daily, 60, 4⟩

/-- A second after the epoch. -/
def second (n : Fin 1000000) : SystemTime := ⟨n * 1000000000, by have := n.isLt; omega⟩

theorem resets_exactly_morning :
    Exact false utc morningPolicy (second 0) (second 90000) ∧
      Separated utc morningPolicy (Runs.after (step false utc morningPolicy) ⟨second 0, []⟩
        [.check (second 90000), .check (second 190000)]) := by
  obtain ⟨hexact, hseparated⟩ := resets_exactly false utc morningPolicy
  exact ⟨(hexact _ _ (by decide) (by decide)).mpr ⟨nofun, fun _ _ _ => by decide⟩,
    hseparated _ _ (by decide) ⟨⟨by decide, nofun, fun _ _ _ => by decide⟩,
      ⟨by decide, nofun, fun _ _ _ => by decide⟩, trivial⟩⟩
/-- Minutes whose seconds wrap to 44 in a `u64`. -/
def wrappingPolicy : SessionResetPolicy := ⟨.idle, 307445734561825861, 4⟩

/-- A session that may be idle for more years than there have been is reset after a minute. -/
theorem wrapping_minutes_reset :
    ¬∀ overflowChecks localTime policy, ∀ lastActive now : SystemTime, 0 ≤ lastActive.1 →
      lastActive.1 ≤ now.1 → Exact overflowChecks localTime policy lastActive now := by
  intro hall
  have hexact := hall false ⟨0, 0, by decide, by decide⟩ wrappingPolicy ⟨0, by decide⟩
    ⟨60000000000, by decide⟩ (by decide) (by decide)
  have hdue := hexact.idle_iff.mp (by decide)
  exact absurd hdue.2 (by decide)

end LibreFang.Session.Reset
