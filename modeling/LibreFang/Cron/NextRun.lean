import Mathlib.Order.Bounds.Basic
import LibreFang.Cron.Scheduler

/-!
# The next fire of a cron schedule

The expression is asked for its times from a second after the given one, so that a job that has
just fired is not found again.

* `Enumerates`: what the iterator of the expression yields, whether or not it starts with its
  argument.
* `NextFire`: the result is the least matching time that is later than the given one.
* **`nextFire_iff`**: it is, unless the whole second that follows matches and is passed over.
-/

namespace LibreFang.Cron

/-! ## The times of an expression -/

/-- A time that an iterator from a base may yield, by whether it starts with the base. -/
def From (inclusive : Bool) (base t : ℤ) : Prop := if inclusive then base ≤ t else base < t

/-- The iterator yields the times of the expression, which are whole seconds, in their order. -/
structure Enumerates (next : Time → Option Time) (times : Set Time) (inclusive : Bool) : Prop where
  whole : ∀ t ∈ times, second ∣ t
  least : ∀ base t, next base = some t → IsLeast {t | t ∈ times ∧ From inclusive base t} t
  exhausted : ∀ base, next base = none → ∀ t ∈ times, ¬ From inclusive base t

/-- The whole second that follows. -/
def nextSecond (after : Time) : Time := (after / second + 1) * second

variable (host : Host) (times : Set Time) (expr : String) (tz : Option String)

/-- The result is the least time of the expression that is later than the given one. -/
def NextFire (after : Time) : Prop :=
  ∃ t, computeNextRunAfter host (.cron expr tz) after = some t ∧
    IsLeast {t | t ∈ times ∧ after < t} t

/-! ## A second later -/

section Gap

variable {times} {next : Time → Option Time} {inclusive : Bool} {base after t : Time}

theorem From.mono {t' : Time} (h : From inclusive base t) (hle : t ≤ t') :
    From inclusive base t' := by
  unfold From at h ⊢
  cases inclusive with
  | false => exact Int.lt_of_lt_of_le h hle
  | true => exact Int.le_trans h hle

theorem From.later (h : From inclusive (after + second) t) : after < t := by
  have hsecond : after < after + second := Int.lt_add_of_pos_right after (by decide)
  unfold From at h
  cases inclusive with
  | false => exact Int.lt_trans hsecond h
  | true => exact Int.lt_of_lt_of_le hsecond h

theorem lt_nextSecond (after : ℤ) : after < (after / 1000000000 + 1) * 1000000000 := by omega

theorem whole_exclusive_iff {a k : ℤ} (h : a < 1000000000 * k) :
    a + 1000000000 < 1000000000 * k ↔ 1000000000 * k ≠ (a / 1000000000 + 1) * 1000000000 := by
  omega

theorem whole_inclusive_iff {a k : ℤ} (h : a < 1000000000 * k) :
    a + 1000000000 ≤ 1000000000 * k ↔
      1000000000 * k ≠ (a / 1000000000 + 1) * 1000000000 ∨ 1000000000 ∣ a := by
  omega

theorem from_iff_of_whole (hwhole : second ∣ t) (hlater : after < t) :
    From inclusive (after + second) t ↔
      (t = nextSecond after → inclusive = true ∧ second ∣ after) := by
  obtain ⟨k, rfl⟩ := hwhole
  cases inclusive with
  | false =>
    refine (whole_exclusive_iff hlater).trans ⟨fun hne heq => absurd heq hne, ?_⟩
    intro h heq
    exact Bool.false_ne_true (h heq).1
  | true =>
    refine (whole_inclusive_iff hlater).trans ⟨?_, ?_⟩
    · rintro (hne | hdvd) heq
      · exact absurd heq hne
      · exact ⟨rfl, hdvd⟩
    · intro h
      exact or_iff_not_imp_left.mpr fun heq => (h (not_not.mp heq)).2

/-- **The least time from a second later** is the least later one exactly if every later one is
found. -/
theorem isLeast_iff_found (h : IsLeast {t | t ∈ times ∧ From inclusive (after + second) t} t) :
    IsLeast {t | t ∈ times ∧ after < t} t ↔
      ∀ t ∈ times, after < t → From inclusive (after + second) t := by
  obtain ⟨⟨hmem, hfrom⟩, hleast⟩ := h
  constructor
  · intro hnext t' hmem' hlater
    exact hfrom.mono (hnext.2 ⟨hmem', hlater⟩)
  · intro hfound
    exact ⟨⟨hmem, hfrom.later⟩, fun t' ht' => hleast ⟨ht'.1, hfound t' ht'.1 ht'.2⟩⟩

theorem Enumerates.found_iff (h : Enumerates next times inclusive) :
    (∀ t ∈ times, after < t → From inclusive (after + second) t) ↔
      (nextSecond after ∈ times → inclusive = true ∧ second ∣ after) := by
  constructor
  · intro hfound hmem
    have hlater : after < nextSecond after := lt_nextSecond after
    exact (from_iff_of_whole (h.whole _ hmem) hlater).mp (hfound _ hmem hlater) rfl
  · intro hspared t hmem hlater
    refine (from_iff_of_whole (h.whole t hmem) hlater).mpr fun heq => hspared ?_
    rwa [← heq]

end Gap

/-! ## The next fire -/

section NextFire

variable {host times expr tz} {inclusive : Bool} {after t : Time}

theorem computeNextRunAfter_cron {base : Time} (hparses : host.cronParses (sevenField expr) = true)
    (hbase : addSeconds after 1 = some base) : computeNextRunAfter host (.cron expr tz) after =
      match host.cronNext (sevenField expr) (effectiveTz host tz) base with
      | some next => some next
      | none => addSeconds after 3600 := by
  unfold computeNextRunAfter
  dsimp only
  rw [hbase]
  exact if_pos hparses

theorem base_eq {base : Time} (h : addSeconds after 1 = some base) : base = after + second := by
  rw [addSeconds_eq h, Int.one_mul]

theorem from_hour (h : addSeconds after 3600 = some t) : From inclusive (after + second) t := by
  have hlt : after + second < after + 3600 * second := Int.add_lt_add_left (by decide) after
  rw [addSeconds_eq h]
  unfold From
  cases inclusive with
  | false => exact hlt
  | true => exact Int.le_of_lt hlt

/-- **The next fire is not passed over** exactly if a second later is a time, the expression has a
later time, and the whole second that follows is none, or the iterator starts with it. -/
theorem nextFire_iff (hparses : host.cronParses (sevenField expr) = true)
    (htimes : Enumerates (host.cronNext (sevenField expr) (effectiveTz host tz)) times inclusive) :
    NextFire host times expr tz after ↔
      addSeconds after 1 ≠ none ∧ (∃ t ∈ times, after < t) ∧
        (nextSecond after ∈ times → inclusive = true ∧ second ∣ after) := by
  unfold NextFire
  cases hbase : addSeconds after 1 with
  | none =>
    refine iff_of_false ?_ fun h => h.1 rfl
    rintro ⟨t, ht, -⟩
    unfold computeNextRunAfter at ht
    dsimp only at ht
    rw [hbase] at ht
    cases ht
  | some base =>
    rw [computeNextRunAfter_cron hparses hbase, ← htimes.found_iff]
    obtain rfl := base_eq hbase
    cases hnext : host.cronNext (sevenField expr) (effectiveTz host tz) (after + second) with
    | some next =>
      have hleast := htimes.least _ _ hnext
      constructor
      · rintro ⟨t, heq, ht⟩
        obtain rfl := Option.some.inj heq
        exact ⟨Option.some_ne_none _, ⟨next, ht.1⟩, (isLeast_iff_found hleast).mp ht⟩
      · rintro ⟨-, -, hfound⟩
        exact ⟨next, rfl, (isLeast_iff_found hleast).mpr hfound⟩
    | none =>
      have hnone := htimes.exhausted _ hnext
      constructor
      · rintro ⟨t, ht, ⟨hmem, -⟩, -⟩
        exact absurd (from_hour ht) (hnone t hmem)
      · rintro ⟨-, ⟨t, hmem, hlater⟩, hfound⟩
        exact absurd (hfound t hmem hlater) (hnone t hmem)

end NextFire

/-! ## Every minute -/

/-- The whole minutes of the years that the package knows, from 1970 until the end of 2100. -/
def minutes : Set Time := {t : ℤ | 0 ≤ t ∧ t < 4133980800000000000 ∧ 60000000000 ∣ t}

/-- The first whole minute from a base, or later than it. -/
def minuteFrom (inclusive : Bool) (base : ℤ) : ℤ :=
  max 0 ((if inclusive then (base + 59999999999) / 60000000000 else base / 60000000000 + 1) *
    60000000000)

/-- The iterator over the minutes. -/
def minuteNext (inclusive : Bool) (base : Time) : Option Time :=
  if minuteFrom inclusive base < 4133980800000000000 then some (minuteFrom inclusive base)
  else none

/-- Surroundings that know the expression for every minute. -/
def minuteHost (inclusive : Bool) : Host :=
  { sampleHost with
    cronParses := fun _ => true
    cronNext := fun _ _ base => minuteNext inclusive base }

theorem from_iff_minuteFrom_le {inclusive : Bool} {base t : ℤ} (hpos : 0 ≤ t)
    (hdvd : 60000000000 ∣ t) : From inclusive base t ↔ minuteFrom inclusive base ≤ t := by
  obtain ⟨k, rfl⟩ := hdvd
  unfold From minuteFrom
  cases inclusive with
  | false =>
    rw [if_neg Bool.false_ne_true, if_neg Bool.false_ne_true]
    omega
  | true =>
    rw [if_pos rfl, if_pos rfl]
    omega

theorem minuteFrom_mem (inclusive : Bool) (base : ℤ) :
    0 ≤ minuteFrom inclusive base ∧ 60000000000 ∣ minuteFrom inclusive base := by
  unfold minuteFrom
  omega

theorem enumerates_minutes (inclusive : Bool) :
    Enumerates (minuteNext inclusive) minutes inclusive where
  whole t ht := by
    obtain ⟨-, -, k, rfl⟩ := ht
    exact ⟨60 * k, Int.mul_assoc 1000000000 60 k⟩
  least base t h := by
    unfold minuteNext at h
    split at h
    · next hend =>
      obtain rfl := Option.some.inj h
      obtain ⟨hpos, hdvd⟩ := minuteFrom_mem inclusive base
      exact ⟨⟨⟨hpos, hend, hdvd⟩, (from_iff_minuteFrom_le hpos hdvd).mpr (Int.le_refl _)⟩,
        fun t' ht' => (from_iff_minuteFrom_le ht'.1.1 ht'.1.2.2).mp ht'.2⟩
    · cases h
  exhausted base h := by
    unfold minuteNext at h
    split at h
    · cases h
    · next hend =>
      rintro t ⟨hpos, hlt, hdvd⟩ hfrom
      exact hend (Int.lt_of_le_of_lt ((from_iff_minuteFrom_le hpos hdvd).mp hfrom) hlt)

/-- Half a second after a minute has begun, the next one is found. -/
theorem nextFire_iff_everyMinute : NextFire (minuteHost false) minutes "* * * * *" none 500000000 ↔
    addSeconds 500000000 1 ≠ none ∧ (∃ t ∈ minutes, 500000000 < t) ∧
      (nextSecond 500000000 ∈ minutes → false = true ∧ second ∣ 500000000) :=
  nextFire_iff rfl (enumerates_minutes false)

/-- Half a second before the first minute is over, the next one is passed over, whether or not the
iterator starts with its argument. -/
theorem everyMinute_passed_over :
    (Enumerates (minuteNext true) minutes true ∧
      ¬ NextFire (minuteHost true) minutes "* * * * *" none 59500000000) ∧
    Enumerates (minuteNext false) minutes false ∧
      ¬ NextFire (minuteHost false) minutes "* * * * *" none 59500000000 := by
  have hpassed (inclusive : Bool)
      (hnext : minuteNext inclusive 60500000000 = some 120000000000) :
      ¬ NextFire (minuteHost inclusive) minutes "* * * * *" none 59500000000 := by
    rintro ⟨t, ht, -, hleast⟩
    rw [computeNextRunAfter_cron rfl (show addSeconds 59500000000 1 = some 60500000000 by decide),
      show (minuteHost inclusive).cronNext _ _ 60500000000 = _ from hnext] at ht
    have hle : t ≤ 60000000000 := hleast ⟨⟨by decide, by decide, by decide⟩, by decide⟩
    obtain rfl := Option.some.inj ht
    revert hle
    decide
  exact ⟨⟨enumerates_minutes true, hpassed true (by decide)⟩,
    enumerates_minutes false, hpassed false (by decide)⟩

end LibreFang.Cron
