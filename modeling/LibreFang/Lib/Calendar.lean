import Mathlib.Algebra.Order.Ring.Nat
import Mathlib.Data.List.Lex
import Mathlib.Data.Nat.Log

/-!
# Dates and instants as texts

Texts of fixed width that are in the order of what they say.

* `padded`: decimals of a fixed width; **`padded_append_lt`**: they are ordered as their numbers.
* `Date`, `next`, `after`: the dates of the Gregorian calendar, day after day.
* **`before_after_iff`**: later days have later dates; **`after_sub`**: the days of one month.
* `dateText`, `timeText`: texts; **`dateText_append_lt`**, **`timeText_append_lt`**: their order.
* `dateOf`, `toRfc3339`, `compactText`: instants; **`compactText_append_lt`**: later ones are
  written later.
-/

namespace Calendar

/-! ## Decimals of fixed width -/

/-- The decimal digits of a number, as many as the width says. -/
def padded : ℕ → ℕ → List Char
  | 0, _ => []
  | width + 1, n => Nat.digitChar (n / 10 ^ width) :: padded width (n % 10 ^ width)

variable {m n : ℕ}

theorem digitChar_lt_iff (hm : m < 10) (hn : n < 10) :
    Nat.digitChar m < Nat.digitChar n ↔ m < n := by
  have h : ∀ m < 10, ∀ n < 10, Nat.digitChar m < Nat.digitChar n ↔ m < n := by decide
  exact h m hm n hn

theorem digitChar_inj (hm : m < 10) (hn : n < 10) : Nat.digitChar m = Nat.digitChar n ↔ m = n := by
  have h : ∀ m < 10, ∀ n < 10, Nat.digitChar m = Nat.digitChar n ↔ m = n := by decide
  exact h m hm n hn

/-- **Decimals of one width are ordered as their numbers.** -/
theorem padded_append_lt {width m n : ℕ} (hm : m < 10 ^ width) (hn : n < 10 ^ width)
    (s t : List Char) : padded width m ++ s < padded width n ++ t ↔ m < n ∨ m = n ∧ s < t := by
  induction width generalizing m n with
  | zero =>
    obtain rfl : m = 0 := Nat.lt_one_iff.mp hm
    obtain rfl : n = 0 := Nat.lt_one_iff.mp hn
    exact ⟨fun h => .inr ⟨rfl, h⟩, fun h => (h.resolve_left (Nat.lt_irrefl 0)).2⟩
  | succ width ih =>
    have hpos : 0 < 10 ^ width := Nat.pow_pos (by decide)
    rw [Nat.pow_succ, Nat.mul_comm] at hm hn
    rw [padded, padded, List.cons_append, List.cons_append, List.cons_lt_cons_iff,
      digitChar_lt_iff (Nat.div_lt_of_lt_mul (Nat.mul_comm 10 _ ▸ hm))
        (Nat.div_lt_of_lt_mul (Nat.mul_comm 10 _ ▸ hn)),
      digitChar_inj (Nat.div_lt_of_lt_mul (Nat.mul_comm 10 _ ▸ hm))
        (Nat.div_lt_of_lt_mul (Nat.mul_comm 10 _ ▸ hn)),
      ih (Nat.mod_lt m hpos) (Nat.mod_lt n hpos)]
    have hmd := Nat.div_add_mod m (10 ^ width)
    have hnd := Nat.div_add_mod n (10 ^ width)
    constructor
    · rintro (hlt | ⟨heq, hlt | ⟨hmod, hst⟩⟩)
      · exact .inl (Nat.lt_of_div_lt_div hlt)
      · rw [heq] at hmd
        exact .inl (by omega)
      · rw [heq, hmod, hnd] at hmd
        exact .inr ⟨hmd.symm, hst⟩
    · rintro (hlt | ⟨rfl, hst⟩)
      · obtain hdiv | hdiv := Nat.lt_or_eq_of_le (Nat.div_le_div_right (c := 10 ^ width)
          (Nat.le_of_lt hlt))
        · exact .inl hdiv
        · rw [hdiv] at hmd
          exact .inr ⟨hdiv, .inl (by omega)⟩
      · exact .inr ⟨rfl, .inr ⟨rfl, hst⟩⟩

theorem append_lt_append_left_iff (l s t : List Char) : l ++ s < l ++ t ↔ s < t := by
  induction l with
  | nil => exact Iff.rfl
  | cons c l ih => rw [List.cons_append, List.cons_append, List.cons_lt_cons_self, ih]

/-! ## Dates -/

/-- A date. -/
structure Date where
  year : ℕ
  month : ℕ
  day : ℕ
  deriving DecidableEq, Repr

/-- The number of days of a month. -/
def monthLength (year month : ℕ) : ℕ :=
  if month = 2 then
    if year % 4 = 0 ∧ (year % 100 ≠ 0 ∨ year % 400 = 0) then 29 else 28
  else if month = 4 ∨ month = 6 ∨ month = 9 ∨ month = 11 then 30
  else 31

namespace Date

/-- The date of the next day. -/
def next (d : Date) : Date :=
  if d.day < monthLength d.year d.month then { d with day := d.day + 1 }
  else if d.month < 12 then ⟨d.year, d.month + 1, 1⟩
  else ⟨d.year + 1, 1, 1⟩

/-- The date a number of days later. -/
def after (first : Date) : ℕ → Date
  | 0 => first
  | n + 1 => (after first n).next

/-- A date comes before another. -/
def Before (a b : Date) : Prop :=
  a.year < b.year ∨ a.year = b.year ∧ (a.month < b.month ∨ a.month = b.month ∧ a.day < b.day)

/-- The month and the day exist. -/
structure Valid (d : Date) : Prop where
  month_le : d.month ≤ 12
  day_pos : 1 ≤ d.day
  day_le : d.day ≤ monthLength d.year d.month

theorem monthLength_bounds (year month : ℕ) :
    1 ≤ monthLength year month ∧ monthLength year month ≤ 31 := by
  unfold monthLength
  split_ifs <;> decide

theorem Valid.next {d : Date} (h : d.Valid) : d.next.Valid := by
  unfold Date.next
  split_ifs with hday hmonth
  · exact ⟨h.month_le, Nat.le_add_left 1 _, hday⟩
  · exact ⟨hmonth, Nat.le_refl 1, (monthLength_bounds _ _).1⟩
  · exact ⟨Nat.le_add_left 1 11, Nat.le_refl 1, (monthLength_bounds _ _).1⟩

theorem Valid.after {first : Date} (h : first.Valid) (n : ℕ) : (first.after n).Valid := by
  induction n with
  | zero => exact h
  | succ n ih => exact ih.next

theorem before_next (d : Date) : d.Before d.next := by
  unfold next
  split_ifs with hday hmonth
  · exact .inr ⟨rfl, .inr ⟨rfl, Nat.lt_succ_self _⟩⟩
  · exact .inr ⟨rfl, .inl (Nat.lt_succ_self _)⟩
  · exact .inl (Nat.lt_succ_self _)

theorem Before.trans {a b c : Date} (hab : a.Before b) (hbc : b.Before c) : a.Before c := by
  unfold Before at *
  omega

theorem not_before_self (d : Date) : ¬ d.Before d := by
  unfold Before
  omega

theorem after_before_after (first : Date) (h : m < n) : (first.after m).Before (first.after n) := by
  induction n with
  | zero => exact absurd h (Nat.not_lt_zero m)
  | succ n ih =>
    obtain hlt | rfl := Nat.lt_succ_iff_lt_or_eq.mp h
    · exact (ih hlt).trans (before_next _)
    · exact before_next _

/-- **Later days have later dates.** -/
theorem before_after_iff (first : Date) : (first.after m).Before (first.after n) ↔ m < n := by
  refine ⟨fun h => ?_, after_before_after first⟩
  by_contra hle
  obtain hlt | rfl := Nat.lt_or_eq_of_le (Nat.not_lt.mp hle)
  · exact not_before_self _ (h.trans (after_before_after first hlt))
  · exact not_before_self _ h

theorem after_injective (first : Date) (h : first.after m = first.after n) : m = n := by
  by_contra hne
  obtain hlt | hlt := Nat.lt_or_gt_of_ne hne
  · exact not_before_self _ (h ▸ after_before_after first hlt)
  · exact not_before_self _ (h ▸ after_before_after first hlt)

theorem year_le_of_le (first : Date) (h : m ≤ n) : (first.after m).year ≤ (first.after n).year := by
  obtain hlt | rfl := Nat.lt_or_eq_of_le h
  · obtain hyear | hyear := after_before_after first hlt
    · exact Nat.le_of_lt hyear
    · exact Nat.le_of_eq hyear.1
  · exact Nat.le_refl _

/-- **Earlier days of one month have its earlier dates.** -/
theorem after_sub (first : Date) {n k : ℕ} (hk : k ≤ n) (hday : k < (first.after n).day) :
    first.after (n - k) = { first.after n with day := (first.after n).day - k } := by
  induction k with
  | zero => rfl
  | succ k ih =>
    have hprev := ih (Nat.le_of_succ_le hk) (Nat.lt_of_succ_lt hday)
    have hnext : first.after (n - k) = (first.after (n - (k + 1))).next := by
      rw [show n - k = n - (k + 1) + 1 by omega]
      rfl
    rw [hnext] at hprev
    generalize first.after (n - (k + 1)) = d at hprev ⊢
    unfold next at hprev
    split_ifs at hprev
    · injection hprev with hyear hmonth hd
      obtain ⟨year, month, day⟩ := d
      rw [Date.mk.injEq]
      dsimp only at hyear hmonth hd ⊢
      exact ⟨hyear, hmonth, by omega⟩
    · injection hprev with hyear hmonth hd
      omega
    · injection hprev with hyear hmonth hd
      omega

theorem day_after_le {first : Date} (h : first.next.day = 1) (n : ℕ) :
    (first.after (n + 1)).day ≤ n + 1 := by
  induction n with
  | zero => exact Nat.le_of_eq h
  | succ n ih =>
    change (first.after (n + 1)).next.day ≤ _
    unfold next
    split_ifs
    · exact Nat.succ_le_succ ih
    · exact Nat.succ_le_succ (Nat.zero_le _)
    · exact Nat.succ_le_succ (Nat.zero_le _)

end Date

/-! ## Texts -/

/-- How many digits a year is written with. -/
def yearWidth (year : ℕ) : ℕ := if year < 10000 then 4 else Nat.log 10 year + 1

/-- A year of four digits, or with a sign and as many digits as it needs. -/
def yearText (year : ℕ) : List Char :=
  if year < 10000 then padded 4 year else '+' :: padded (yearWidth year) year

/-- Year, month and day with a separator. -/
def dateText (sep : List Char) (d : Date) : List Char :=
  yearText d.year ++ (sep ++ (padded 2 d.month ++ (sep ++ padded 2 d.day)))

/-- Hour, minute and second of a second of the day with a separator. -/
def timeText (sep : List Char) (second : ℕ) : List Char :=
  padded 2 (second / 3600) ++ (sep ++ (padded 2 (second / 60 % 60) ++
    (sep ++ padded 2 (second % 60))))

theorem lt_pow_yearWidth (year : ℕ) : year < 10 ^ yearWidth year := by
  unfold yearWidth
  split_ifs with h
  · exact h
  · exact Nat.lt_pow_succ_log_self (by decide) year

theorem yearWidth_eq_four {year : ℕ} : yearWidth year = 4 ↔ year < 10000 := by
  unfold yearWidth
  split_ifs with h
  · exact iff_of_true rfl h
  · have hlog : 4 ≤ Nat.log 10 year :=
      Nat.le_log_of_pow_le (by decide) (Nat.not_lt.mp h)
    exact iff_of_false (by omega) h

theorem yearText_append_lt {a b : ℕ} (h : yearWidth a = yearWidth b) (s t : List Char) :
    yearText a ++ s < yearText b ++ t ↔ a < b ∨ a = b ∧ s < t := by
  have ha := lt_pow_yearWidth a
  have hb := lt_pow_yearWidth b
  unfold yearText
  by_cases hfour : a < 10000
  · have hb4 := yearWidth_eq_four.mp (h ▸ yearWidth_eq_four.mpr hfour)
    rw [if_pos hfour, if_pos hb4, padded_append_lt hfour hb4]
  · have hb4 : ¬ b < 10000 := fun hb4 =>
      hfour (yearWidth_eq_four.mp (h.trans (yearWidth_eq_four.mpr hb4)))
    rw [if_neg hfour, if_neg hb4, List.cons_append, List.cons_append, List.cons_lt_cons_self, h]
    rw [h] at ha
    exact padded_append_lt ha hb s t

theorem not_yearText_lt {a b : ℕ} (ha : a < 10000) (hb : ¬ b < 10000) (s t : List Char) :
    ¬ yearText a ++ s < yearText b ++ t := by
  unfold yearText
  rw [if_pos ha, if_neg hb, padded, List.cons_append, List.cons_append, List.cons_lt_cons_iff]
  have hdigit : ∀ n < 10, ¬ Nat.digitChar n < '+' ∧ Nat.digitChar n ≠ '+' := by decide
  have hd := hdigit (a / 10 ^ 3) (by omega)
  rintro (hlt | ⟨heq, -⟩)
  · exact hd.1 hlt
  · exact hd.2 heq

/-- **Dates are written in their order**, where their years have one width. -/
theorem dateText_append_lt {sep : List Char} {a b : Date} (ha : a.Valid) (hb : b.Valid)
    (h : yearWidth a.year = yearWidth b.year) (s t : List Char) :
    dateText sep a ++ s < dateText sep b ++ t ↔ a.Before b ∨ a = b ∧ s < t := by
  have ham := ha.month_le
  have hbm := hb.month_le
  have had := Nat.le_trans ha.day_le (Date.monthLength_bounds _ _).2
  have hbd := Nat.le_trans hb.day_le (Date.monthLength_bounds _ _).2
  unfold dateText
  simp only [List.append_assoc]
  rw [yearText_append_lt h, append_lt_append_left_iff, padded_append_lt (by omega) (by omega),
    append_lt_append_left_iff, padded_append_lt (by omega) (by omega)]
  obtain ⟨y, m, d⟩ := a
  obtain ⟨y', m', d'⟩ := b
  unfold Date.Before
  rw [Date.mk.injEq]
  tauto

/-- **Times of day are written in their order.** -/
theorem timeText_append_lt {sep : List Char} {a b : ℕ} (ha : a < 86400) (hb : b < 86400)
    (s t : List Char) : timeText sep a ++ s < timeText sep b ++ t ↔ a < b ∨ a = b ∧ s < t := by
  unfold timeText
  simp only [List.append_assoc]
  rw [padded_append_lt (by omega) (by omega), append_lt_append_left_iff,
    padded_append_lt (by omega) (by omega), append_lt_append_left_iff,
    padded_append_lt (by omega) (by omega)]
  by_cases hst : s < t
  · simp only [hst, and_true]
    omega
  · simp only [hst, and_false, or_false]
    omega

/-! ## Instants -/

/-- An instant, in nanoseconds since the epoch. -/
abbrev Time := ℕ

/-- The nanoseconds of a day. -/
def dayNanos : Time := 86400000000000

/-- The day before the epoch, from which days are counted. -/
def eve : Date := ⟨1969, 12, 31⟩

/-- The UTC date of an instant. -/
def dateOf (t : Time) : Date := eve.after (t / dayNanos + 1)

/-- The second of the UTC day of an instant. -/
def secondOf (t : Time) : ℕ := t / 1000000000 % 86400

/-- The nanoseconds of an instant beyond its second. -/
def nanosOf (t : Time) : ℕ := t % 1000000000

/-- The fraction of a second in as few groups of three digits as it needs. -/
def fraction (nanos : ℕ) : List Char :=
  if nanos = 0 then []
  else if nanos % 1000000 = 0 then '.' :: padded 3 (nanos / 1000000)
  else if nanos % 1000 = 0 then '.' :: padded 6 (nanos / 1000)
  else '.' :: padded 9 nanos

/-- `DateTime::<Utc>::to_rfc3339`. -/
def toRfc3339 (t : Time) : List Char :=
  dateText ['-'] (dateOf t) ++ 'T' :: (timeText [':'] (secondOf t) ++
    (fraction (nanosOf t) ++ "+00:00".toList))

/-- An instant in digits and two underscores, `%Y%m%d_%H%M%S` and nine digits of nanoseconds. -/
def compactText (t : Time) : List Char :=
  dateText [] (dateOf t) ++ '_' :: (timeText [] (secondOf t) ++ '_' :: padded 9 (nanosOf t))

theorem eve_valid : eve.Valid := ⟨by decide, by decide, by decide⟩

theorem dateOf_valid (t : Time) : (dateOf t).Valid := eve_valid.after _

theorem year_le {t u : Time} (h : t / dayNanos ≤ u / dayNanos) :
    (dateOf t).year ≤ (dateOf u).year :=
  Date.year_le_of_le eve (Nat.succ_le_succ h)

theorem secondOf_lt (t : Time) : secondOf t < 86400 := Nat.mod_lt _ (by decide)

theorem nanosOf_lt (t : Time) : nanosOf t < 10 ^ 9 := Nat.mod_lt _ (by decide)

theorem lt_by_parts (h : m < n) :
    m / 86400000000000 < n / 86400000000000 ∨ m / 86400000000000 = n / 86400000000000 ∧
      (m / 1000000000 % 86400 < n / 1000000000 % 86400 ∨
        m / 1000000000 % 86400 = n / 1000000000 % 86400 ∧ m % 1000000000 < n % 1000000000) := by
  omega

/-- **Later instants are written later**, where their years have one width. -/
theorem compactText_append_lt {t u : Time} (h : t < u)
    (hwidth : yearWidth (dateOf t).year = yearWidth (dateOf u).year) (x y : List Char) :
    compactText t ++ x < compactText u ++ y := by
  unfold compactText
  rw [List.append_assoc, List.append_assoc, List.cons_append, List.cons_append,
    dateText_append_lt (dateOf_valid t) (dateOf_valid u) hwidth]
  obtain hday | ⟨hday, hrest⟩ := lt_by_parts h
  · exact .inl (Date.after_before_after eve (Nat.succ_lt_succ hday))
  · refine .inr ⟨congrArg (fun n => eve.after (n + 1)) hday, ?_⟩
    rw [List.cons_lt_cons_self, List.append_assoc, List.append_assoc, List.cons_append,
      List.cons_append, timeText_append_lt (secondOf_lt t) (secondOf_lt u)]
    refine hrest.imp_right fun hnanos => ⟨hnanos.1, ?_⟩
    rw [List.cons_lt_cons_self, padded_append_lt (nanosOf_lt t) (nanosOf_lt u)]
    exact .inl hnanos.2

end Calendar
