import LibreFang.Lib.Floats
import LibreFang.Lib.Slices

/-!
# Reset values

A provider says when a limit is reset: in seconds, as a duration, or as a date. Texts are cut at
bytes; the outer `none` stands for a panic, the inner one for a text that is not read.

* `checked`: the integers of a build with or without overflow checks.
* `parseIso8601ToUnix`, `parseHttpDateToUnix`: dates; **`parseResetValue`**: a reset value.
* `DaysFit`: the days of a date are an `i64`; **`daysSinceEpoch_eq_none_iff`**.
* **`parseResetValue_eq_none_iff`**: a header is read without a panic unless it has an HTTP date with
  more days than that, in a build with overflow checks.
-/

namespace LibreFang.Drivers.RateLimit

open Slices Floats

/-- `?`: what is not read is not read further. -/
def andThen {α β : Type} (x : Option (Option α)) (f : α → Option (Option β)) : Option (Option β) :=
  x.bind fun read => read.elim (some none) f

/-- An `i64` that is computed: without overflow checks it wraps around. -/
def checked (overflowChecks : Bool) (x : ℤ) : Option ℤ :=
  if IsI64 x then some x
  else if overflowChecks then none
  else some (Int.bmod x (2 ^ 64))

/-! ## Dates -/

/-- A byte is one of these; there is none behind the end. -/
def byteIs (s : List Char) (i : ℕ) (cs : List UInt8) : Option Bool :=
  (bytes s)[i]?.map fun b => decide (b ∈ cs)

/-- `s[i..j].parse::<i64>()`. -/
def i64At (s : List Char) (i j : ℕ) : Option (Option I64) := (slice s i j).map parseI64

/-- `s[i..j].parse::<f64>()`. -/
def f64At (s : List Char) (i j : ℕ) : Option (Option F64) := (slice s i j).map parse

/-- `split_sec_and_tz`. -/
def splitSecAndTz (s : List Char) : List Char × List Char :=
  (s.takeWhile fun c => c = '.' || c.isDigit, s.dropWhile fun c => c = '.' || c.isDigit)

/-- The number as an `f64`. -/
def f64 (n : ℤ) : F64 := nearest n

/-- `parse_tz_offset`. -/
def parseTzOffset (s : List Char) : Option (Option F64) :=
  let s := Text.trim s
  if s = [] ∨ s.map Char.toLower = ['z'] then some (some (f64 0))
  else if (s.head? = some '+' ∨ s.head? = some '-') ∧ 6 ≤ byteLen s then
    let sign := if s.head? = some '-' then f64 (-1) else f64 1
    andThen (f64At s 1 3) fun h => andThen (f64At s 4 6) fun m =>
      some (some (sign.mul ((h.mul (f64 3600)).add (m.mul (f64 60)))))
  else some none

/-- `days_since_epoch` from the era on. -/
def daysFromEra (overflowChecks : Bool) (y era month day : ℤ) : Option (Option ℤ) := do
  let i64 := checked overflowChecks
  let eraYears ← i64 (era * 400)
  let yoe ← i64 (y - eraYears)
  let doy := (153 * (if month > 2 then month - 3 else month + 9) + 2) / 5 + day - 1
  let yearDays ← i64 (yoe * 365)
  let leapDays ← i64 (yearDays + yoe.tdiv 4)
  let centuryDays ← i64 (leapDays - yoe.tdiv 100)
  let doe ← i64 (centuryDays + doy)
  let eraDays ← i64 (era * 146097)
  let total ← i64 (eraDays + doe)
  let days ← i64 (total - 719468)
  return some days

/-- `days_since_epoch`. -/
def daysSinceEpoch (overflowChecks : Bool) (year month day : ℤ) : Option (Option ℤ) :=
  if 1 ≤ month ∧ month ≤ 12 ∧ 1 ≤ day ∧ day ≤ 31 then
    (if month ≤ 2 then checked overflowChecks (year - 1) else some year).bind fun y =>
      (if 0 ≤ y then some y else checked overflowChecks (y - 399)).bind fun shifted =>
        daysFromEra overflowChecks y (shifted.tdiv 400) month day
  else some none

/-- `parse_iso8601_to_unix`. -/
def parseIso8601ToUnix (overflowChecks : Bool) (s : List Char) : Option (Option F64) :=
  if byteLen s < 20 then some none
  else do
    -- `-`, `-`, and `T` or `t`
    let dash ← byteIs s 4 [45]
    let dash' ← byteIs s 7 [45]
    let time ← byteIs s 10 [84, 116]
    if dash && dash' && time then
      andThen (i64At s 0 4) fun year => andThen (i64At s 5 7) fun month =>
      andThen (i64At s 8 10) fun day => andThen (i64At s 11 13) fun hour =>
      andThen (i64At s 14 16) fun minute => do
        let (_, secStr) ← cut 17 s
        let (secFrac, tzStr) := splitSecAndTz secStr
        andThen (some (parse secFrac)) fun sec => andThen (parseTzOffset tzStr) fun tzOffsetSecs =>
          andThen (daysSinceEpoch overflowChecks year month day) fun days =>
            some (some ((((((f64 days).mul (f64 86400)).add ((f64 hour).mul (f64 3600))).add
              ((f64 minute).mul (f64 60))).add sec).sub tzOffsetSecs))
    else some none

/-- `month_name_to_num`. -/
def monthNameToNum (s : List Char) : Option ℤ :=
  match String.ofList s with
  | "Jan" => some 1
  | "Feb" => some 2
  | "Mar" => some 3
  | "Apr" => some 4
  | "May" => some 5
  | "Jun" => some 6
  | "Jul" => some 7
  | "Aug" => some 8
  | "Sep" => some 9
  | "Oct" => some 10
  | "Nov" => some 11
  | "Dec" => some 12
  | _ => none

/-- `str::splitn`. -/
def splitN (sep : Char) : ℕ → List Char → List (List Char)
  | 0, _ => []
  | 1, s => [s]
  | n + 2, s =>
    match Text.splitOnceStr [sep] s with
    | some (part, rest) => part :: splitN sep (n + 1) rest
    | none => [s]

/-- The loop of `str::trim_end_matches`, on the text from behind. -/
def dropStarts (start : List Char) : ℕ → List Char → List Char
  | 0, s => s
  | n + 1, s =>
    match stripStart start s with
    | some rest => dropStarts start n rest
    | none => s

/-- `str::trim_end_matches`. -/
def trimEndMatches (stop s : List Char) : List Char :=
  (dropStarts stop.reverse s.length s.reverse).reverse

/-- The parts of an HTTP date. -/
structure HttpDate where
  day : I64
  month : ℤ
  year : I64
  hour : F64
  minute : F64
  sec : F64
  deriving DecidableEq

/-- `parse_http_date_to_unix` up to the days. -/
def httpDate (s : List Char) : Option HttpDate :=
  let s :=
    match Text.splitOnceStr [','] s with
    | some (_, rest) => Text.trim rest
    | none => Text.trim s
  match splitN ' ' 5 s with
  | day :: month :: year :: time :: _ => do
    let day ← parseI64 day
    let month ← monthNameToNum month
    let year ← parseI64 year
    match splitN ':' 3 time with
    | [hour, minute, sec] =>
      return ⟨day, month, year, ← parse hour, ← parse minute,
        ← parse (trimEndMatches " GMT".toList sec)⟩
    | _ => none
  | _ => none

/-- `parse_http_date_to_unix`. -/
def parseHttpDateToUnix (overflowChecks : Bool) (s : List Char) : Option (Option F64) :=
  andThen (some (httpDate s)) fun date =>
    andThen (daysSinceEpoch overflowChecks date.year date.month date.day) fun days =>
      some (some (((((f64 days).mul (f64 86400)).add (date.hour.mul (f64 3600))).add
        (date.minute.mul (f64 60))).add date.sec))

/-! ## Times and reset values -/

/-- A `SystemTime`: nanoseconds since the epoch, whose seconds are an `i64`. -/
def SystemTime := {t : ℤ // -9223372036854775808000000000 ≤ t ∧ t < 9223372036854775808000000000}

/-- `Duration::as_secs_f64`. -/
def asSecsF64 (nanos : ℕ) : F64 :=
  (f64 (nanos / 1000000000)).add (nearest ((nanos % 1000000000 : ℕ) / 1000000000))

/-- The seconds since the epoch, or none before it. -/
def SystemTime.unixSecs (now : SystemTime) : F64 := if 0 ≤ now.1 then asSecsF64 now.1.toNat else f64 0

/-- `parse_datetime_to_secs_from_now`. -/
def parseDatetimeToSecsFromNow (overflowChecks : Bool) (now : SystemTime) (s : List Char) :
    Option (Option F64) := do
  match ← parseIso8601ToUnix overflowChecks s with
  | some unix => return some ((unix.sub now.unixSecs).max (f64 0))
  | none =>
    match ← parseHttpDateToUnix overflowChecks s with
    | some unix => return some ((unix.sub now.unixSecs).max (f64 0))
    | none => return none

/-- The loop over the characters of a duration. -/
def durationLoop (secs : F64) (current : List Char) : List Char → F64
  | [] => secs
  | ch :: rest =>
    let number := (parse current).getD (f64 0)
    if ch.isDigit || ch = '.' then durationLoop secs (current ++ [ch]) rest
    else if ch = 'H' || ch = 'h' then durationLoop (secs.add (number.mul (f64 3600))) [] rest
    else if ch = 'M' || ch = 'm' then durationLoop (secs.add (number.mul (f64 60))) [] rest
    else if ch = 'S' || ch = 's' then durationLoop (secs.add number) [] rest
    else durationLoop secs current rest

/-- `parse_reset_value`. -/
def parseResetValue (overflowChecks : Bool) (now : SystemTime) (s : List Char) :
    Option (Option F64) :=
  match parse s with
  | some v => some (some v)
  | none =>
    match (stripStart "PT".toList s).or (stripStart "pt".toList s) with
    | some rest => some (some (durationLoop (f64 0) [] rest))
    | none => parseDatetimeToSecsFromNow overflowChecks now s

/-! ## Days that are an `i64` -/

/-- The day of its era, with years from March on. -/
def dayOfEra (y month day : ℤ) : ℤ :=
  y % 400 * 365 + y % 400 / 4 - y % 400 / 100 +
    ((153 * (if month > 2 then month - 3 else month + 9) + 2) / 5 + day - 1)

/-- The days of a date are an `i64`, counted from the era, from its start or from 1970. -/
def DaysFitFrom (y month day : ℤ) : Prop :=
  IsI64 (y / 400 * 146097) ∧ IsI64 (y / 400 * 146097 + dayOfEra y month day) ∧
    IsI64 (y / 400 * 146097 + dayOfEra y month day - 719468)

/-- The days of a date are an `i64`. -/
def DaysFit (year month day : ℤ) : Prop :=
  1 ≤ month ∧ month ≤ 12 ∧ 1 ≤ day ∧ day ≤ 31 →
    DaysFitFrom (if month ≤ 2 then year - 1 else year) month day

theorem bind_checked_true {α : Type} {x : ℤ} {f : ℤ → Option α} :
    (checked true x).bind f = none ↔ (IsI64 x → f x = none) := by
  unfold checked
  by_cases h : IsI64 x
  · simp [h]
  · simp [h]

theorem bind_checked_false {α : Type} {x : ℤ} {f : ℤ → Option α} (h : ∀ y, f y ≠ none) :
    (checked false x).bind f ≠ none := by
  unfold checked
  by_cases hx : IsI64 x
  · rw [if_pos hx]
    exact h x
  · rw [if_neg hx]
    exact h _

theorem tdiv_era_of_neg {y : ℤ} (h : ¬ 0 ≤ y) : (y - 399).tdiv 400 = y / 400 := by
  have hneg : (y - 399).tdiv 400 = -((399 - y) / 400) := by
    rw [show y - 399 = -(399 - y) by omega, Int.neg_tdiv, Int.tdiv_eq_ediv_of_nonneg (by omega)]
  omega

theorem daysFromEra_eq_none_iff {y month day : ℤ}
    (hvalid : 1 ≤ month ∧ month ≤ 12 ∧ 1 ≤ day ∧ day ≤ 31) :
    daysFromEra true y (y / 400) month day = none ↔ ¬ DaysFitFrom y month day := by
  have hmod : y - y / 400 * 400 = y % 400 := by omega
  have h4 : (y % 400).tdiv 4 = y % 400 / 4 := Int.tdiv_eq_ediv_of_nonneg (by omega)
  have h100 : (y % 400).tdiv 100 = y % 400 / 100 := Int.tdiv_eq_ediv_of_nonneg (by omega)
  unfold daysFromEra
  simp only [Option.bind_eq_bind, bind_checked_true, hmod, h4, h100, Option.pure_def, reduceCtorEq,
    imp_false]
  unfold DaysFitFrom dayOfEra
  generalize hdoy : (153 * (if month > 2 then month - 3 else month + 9) + 2) / 5 + day - 1 = doy
  have hrange : 0 ≤ doy ∧ doy < 400 := by
    split at hdoy
    · omega
    · omega
  simp only [IsI64]
  omega

theorem daysFromEra_unchecked (y era month day : ℤ) : daysFromEra false y era month day ≠ none := by
  unfold daysFromEra
  iterate 9 refine bind_checked_false fun _ => ?_
  exact Option.some_ne_none _

theorem era_eq_none_iff {y month day : ℤ} (hvalid : 1 ≤ month ∧ month ≤ 12 ∧ 1 ≤ day ∧ day ≤ 31) :
    ((if 0 ≤ y then some y else checked true (y - 399)).bind fun shifted =>
      daysFromEra true y (shifted.tdiv 400) month day) = none ↔ ¬ DaysFitFrom y month day := by
  by_cases hy : 0 ≤ y
  · rw [if_pos hy, Option.bind_some, Int.tdiv_eq_ediv_of_nonneg hy, daysFromEra_eq_none_iff hvalid]
  · rw [if_neg hy, bind_checked_true, tdiv_era_of_neg hy, daysFromEra_eq_none_iff hvalid]
    refine ⟨fun h hfits => h ?_ hfits, fun h _ => h⟩
    have hdays := hfits.1
    unfold IsI64 at hdays ⊢
    omega

theorem daysSinceEpoch_unchecked (year month day : ℤ) :
    daysSinceEpoch false year month day ≠ none := by
  unfold daysSinceEpoch
  by_cases hvalid : 1 ≤ month ∧ month ≤ 12 ∧ 1 ≤ day ∧ day ≤ 31
  · have hera (y : ℤ) : ((if 0 ≤ y then some y else checked false (y - 399)).bind fun shifted =>
        daysFromEra false y (shifted.tdiv 400) month day) ≠ none := by
      split
      · exact daysFromEra_unchecked _ _ _ _
      · exact bind_checked_false fun shifted => daysFromEra_unchecked _ _ _ _
    rw [if_pos hvalid]
    split
    · exact bind_checked_false hera
    · exact hera year
  · rw [if_neg hvalid]
    exact Option.some_ne_none _

variable {overflowChecks : Bool}

/-- **The days of a date** panic where they do not fit, with overflow checks. -/
theorem daysSinceEpoch_eq_none_iff (year month day : ℤ) :
    daysSinceEpoch overflowChecks year month day = none ↔
      overflowChecks = true ∧ ¬ DaysFit year month day := by
  cases overflowChecks with
  | false => exact iff_of_false (daysSinceEpoch_unchecked _ _ _) fun h => by cases h.1
  | true =>
    rw [eq_self, true_and]
    unfold daysSinceEpoch DaysFit
    by_cases hvalid : 1 ≤ month ∧ month ≤ 12 ∧ 1 ≤ day ∧ day ≤ 31
    · rw [if_pos hvalid, Classical.not_imp, and_iff_right hvalid]
      by_cases hmonth : month ≤ 2
      · rw [if_pos hmonth, if_pos hmonth, bind_checked_true, era_eq_none_iff hvalid]
        refine ⟨fun h hfits => h ?_ hfits, fun h _ => h⟩
        have hdays := hfits.1
        unfold IsI64 at hdays ⊢
        omega
      · rw [if_neg hmonth, if_neg hmonth, Option.bind_some, era_eq_none_iff hvalid]
    · rw [if_neg hvalid]
      exact iff_of_false (Option.some_ne_none _) fun h => h fun hv => absurd hv hvalid

theorem daysFit_of_lt {year : ℤ} (hlow : -10000 < year) (hhigh : year < 10000) (month day : ℤ) :
    DaysFit year month day := by
  intro hvalid
  unfold DaysFitFrom dayOfEra
  generalize hy : (if month ≤ 2 then year - 1 else year) = y
  generalize hdoy : (153 * (if month > 2 then month - 3 else month + 9) + 2) / 5 + day - 1 = doy
  have hrange : 0 ≤ doy ∧ doy < 400 := by
    split at hdoy
    · omega
    · omega
  have hyear : -10001 ≤ y ∧ y < 10000 := by
    split at hy
    · omega
    · omega
  unfold IsI64
  omega

/-! ## Texts of ASCII characters -/

theorem andThen_eq_none_iff {α β : Type} {x : Option (Option α)} {f : α → Option (Option β)} :
    andThen x f = none ↔ x = none ∨ ∃ a, x = some (some a) ∧ f a = none := by
  unfold andThen
  cases x with
  | none => simp
  | some read =>
    cases read with
    | none => simp
    | some a => simp

theorem andThen_ne_none {α β : Type} {x : Option (Option α)} {f : α → Option (Option β)}
    (hx : x ≠ none) (hf : ∀ a, x = some (some a) → f a ≠ none) : andThen x f ≠ none := by
  rw [Ne, andThen_eq_none_iff, not_or]
  exact ⟨hx, fun ⟨a, ha, hnone⟩ => hf a ha hnone⟩

variable {s : List Char}

theorem i64At_ne_none (h : IsAscii s) {i j : ℕ} (hij : i ≤ j)
    (hj : j ≤ byteLen s) : i64At s i j ≠ none := by
  obtain ⟨m, hm, -⟩ := h.exists_slice hij hj
  unfold i64At
  rw [hm]
  exact Option.some_ne_none _

theorem f64At_ne_none (h : IsAscii s) {i j : ℕ} (hij : i ≤ j)
    (hj : j ≤ byteLen s) : f64At s i j ≠ none := by
  obtain ⟨m, hm, -⟩ := h.exists_slice hij hj
  unfold f64At
  rw [hm]
  exact Option.some_ne_none _

theorem byteIs_isSome {i : ℕ} (h : i < byteLen s) (cs : List UInt8) :
    ∃ b, byteIs s i cs = some b := by
  unfold byteIs
  rw [List.getElem?_eq_getElem (h.trans_eq (length_bytes s).symm)]
  exact ⟨_, rfl⟩

theorem parseTzOffset_ne_none (h : IsAscii s) : parseTzOffset s ≠ none := by
  have htrim : IsAscii (Text.trim s) := h.of_subset fun c hc => Text.mem_of_mem_trim hc
  unfold parseTzOffset
  dsimp only
  split
  · exact Option.some_ne_none _
  · split
    · rename_i hlen
      exact andThen_ne_none (f64At_ne_none htrim (by omega) (by omega)) fun _ _ =>
        andThen_ne_none (f64At_ne_none htrim (by omega) (by omega)) fun _ _ =>
          Option.some_ne_none _
    · exact Option.some_ne_none _

theorem parseIso8601ToUnix_ne_none (h : IsAscii s) (overflowChecks : Bool) :
    parseIso8601ToUnix overflowChecks s ≠ none := by
  unfold parseIso8601ToUnix
  by_cases hlen : byteLen s < 20
  · rw [if_pos hlen]
    exact Option.some_ne_none _
  · obtain ⟨b, hb⟩ := byteIs_isSome (s := s) (i := 4) (by omega) [45]
    obtain ⟨b', hb'⟩ := byteIs_isSome (s := s) (i := 7) (by omega) [45]
    obtain ⟨t, ht⟩ := byteIs_isSome (s := s) (i := 10) (by omega) [84, 116]
    rw [if_neg hlen, hb, hb', ht]
    dsimp only [Option.bind_eq_bind, Option.bind_some]
    split
    · refine andThen_ne_none (i64At_ne_none h (by omega) (by omega)) fun year hyear => ?_
      refine andThen_ne_none (i64At_ne_none h (by omega) (by omega)) fun month _ => ?_
      refine andThen_ne_none (i64At_ne_none h (by omega) (by omega)) fun day _ => ?_
      refine andThen_ne_none (i64At_ne_none h (by omega) (by omega)) fun hour _ => ?_
      refine andThen_ne_none (i64At_ne_none h (by omega) (by omega)) fun minute _ => ?_
      obtain ⟨halves, hcut⟩ := Option.isSome_iff_exists.mp
        (h.isBoundary (n := 17) (by omega) : (cut 17 s).isSome = true)
      rw [hcut, Option.bind_some]
      have hrest : IsAscii (splitSecAndTz halves.2).2 := by
        refine h.of_subset fun c hc => ?_
        obtain ⟨heq, -⟩ := cut_eq_some_iff.mp (show cut 17 s = some (halves.1, halves.2) from hcut)
        rw [heq]
        exact List.mem_append_right _ ((List.dropWhile_sublist _).subset hc)
      refine andThen_ne_none (Option.some_ne_none _) fun sec _ => ?_
      refine andThen_ne_none (parseTzOffset_ne_none hrest) fun tz _ => ?_
      refine andThen_ne_none ?_ fun _ _ => Option.some_ne_none _
      rw [Ne, daysSinceEpoch_eq_none_iff, not_and_not_right]
      intro _
      -- the year has four characters
      obtain ⟨m, hm, hfour⟩ := h.exists_slice (i := 0) (j := 4) (by omega) (by omega)
      unfold i64At at hyear
      rw [hm, Option.map_some] at hyear
      have hbounds := parseI64_bounds (Option.some.inj hyear)
      rw [hfour] at hbounds
      exact daysFit_of_lt hbounds.1 hbounds.2 _ _
    · exact Option.some_ne_none _

/-! ## Reset values that panic -/

/-- The HTTP date as which a reset value is read. -/
def readAsHttpDate (overflowChecks : Bool) (s : List Char) : Option HttpDate :=
  if parse s = none ∧ stripStart "PT".toList s = none ∧ stripStart "pt".toList s = none ∧
      parseIso8601ToUnix overflowChecks s = some none then httpDate s
  else none

/-- The date of a reset value, if it is an HTTP date, can be counted. -/
def DateFits (overflowChecks : Bool) (s : List Char) : Prop :=
  overflowChecks = true → ∀ date, readAsHttpDate overflowChecks s = some date →
    DaysFit date.year date.month date.day

theorem parseHttpDateToUnix_eq_none_iff :
    parseHttpDateToUnix overflowChecks s = none ↔ overflowChecks = true ∧
      ∃ date, httpDate s = some date ∧ ¬ DaysFit date.year date.month date.day := by
  have hdays (date : HttpDate) : andThen (daysSinceEpoch overflowChecks date.year date.month
        date.day) (fun days => some (some (((((f64 days).mul (f64 86400)).add
          (date.hour.mul (f64 3600))).add (date.minute.mul (f64 60))).add date.sec))) = none ↔
      overflowChecks = true ∧ ¬ DaysFit date.year date.month date.day := by
    rw [andThen_eq_none_iff, daysSinceEpoch_eq_none_iff]
    exact or_iff_left fun ⟨_, _, h⟩ => Option.some_ne_none _ h
  unfold parseHttpDateToUnix
  rw [andThen_eq_none_iff, or_iff_right (Option.some_ne_none _)]
  constructor
  · rintro ⟨date, hdate, hnone⟩
    obtain ⟨hchecks, hfits⟩ := (hdays date).mp hnone
    exact ⟨hchecks, date, Option.some.inj hdate, hfits⟩
  · rintro ⟨hchecks, date, hdate, hfits⟩
    exact ⟨date, congrArg some hdate, (hdays date).mpr ⟨hchecks, hfits⟩⟩

/-- **A reset value** panics where the days of its HTTP date do not fit. -/
theorem parseResetValue_eq_none_iff (h : IsAscii s) (now : SystemTime) :
    parseResetValue overflowChecks now s = none ↔ ¬ DateFits overflowChecks s := by
  have hread : ¬ DateFits overflowChecks s ↔ overflowChecks = true ∧
      ∃ date, readAsHttpDate overflowChecks s = some date ∧
        ¬ DaysFit date.year date.month date.day := by
    unfold DateFits
    push Not
    rfl
  rw [hread]
  unfold parseResetValue readAsHttpDate
  cases hnumber : parse s with
  | some v => exact iff_of_false (Option.some_ne_none _) (by simp)
  | none =>
    cases hupper : stripStart "PT".toList s with
    | some rest => exact iff_of_false (Option.some_ne_none _) (by simp)
    | none =>
      cases hlower : stripStart "pt".toList s with
      | some rest => exact iff_of_false (Option.some_ne_none _) (by simp)
      | none =>
        show parseDatetimeToSecsFromNow overflowChecks now s = none ↔ _
        unfold parseDatetimeToSecsFromNow
        cases hiso : parseIso8601ToUnix overflowChecks s with
        | none => exact absurd hiso (parseIso8601ToUnix_ne_none h _)
        | some iso =>
          cases iso with
          | some unix => exact iff_of_false (Option.some_ne_none _) (by simp)
          | none =>
            rw [if_pos ⟨rfl, rfl, rfl, rfl⟩, ← parseHttpDateToUnix_eq_none_iff]
            cases hhttp : parseHttpDateToUnix overflowChecks s with
            | none => exact iff_of_true rfl rfl
            | some http =>
              cases http with
              | some unix => exact iff_of_false (Option.some_ne_none _) (Option.some_ne_none _)
              | none => exact iff_of_false (Option.some_ne_none _) (Option.some_ne_none _)

end LibreFang.Drivers.RateLimit
