import Mathlib.Algebra.Order.BigOperators.Group.List
import LibreFang.Lib.Runs
import LibreFang.Usage.Windows

/-!
# Rows in a window

* `Window.Contains`: an instant lies in a window.
* `Fits`: an instant that all three windows count as they should.
* **`includes_iff_contains`**: a row is included as its instant lies in the windows if and only if
  it fits.
* `MeterOp`, `step`: what happens to the rows; **`hourlyTokens_lt`**: where all rows of a provider
  pass the check, its tokens in the last hour stay below their limit.
-/

namespace LibreFang.Usage

open Calendar

/-- The first instant of the month of an instant. -/
def monthStart (t : Time) : Time := (t / dayNanos + 1 - (dateOf t).day) * dayNanos

/-- An instant lies within the last 3600 seconds, or not before the UTC day or the UTC month of
`now` began. -/
def Window.Contains (w : Window) (now t : Time) : Prop :=
  match w with
  | hourly => now ≤ t + hourNanos ∧ t ≤ now
  | daily => now / dayNanos * dayNanos ≤ t
  | monthly => monthStart now ≤ t

instance (w : Window) (now t : Time) : Decidable (w.Contains now t) :=
  match w with
  | .hourly => inferInstanceAs (Decidable (_ ∧ _))
  | .daily => inferInstanceAs (Decidable (_ ≤ _))
  | .monthly => inferInstanceAs (Decidable (_ ≤ _))

/-- The date of an hour before. -/
def hourBefore (now : Time) : Date := eve.after ((now + dayNanos - hourNanos) / dayNanos)

/-- An instant on the UTC day of an hour before `now`, but earlier than that hour. -/
def Stale (now t : Time) : Prop :=
  t + hourNanos < now ∧ t / dayNanos = (now - hourNanos) / dayNanos

/-- Before the year 10000: the instant is not after `now`, and not stale. Later, SQLite compares
with nothing: the instant lies in no window, but for an hour that began before the year did. -/
def Fits (now t : Time) : Prop :=
  if (dateOf now).year < 10000 then t ≤ now ∧ ¬ Stale now t
  else if (hourBefore now).year < 10000 then t < monthStart now ∧ ¬ Stale now t
  else t < monthStart now ∧ ¬ Window.hourly.Contains now t

instance (now t : Time) : Decidable (Stale now t) := inferInstanceAs (Decidable (_ ∧ _))

instance (now t : Time) : Decidable (Fits now t) := by
  unfold Fits
  infer_instance

/-! ## Dates -/

theorem bound_lt_iff {m n : ℕ} (s t : List Char) (hm : (eve.after m).year < 10000) :
    dateText ['-'] (eve.after m) ++ ' ' :: s < dateText ['-'] (eve.after n) ++ 'T' :: t ↔
      (eve.after n).year < 10000 ∧ m ≤ n := by
  by_cases hn : (eve.after n).year < 10000
  · have hwidth : yearWidth (eve.after m).year = yearWidth (eve.after n).year :=
      (yearWidth_eq_four.mpr hm).trans (yearWidth_eq_four.mpr hn).symm
    rw [dateText_append_lt (eve_valid.after m) (eve_valid.after n) hwidth, Date.before_after_iff,
      and_iff_right hn, Nat.le_iff_lt_or_eq]
    refine or_congr_right ⟨fun h => Date.after_injective eve h.1, fun h => ⟨by rw [h], ?_⟩⟩
    exact List.cons_lt_cons_iff.mpr (.inl (by decide))
  · refine iff_of_false ?_ fun h => hn h.1
    unfold dateText
    rw [List.append_assoc, List.append_assoc _ _ ('T' :: t)]
    exact not_yearText_lt hm hn _ _

variable {now t : Time}

theorem includes_of_boundary {w : Window} {n second : ℕ}
    (h : boundary now w = (eve.after n, second)) :
    includes now w (toRfc3339 t) = true ↔
      (eve.after n).year < 10000 ∧ (dateOf t).year < 10000 ∧ n ≤ t / dayNanos + 1 := by
  unfold includes datetime
  rw [h]
  dsimp only
  by_cases hyear : (eve.after n).year < 10000
  · rw [if_pos hyear, and_iff_right hyear]
    dsimp only
    rw [decide_eq_true_iff]
    exact bound_lt_iff _ _ hyear
  · rw [if_neg hyear]
    exact iff_of_false Bool.false_ne_true fun h => hyear h.1

theorem hour_in_millis (n : ℕ) : (n / 1000000 + 86400000 - 3600000) / 86400000 =
    (n + 86400000000000 - 3600000000000) / 86400000000000 := by
  omega

theorem boundary_hourly (now : Time) : boundary now .hourly =
    (hourBefore now, (now / 1000000 + 86400000 - 3600000) / 1000 % 86400) := by
  unfold boundary hourBefore dayNanos hourNanos
  dsimp only
  rw [hour_in_millis]

theorem day_index {n d : ℕ} (hd : d ≤ n + 1) (hpos : 1 ≤ d) : n + 1 - (d - 1) = n + 1 - d + 1 := by
  omega

theorem firstDay_eq (now : Time) :
    { dateOf now with day := 1 } = eve.after (now / dayNanos + 1 - (dateOf now).day + 1) := by
  have hday : (dateOf now).day ≤ now / dayNanos + 1 :=
    @Date.day_after_le eve rfl (now / dayNanos)
  have hpos := (dateOf_valid now).day_pos
  have hsub := Date.after_sub eve (n := now / dayNanos + 1) (k := (dateOf now).day - 1)
    (Nat.le_trans (Nat.sub_le _ _) hday) (Nat.sub_lt hpos (by decide))
  rw [day_index hday hpos] at hsub
  rw [hsub]
  change _ = { dateOf now with day := (dateOf now).day - ((dateOf now).day - 1) }
  rw [Nat.sub_sub_self hpos]

/-! ## What a query includes -/

theorem includes_hourly (now t : Time) : includes now .hourly (toRfc3339 t) = true ↔
    (hourBefore now).year < 10000 ∧ (dateOf t).year < 10000 ∧
      (now + dayNanos - hourNanos) / dayNanos ≤ t / dayNanos + 1 :=
  includes_of_boundary (boundary_hourly now)

theorem includes_daily (now t : Time) : includes now .daily (toRfc3339 t) = true ↔
    (dateOf now).year < 10000 ∧ (dateOf t).year < 10000 ∧ now / dayNanos ≤ t / dayNanos := by
  rw [includes_of_boundary (n := now / dayNanos + 1) rfl, Nat.add_le_add_iff_right]
  rfl

theorem includes_monthly (now t : Time) : includes now .monthly (toRfc3339 t) = true ↔
    (dateOf now).year < 10000 ∧ (dateOf t).year < 10000 ∧ monthStart now ≤ t := by
  rw [includes_of_boundary (congrArg (·, 0) (firstDay_eq now)), ← firstDay_eq,
    Nat.add_le_add_iff_right, Nat.le_div_iff_mul_le (by decide)]
  rfl

theorem contains_daily (now t : Time) :
    Window.daily.Contains now t ↔ now / dayNanos ≤ t / dayNanos :=
  (Nat.le_div_iff_mul_le (by decide)).symm

theorem hour_of_text {n m : ℕ} (h : m ≤ n) :
    (n + 86400000000000 - 3600000000000) / 86400000000000 ≤ m / 86400000000000 + 1 ↔
      n ≤ m + 3600000000000 ∨
        m + 3600000000000 < n ∧ m / 86400000000000 = (n - 3600000000000) / 86400000000000 := by
  omega

theorem hourly_of_le (h : t ≤ now) :
    (now + dayNanos - hourNanos) / dayNanos ≤ t / dayNanos + 1 ↔
      now ≤ t + hourNanos ∨ Stale now t := hour_of_text h

theorem year_lt_of_le {t u : Time} (h : t ≤ u) (hu : (dateOf u).year < 10000) :
    (dateOf t).year < 10000 :=
  Nat.lt_of_le_of_lt (year_le (Nat.div_le_div_right h)) hu

theorem monthStart_le (now : Time) : monthStart now ≤ now := by
  refine Nat.le_trans (Nat.mul_le_mul_right _ ?_) (Nat.div_mul_le_self now dayNanos)
  have hpos := (dateOf_valid now).day_pos
  generalize (now / dayNanos : ℕ) = n
  omega

theorem hourBefore_index (n : ℕ) :
    n / 86400000000000 ≤ (n + 86400000000000 - 3600000000000) / 86400000000000 ∧
      (n + 86400000000000 - 3600000000000) / 86400000000000 ≤ n / 86400000000000 + 1 := by
  omega

theorem index_lt_of_lt_monthStart (h : t < monthStart now) : t / dayNanos + 1 ≤ now / dayNanos := by
  have hlt := (Nat.div_lt_iff_lt_mul (by decide)).mpr h
  exact Nat.lt_of_lt_of_le hlt (Nat.sub_le_sub_left (dateOf_valid now).day_pos _)

theorem stale_includes (h : Stale now t) (hbefore : (hourBefore now).year < 10000)
    (hrow : (dateOf t).year < 10000) : ¬ ∀ w, includes now w (toRfc3339 t) = true ↔
      w.Contains now t := by
  intro hall
  have hle : t ≤ now := Nat.le_of_lt (Nat.lt_of_le_of_lt (Nat.le_add_right _ _) h.1)
  have hincluded := (includes_hourly now t).mpr ⟨hbefore, hrow, (hourly_of_le hle).mpr (.inr h)⟩
  exact Nat.not_lt.mpr ((hall .hourly).mp hincluded).1 h.1

theorem includes_iff_of_year (hyear : (dateOf now).year < 10000) :
    (∀ w, includes now w (toRfc3339 t) = true ↔ w.Contains now t) ↔ t ≤ now ∧ ¬ Stale now t := by
  have hbefore : (hourBefore now).year < 10000 :=
    Nat.lt_of_le_of_lt (Date.year_le_of_le eve (hourBefore_index now).2) hyear
  constructor
  · intro h
    have hle : t ≤ now := by
      by_contra hlt
      have hnow := Nat.le_of_lt (Nat.not_le.mp hlt)
      have hindex : now / dayNanos ≤ t / dayNanos := Nat.div_le_div_right hnow
      have hrow := ((includes_daily now t).mp ((h .daily).mpr ((contains_daily now t).mpr hindex))).2.1
      have hincluded := (includes_hourly now t).mpr ⟨hbefore, hrow,
        Nat.le_trans (hourBefore_index now).2 (Nat.succ_le_succ hindex)⟩
      exact hlt ((h .hourly).mp hincluded).2
    exact ⟨hle, fun hstale => stale_includes hstale hbefore (year_lt_of_le hle hyear) h⟩
  · rintro ⟨hle, hstale⟩ w
    have hrow := year_lt_of_le hle hyear
    cases w with
    | hourly =>
      rw [includes_hourly, and_iff_right hbefore, and_iff_right hrow, hourly_of_le hle,
        or_iff_left hstale]
      exact (and_iff_left hle).symm
    | daily =>
      rw [includes_daily, and_iff_right hyear, and_iff_right hrow, contains_daily]
    | monthly =>
      rw [includes_monthly, and_iff_right hyear, and_iff_right hrow]
      rfl

theorem not_includes_of_year (hyear : ¬ (dateOf now).year < 10000) {w : Window}
    (hw : w ≠ .hourly) : ¬ includes now w (toRfc3339 t) = true := by
  cases w with
  | hourly => exact absurd rfl hw
  | daily => exact fun h => hyear ((includes_daily now t).mp h).1
  | monthly => exact fun h => hyear ((includes_monthly now t).mp h).1

theorem includes_iff_hourly (hyear : ¬ (dateOf now).year < 10000) :
    (∀ w, includes now w (toRfc3339 t) = true ↔ w.Contains now t) ↔
      t < monthStart now ∧
        (includes now .hourly (toRfc3339 t) = true ↔ Window.hourly.Contains now t) := by
  constructor
  · intro h
    refine ⟨Nat.lt_of_not_le fun hle => ?_, h .hourly⟩
    exact not_includes_of_year hyear (by decide) ((h .monthly).mpr hle)
  · rintro ⟨hlt, hhourly⟩ w
    cases w with
    | hourly => exact hhourly
    | daily =>
      refine iff_of_false (not_includes_of_year hyear (by decide)) fun h => ?_
      exact Nat.not_succ_le_self _ (Nat.le_trans (index_lt_of_lt_monthStart hlt)
        ((contains_daily now t).mp h))
    | monthly =>
      exact iff_of_false (not_includes_of_year hyear (by decide)) (Nat.not_le_of_lt hlt)

/-- **The queries are right for an instant if and only if it fits.** -/
theorem includes_iff_fits (now t : Time) :
    (∀ w, includes now w (toRfc3339 t) = true ↔ w.Contains now t) ↔ Fits now t := by
  unfold Fits
  split_ifs with hyear hbefore
  · exact includes_iff_of_year hyear
  · rw [includes_iff_hourly hyear]
    refine and_congr_right fun hlt => ?_
    have hle := Nat.le_trans (Nat.le_of_lt hlt) (monthStart_le now)
    have hrow : (dateOf t).year < 10000 := Nat.lt_of_le_of_lt (Date.year_le_of_le eve
      (Nat.le_trans (index_lt_of_lt_monthStart hlt) (hourBefore_index now).1)) hbefore
    rw [includes_hourly, and_iff_right hbefore, and_iff_right hrow, hourly_of_le hle]
    constructor
    · exact fun h hstale => Nat.not_lt.mpr (h.mp (.inr hstale)).1 hstale.1
    · exact fun hstale => by
        rw [or_iff_left hstale]
        exact (and_iff_left hle).symm
  · rw [includes_iff_hourly hyear]
    refine and_congr_right fun _ => ?_
    have hnone : ¬ includes now .hourly (toRfc3339 t) = true := fun h =>
      hbefore ((includes_hourly now t).mp h).1
    exact ⟨fun h hcontains => hnone (h.mpr hcontains), fun h => iff_of_false hnone h⟩

section Store

variable {Cost : Type}

/-- The row of a record that is inserted at an instant. -/
def rowOf (r : UsageRecord Cost × Time) : UsageEvent Cost := ⟨r.1, toRfc3339 r.2⟩

theorem mem_selected {rows : List (UsageEvent Cost)} {e : UsageEvent Cost} (he : e ∈ rows)
    {scope : Scope} (hscope : scope.matchesRow e) (now : Time) (w : Window) :
    e ∈ selected rows scope now w ↔ includes now w e.timestamp = true := by
  unfold selected
  rw [List.mem_filter, Bool.and_eq_true, and_iff_right he, and_iff_right hscope]

/-- **The sums take a row as its instant lies in the window, for all rows, if and only if all rows
fit.** -/
theorem mem_selected_iff (records : List (UsageRecord Cost × Time)) (now : Time) :
    (∀ r ∈ records, ∀ scope : Scope, scope.matchesRow (rowOf r) → ∀ w,
      (rowOf r ∈ selected (records.map rowOf) scope now w ↔ w.Contains now r.2)) ↔
    ∀ r ∈ records, Fits now r.2 := by
  refine forall₂_congr fun r hr => ?_
  have hrow := List.mem_map_of_mem (f := rowOf) hr
  rw [← includes_iff_fits]
  constructor
  · exact fun h w => (mem_selected hrow rfl now w).symm.trans (h .global rfl w)
  · exact fun h scope hscope w => (mem_selected hrow hscope now w).trans (h w)

/-- At half past two in the night, the sum of the last hour takes a row of ten past midnight. -/
theorem hourly_takes_the_day :
    let row := @rowOf ℕ (⟨"agent", "provider", 10, 10, 1⟩, 600000000000)
    row ∈ selected [row] (.agent "agent") 9000000000000 .hourly ∧
      ¬ Window.hourly.Contains 9000000000000 600000000000 := by
  decide

/-! ## Token budgets -/

/-- The tokens of a provider in the rows of the last hour. -/
def hourlyTokens (rows : List (UsageEvent Cost)) (provider : String) (now : Time) : ℕ :=
  ((selected rows (.provider provider) now .hourly).map fun e => e.inputTokens + e.outputTokens).sum

/-- The rows, and the last time that a check of tokens has read. -/
structure Meter (Cost : Type) where
  rows : List (UsageEvent Cost)
  read : Time

/-- `record`, `check_all_with_provider_and_record`, and `cleanup_old` or `remove_agent` with the rows
that they keep. -/
inductive MeterOp (Cost : Type)
  | record (record : UsageRecord Cost) (t : Time)
  | checked (clock : Clock) (record : UsageRecord Cost) (agent global provider : Limits Cost)
      (maxTokens : ℕ)
  | delete (keep : UsageEvent Cost → Bool)

/-- What an operation does; what fails is rolled back. -/
def step (host : Host Cost) (m : Meter Cost) : MeterOp Cost → Meter Cost
  | .record record t => { m with rows := insertRecord m.rows record t }
  | .checked clock record agent global provider maxTokens =>
    ⟨(checkAllWithProviderAndRecord host clock m.rows record agent global provider
      maxTokens).toOption.getD m.rows, clock.tokens⟩
  | .delete keep => { m with rows := m.rows.filter keep }

/-- The rows of a provider come from checks with its limit, and the clock does not go back. -/
def Checks (provider : String) (limit : ℕ) (m : Meter Cost) : MeterOp Cost → Prop
  | .record record _ => record.provider ≠ provider
  | .checked clock record _ _ _ maxTokens =>
    m.read ≤ clock.tokens ∧ (record.provider = provider → maxTokens = limit)
  | _ => True

/-- A sum of tokens that SQLite gives is exact: it fails when the sum overflows. -/
def Host.SumsTokens (host : Host Cost) : Prop :=
  ∀ tokens sum, (∀ t ∈ tokens, t.1 + t.2 < 2 ^ 63) → host.sumTokens tokens = .ok sum →
    sum = (((tokens.map fun t => t.1 + t.2).sum : ℕ) : ℤ)

/-- The budget holds. -/
structure Meter.Within (provider : String) (limit : ℕ) (m : Meter Cost) : Prop where
  texts : ∀ e ∈ m.rows, ∃ t, e.timestamp = toRfc3339 t
  small : ∀ e ∈ m.rows, e.provider = provider → e.inputTokens + e.outputTokens < limit
  within : hourlyTokens m.rows provider m.read < limit

variable {host : Host Cost} {rows rows' : List (UsageEvent Cost)} {provider : String} {limit : ℕ}

theorem includes_of_le {now later t : Time} (h : now ≤ later)
    (hlater : includes later .hourly (toRfc3339 t) = true) :
    includes now .hourly (toRfc3339 t) = true := by
  have hday : (now + dayNanos - hourNanos) / dayNanos ≤ (later + dayNanos - hourNanos) / dayNanos :=
    Nat.div_le_div_right (Nat.sub_le_sub_right (Nat.add_le_add_right h _) _)
  obtain ⟨hyear, hrow, hle⟩ := (includes_hourly later t).mp hlater
  exact (includes_hourly now t).mpr
    ⟨Nat.lt_of_le_of_lt (Date.year_le_of_le eve hday) hyear, hrow, hday.trans hle⟩

theorem hourlyTokens_antitone (htexts : ∀ e ∈ rows, ∃ t, e.timestamp = toRfc3339 t)
    {now later : Time} (h : now ≤ later) :
    hourlyTokens rows provider later ≤ hourlyTokens rows provider now := by
  have hkeep : selected rows (.provider provider) later .hourly =
      (selected rows (.provider provider) now .hourly).filter fun e =>
        includes later .hourly e.timestamp := by
    unfold selected
    rw [List.filter_filter]
    refine List.filter_congr fun e he => ?_
    obtain ⟨t, ht⟩ := htexts e he
    have himp := includes_of_le (t := t) h
    rw [ht]
    cases hl : includes later .hourly (toRfc3339 t) with
    | true => rw [himp hl, Bool.true_and]
    | false => rw [Bool.and_false, Bool.false_and]
  unfold hourlyTokens
  rw [hkeep]
  exact (List.filter_sublist.map _).sum_le_sum fun _ _ => Nat.zero_le _

theorem hourlyTokens_insertRecord (record : UsageRecord Cost) (t now : Time) :
    hourlyTokens (insertRecord rows record t) provider now ≤ hourlyTokens rows provider now +
      if record.provider = provider then record.inputTokens + record.outputTokens else 0 := by
  unfold hourlyTokens insertRecord selected
  rw [List.filter_append, List.map_append, List.sum_append]
  refine Nat.add_le_add_left ?_ _
  by_cases hprovider : record.provider = provider
  · rw [if_pos hprovider]
    exact ((List.filter_sublist.map _).sum_le_sum fun _ _ => Nat.zero_le _).trans
      (Nat.le_of_eq List.sum_singleton)
  · rw [List.filter_cons_of_neg]
    · exact Nat.zero_le _
    · simp [Scope.matchesRow, hprovider]

theorem bind_eq_ok {ε α β : Type} {x : Except ε α} {f : α → Except ε β} {b : β} :
    x >>= f = .ok b ↔ ∃ a, x = .ok a ∧ f a = .ok b := by
  cases x with
  | error e => simp [bind, Except.bind]
  | ok a => simp [bind, Except.bind]

theorem of_checked {clock : Clock} {record : UsageRecord Cost} {agent global limits : Limits Cost}
    {maxTokens : ℕ} (h : checkAllWithProviderAndRecord host clock rows record agent global limits
      maxTokens = .ok rows') :
    rows' = insertRecord rows record clock.insert ∧
      (record.provider ≠ "" → checkTokens host clock.tokens rows record maxTokens = .ok ()) := by
  unfold checkAllWithProviderAndRecord at h
  obtain ⟨_, _, h⟩ := bind_eq_ok.mp h
  obtain ⟨_, _, h⟩ := bind_eq_ok.mp h
  by_cases hnone : record.provider = ""
  · rw [if_neg (not_not.mpr hnone)] at h
    exact ⟨(Except.ok.inj h).symm, fun hne => absurd hnone hne⟩
  · rw [if_pos hnone] at h
    obtain ⟨_, _, h⟩ := bind_eq_ok.mp h
    obtain ⟨_, htokens, h⟩ := bind_eq_ok.mp h
    exact ⟨(Except.ok.inj h).symm, fun _ => htokens⟩

theorem hourlyTokens_of_checkTokens (hsum : host.SumsTokens) {now : Time}
    {record : UsageRecord Cost} (hpos : 0 < limit) (hlimit : limit ≤ 2 ^ 63)
    (hsmall : ∀ e ∈ rows, e.provider = record.provider → e.inputTokens + e.outputTokens < limit)
    (h : checkTokens host now rows record limit = .ok ()) :
    hourlyTokens rows record.provider now + (record.inputTokens + record.outputTokens) < limit := by
  unfold checkTokens at h
  rw [if_neg hpos.ne'] at h
  cases htokens : host.sumTokens ((selected rows (.provider record.provider) now .hourly).map
      fun e => (e.inputTokens, e.outputTokens)) with
  | error message =>
    rw [htokens] at h
    cases h
  | ok sum =>
    have hexact := hsum _ sum (fun t ht => by
      obtain ⟨e, he, rfl⟩ := List.mem_map.mp ht
      obtain ⟨he, hmatch⟩ := List.mem_filter.mp he
      have hprovider := (Bool.and_eq_true _ _ ▸ hmatch).1
      exact (hsmall e he (eq_of_beq hprovider)).trans_le hlimit) htokens
    rw [List.map_map] at hexact
    have hcurrent : sum = (hourlyTokens rows record.provider now : ℕ) := hexact
    rw [htokens] at h
    dsimp only at h
    split_ifs at h with hexceeded
    rw [hcurrent, Int.toNat_natCast] at hexceeded
    unfold saturatingAdd at hexceeded
    omega

theorem within_step (hprovider : provider ≠ "") (hpos : 0 < limit) (hlimit : limit ≤ 2 ^ 63)
    (hsum : host.SumsTokens) {m : Meter Cost} (op : MeterOp Cost) (h : m.Within provider limit)
    (hop : Checks provider limit m op) : (step host m op).Within provider limit := by
  have hinsert (record : UsageRecord Cost) (t read : Time) (hread : m.read ≤ read)
      (hnew : record.provider = provider → hourlyTokens m.rows provider read +
        (record.inputTokens + record.outputTokens) < limit) :
      Meter.Within provider limit ⟨insertRecord m.rows record t, read⟩ := by
    have hold := (hourlyTokens_antitone h.texts hread).trans_lt h.within
    refine ⟨List.forall_mem_append.mpr ⟨h.texts, List.forall_mem_singleton.mpr ⟨t, rfl⟩⟩,
      List.forall_mem_append.mpr ⟨h.small, List.forall_mem_singleton.mpr fun hrecord => ?_⟩,
      (hourlyTokens_insertRecord record t read).trans_lt ?_⟩
    · exact (Nat.le_add_left _ _).trans_lt (hnew hrecord)
    · split_ifs with hrecord
      · exact hnew hrecord
      · exact hold
  cases op with
  | record record t => exact hinsert record t m.read le_rfl fun hrecord => absurd hrecord hop
  | checked clock record agent global limits maxTokens =>
    unfold step
    dsimp only
    cases hcheck : checkAllWithProviderAndRecord host clock m.rows record agent global limits
        maxTokens with
    | error e =>
      exact ⟨h.texts, h.small, (hourlyTokens_antitone h.texts hop.1).trans_lt h.within⟩
    | ok rows' =>
      obtain ⟨rfl, htokens⟩ := of_checked hcheck
      refine hinsert record clock.insert clock.tokens hop.1 fun hrecord => ?_
      subst hrecord
      exact hourlyTokens_of_checkTokens hsum hpos hlimit h.small (hop.2 rfl ▸ htokens hprovider)
  | delete keep =>
    refine ⟨fun e he => h.texts e (List.mem_filter.mp he).1,
      fun e he => h.small e (List.mem_filter.mp he).1, Nat.lt_of_le_of_lt ?_ h.within⟩
    exact ((List.filter_sublist.filter _).map _).sum_le_sum fun _ _ => Nat.zero_le _

/-- **The tokens of a provider in the last hour stay below its limit** in every run in which all its
rows pass the check. -/
theorem hourlyTokens_lt (host : Host Cost) (hsum : host.SumsTokens) (provider : String)
    (hprovider : provider ≠ "") (limit : ℕ) (hpos : 0 < limit) (hlimit : limit ≤ 2 ^ 63)
    (ops : List (MeterOp Cost))
    (hops : Runs.Along (step host) (Checks provider limit) ⟨[], 0⟩ ops) (now : Time)
    (hnow : (Runs.after (step host) ⟨[], 0⟩ ops).read ≤ now) :
    hourlyTokens (Runs.after (step host) ⟨[], 0⟩ ops).rows provider now < limit := by
  have hnew : Meter.Within provider limit (⟨[], 0⟩ : Meter Cost) :=
    ⟨fun _ he => absurd he List.not_mem_nil, fun _ he => absurd he List.not_mem_nil, hpos⟩
  have hwithin := Runs.invariant
    (fun _ op h => within_step hprovider hpos hlimit hsum op h) hnew hops
  exact (hourlyTokens_antitone hwithin.texts hnow).trans_lt hwithin.within

/-- Exact sums. -/
def exactHost : Host ℕ :=
  ⟨List.sum, fun tokens => .ok (((tokens.map fun t => t.1 + t.2).sum : ℕ) : ℤ), (· + ·),
    fun a b => decide (b ≤ a), fun a => decide (0 < a), toString⟩

/-- Two calls of sixty tokens at one instant, of which the second is denied. -/
def twoCalls : List (MeterOp ℕ) :=
  List.replicate 2 (.checked ⟨fun _ _ => 5, 5, 5⟩ ⟨"agent", "provider", 40, 20, 1⟩ ⟨0, 0, 0⟩
    ⟨0, 0, 0⟩ ⟨0, 0, 0⟩ 100)

theorem hourlyTokens_twoCalls :
    hourlyTokens (Runs.after (step exactHost) ⟨[], 0⟩ twoCalls).rows "provider" 5 < 100 :=
  hourlyTokens_lt exactHost (fun tokens _ _ h => (Except.ok.inj h).symm) "provider" (by decide) 100
    (by decide) (by decide) twoCalls
    ⟨⟨Nat.zero_le _, fun _ => rfl⟩, ⟨Nat.le_refl _, fun _ => rfl⟩, trivial⟩ 5 (Nat.le_refl _)

end Store

end LibreFang.Usage
