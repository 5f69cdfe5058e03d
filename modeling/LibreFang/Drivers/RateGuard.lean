import LibreFang.Drivers.ResetValue

/-!
# Lockouts from the headers of a response

A provider that is asked too often says in its headers how long to wait. The time until then is
written to a file for the provider and the key. The outer `none` stands for a panic.

* `fromHeaders`: the limits of a response; **`fromHeaders_eq_none_iff`**.
* `pickCooldown`: how long to wait; **`pickCooldown_add_eq_none_iff`**.
* `recordInner`: the file; **`recordInner_keeps`**: a longer lockout stays.
* `record429FromHeaders`: all of it; **`guarded_iff`**: it panics exactly where the time to wait is not a
  time any more, or the days of a date are not an `i64` with overflow checks.
-/

namespace LibreFang.Drivers.RateLimit

open Slices Floats

/-! ## The limits of a response -/

/-- Header values and their texts, which have ASCII characters only. -/
structure HeaderText (V : Type) where
  /-- `HeaderValue::to_str`. -/
  toStr : V → Option (List Char)
  ascii : ∀ v s, toStr v = some s → IsAscii s

/-- `RateLimitBucket`. -/
structure RateLimitBucket where
  limit : ℕ
  remaining : ℕ
  resetAfterSecs : F64
  capturedAt : ℕ
  deriving DecidableEq

/-- `has_data`. -/
def RateLimitBucket.hasData (bucket : RateLimitBucket) : Bool := 0 < bucket.limit

/-- `RateLimitSnapshot`. -/
structure RateLimitSnapshot where
  requestsPerMinute : RateLimitBucket
  requestsPerHour : RateLimitBucket
  tokensPerMinute : RateLimitBucket
  tokensPerHour : RateLimitBucket
  inputTokensPerMinute : RateLimitBucket
  deriving DecidableEq

/-- The headers of a bucket. -/
structure BucketKeys where
  limit : String
  remaining : String
  reset : String

def requests : BucketKeys :=
  ⟨"x-ratelimit-limit-requests", "x-ratelimit-remaining-requests", "x-ratelimit-reset-requests"⟩

def requests1h : BucketKeys :=
  ⟨"x-ratelimit-limit-requests-1h", "x-ratelimit-remaining-requests-1h",
    "x-ratelimit-reset-requests-1h"⟩

def tokens : BucketKeys :=
  ⟨"x-ratelimit-limit-tokens", "x-ratelimit-remaining-tokens", "x-ratelimit-reset-tokens"⟩

def tokens1h : BucketKeys :=
  ⟨"x-ratelimit-limit-tokens-1h", "x-ratelimit-remaining-tokens-1h",
    "x-ratelimit-reset-tokens-1h"⟩

def anthropicRequests : BucketKeys :=
  ⟨"anthropic-ratelimit-requests-limit", "anthropic-ratelimit-requests-remaining",
    "anthropic-ratelimit-requests-reset"⟩

def anthropicTokens : BucketKeys :=
  ⟨"anthropic-ratelimit-tokens-limit", "anthropic-ratelimit-tokens-remaining",
    "anthropic-ratelimit-tokens-reset"⟩

def anthropicInputTokens : BucketKeys :=
  ⟨"anthropic-ratelimit-input-tokens-limit", "anthropic-ratelimit-input-tokens-remaining",
    "anthropic-ratelimit-input-tokens-reset"⟩

/-- The name of a header about limits. -/
def isLimitName (name : List Char) : Bool :=
  "x-ratelimit-".toList.isPrefixOf name || "anthropic-ratelimit-".toList.isPrefixOf name

section Headers

variable {V : Type} (text : HeaderText V) (overflowChecks : Bool) (clock : String → SystemTime)
  (instant : ℕ) (headers : List (List Char × V))

/-- The headers that are texts, under their names in lower case. -/
def lowered : List (List Char × List Char) :=
  headers.filterMap fun header => (text.toStr header.2).map fun v => (header.1.map Char.toLower, v)

/-- The first header with this name. -/
def lookup (key : String) : Option (List Char) :=
  ((lowered text headers).find? fun header => header.1 = key.toList).map Prod.snd

/-- `get_u64`. -/
def getU64 (key : String) : ℕ :=
  (((lookup text headers key).bind fun v => parse (Text.trim v)).map F64.toU64).getD 0

/-- `get_f64`; `clock` has the time at which a date is read. -/
def getF64 (key : String) : Option F64 :=
  match lookup text headers key with
  | some v => (parseResetValue overflowChecks (clock key) (Text.trim v)).map fun reset =>
      reset.getD (.finite 0)
  | none => some (.finite 0)

/-- `make_bucket` with the headers that it is called for. -/
def makeBucket (keys : BucketKeys) : Option RateLimitBucket :=
  (getF64 text overflowChecks clock headers keys.reset).map fun reset =>
    ⟨getU64 text headers keys.limit, getU64 text headers keys.remaining, reset, instant⟩

/-- `RateLimitSnapshot::from_headers`. -/
def fromHeaders : Option (Option RateLimitSnapshot) :=
  let bucket := makeBucket text overflowChecks clock instant headers
  if (lowered text headers).any fun header => isLimitName header.1 then do
    let rpm ← bucket requests
    let rph ← bucket requests1h
    let tpm ← bucket tokens
    let tph ← bucket tokens1h
    let anthropicRpm ←
      (if 0 < getU64 text headers anthropicRequests.limit then bucket anthropicRequests
      else some rpm)
    let anthropicTpm ←
      (if 0 < getU64 text headers anthropicTokens.limit then bucket anthropicTokens
      else some tpm)
    let inputTpm ← bucket anthropicInputTokens
    return some ⟨anthropicRpm, rph, anthropicTpm, tph, inputTpm⟩
  else some none

/-- `Duration::from_secs`, in nanoseconds. -/
def fromSecs (secs : ℕ) : ℕ := secs * 1000000000

/-- `Duration::from_secs_f64`. -/
def fromSecsF64 : F64 → Option ℕ
  | .finite q =>
    if 0 ≤ q ∧ q < 18446744073709551616 then some (roundEven (q * 1000000000)).toNat else none
  | _ => none

/-- `SystemTime + Duration`. -/
def SystemTime.add (t : SystemTime) (nanos : ℕ) : Option SystemTime :=
  if h : t.1 + nanos < 9223372036854775808000000000 then
    some ⟨t.1 + nanos, le_trans t.2.1 (Int.le_add_of_nonneg_right (Int.natCast_nonneg _)), h⟩
  else none

/-- `DEFAULT_COOLDOWN`. -/
def defaultCooldown : ℕ := fromSecs 300

/-- `pick_cooldown`. -/
def pickCooldown (snapshot : Option RateLimitSnapshot) (retryAfter : Option ℕ) : Option ℕ :=
  let fallback :=
    match retryAfter with
    | some d => if d ≠ 0 then d else defaultCooldown
    | none => defaultCooldown
  match snapshot with
  | some snap =>
    let rph := snap.requestsPerHour.resetAfterSecs
    let rpm := snap.requestsPerMinute.resetAfterSecs
    if snap.requestsPerHour.hasData && (F64.finite 0).lt rph then fromSecsF64 rph
    else if snap.requestsPerMinute.hasData && (F64.finite 0).lt rpm then fromSecsF64 rpm
    else some fallback
  | none => some fallback

/-! ## The lockout files -/

/-- `StoredLockout`. -/
structure StoredLockout where
  provider : List Char
  untilUnix : ℕ
  reason : Option (List Char)
  deriving DecidableEq

/-- A file as it is read. -/
inductive LockoutFile
  | unreadable
  | corrupt
  | lockout (stored : StoredLockout)
  deriving DecidableEq

/-- The files by their names. -/
abbrev Files := List Char → Option LockoutFile

/-- What the disk does: `create_dir_all` and `write_atomic` succeed or fail. -/
structure Disk where
  dirCreated : Bool
  written : Bool

/-- `lockout_path`, below the directory of the lockouts. -/
def lockoutPath (provider keyId : List Char) : List Char :=
  (provider.map fun c => if c.isAlphanum || c = '-' || c = '_' then c else '_') ++ "__".toList ++
    keyId ++ ".json".toList

/-- `duration_since(UNIX_EPOCH)` in seconds, or 0. -/
def SystemTime.untilUnix (t : SystemTime) : ℕ := if 0 ≤ t.1 then (t.1 / 1000000000).toNat else 0

/-- `record_inner`; `none` is an error. -/
def recordInner (disk : Disk) (files : Files) (provider keyId : List Char) (stop : SystemTime)
    (reason : Option (List Char)) : Option Files :=
  let path := lockoutPath provider keyId
  let write : Option Files :=
    if disk.written then
      some (Function.update files path (some (.lockout ⟨provider, stop.untilUnix, reason⟩)))
    else none
  if disk.dirCreated then
    match files path with
    | some (.lockout existing) =>
      if stop.untilUnix < existing.untilUnix then some files else write
    | _ => write
  else none

/-- `record`: an error is logged. -/
def record (disk : Disk) (files : Files) (provider keyId : List Char) (stop : SystemTime)
    (reason : Option (List Char)) : Files :=
  (recordInner disk files provider keyId stop reason).getD files

/-- `record_from_snapshot`. -/
def recordFromSnapshot (disk : Disk) (files : Files) (now : SystemTime) (provider keyId : List Char)
    (snapshot : Option RateLimitSnapshot) (retryAfter : Option ℕ) (reason : Option (List Char)) :
    Option Files :=
  (pickCooldown snapshot retryAfter).bind fun cooldown =>
    (now.add cooldown).map fun stop => record disk files provider keyId stop reason

/-- `retry-after` in whole seconds. -/
def retryAfterOf : ℕ :=
  let value := (headers.find? fun header => header.1.map Char.toLower = "retry-after".toList).map
    Prod.snd
  match (value.bind text.toStr).map Text.parseU64 with
  | some (.ok secs) => fromSecs secs
  | _ => 0

/-- `record_429_from_headers`. -/
def record429FromHeaders (disk : Disk) (files : Files) (now : SystemTime)
    (provider keyId : List Char) (reason : List Char) : Option (ℕ × Files) :=
  let retryAfter := retryAfterOf text headers
  (fromHeaders text overflowChecks clock instant headers).bind fun snap =>
    (recordFromSnapshot disk files now provider keyId snap (some retryAfter) (some reason)).map
      fun files => (retryAfter, files)

/-! ## Headers that are read without a panic -/

/-- The headers whose reset values are read. -/
def readKeys : List BucketKeys :=
  [requests, requests1h, tokens, tokens1h] ++
    (if 0 < getU64 text headers anthropicRequests.limit then [anthropicRequests] else []) ++
    (if 0 < getU64 text headers anthropicTokens.limit then [anthropicTokens] else []) ++
    [anthropicInputTokens]

/-- The days of the dates that are read are an `i64`, with overflow checks. -/
def DatesFit : Prop :=
  ∀ keys ∈ readKeys text headers, ∀ v, lookup text headers keys.reset = some v →
    DateFits overflowChecks (Text.trim v)

variable {text overflowChecks clock instant headers}

theorem isAscii_lookup {key : String} {v : List Char} (h : lookup text headers key = some v) :
    IsAscii v := by
  obtain ⟨⟨name, _⟩, hfind, rfl⟩ := Option.map_eq_some_iff.mp h
  obtain ⟨header, -, hheader⟩ := List.mem_filterMap.mp (List.mem_of_find?_eq_some hfind)
  obtain ⟨w, hw, heq⟩ := Option.map_eq_some_iff.mp hheader
  rw [← (Prod.mk.inj heq).2]
  exact text.ascii _ _ hw

theorem lookup_eq_none {key : String}
    (hnone : ((lowered text headers).any fun header => isLimitName header.1) = false)
    (hkey : isLimitName key.toList = true) : lookup text headers key = none := by
  unfold lookup
  rw [Option.map_eq_none_iff, List.find?_eq_none]
  intro header hmem heq
  have hname : header.1 = key.toList := of_decide_eq_true heq
  have hfalse := List.any_eq_false.mp hnone header hmem
  rw [hname] at hfalse
  exact hfalse hkey

theorem makeBucket_eq_none_iff {keys : BucketKeys} :
    makeBucket text overflowChecks clock instant headers keys = none ↔
      ∃ v, lookup text headers keys.reset = some v ∧ ¬ DateFits overflowChecks (Text.trim v) := by
  unfold makeBucket getF64
  rw [Option.map_eq_none_iff]
  cases hlookup : lookup text headers keys.reset with
  | none => exact iff_of_false (Option.some_ne_none _) fun ⟨_, h, _⟩ => by cases h
  | some v =>
    have hascii : IsAscii (Text.trim v) :=
      (isAscii_lookup hlookup).of_subset fun c hc => Text.mem_of_mem_trim hc
    dsimp only
    rw [Option.map_eq_none_iff, parseResetValue_eq_none_iff hascii]
    exact ⟨fun h => ⟨v, rfl, h⟩, fun ⟨w, hw, h⟩ => Option.some.inj hw ▸ h⟩

theorem bind_eq_none_iff_or {α β : Type} {x : Option α} {f : α → Option β} {p q : Prop}
    (hx : x = none ↔ p) (hf : ∀ a, f a = none ↔ q) : x.bind f = none ↔ p ∨ q := by
  rw [← hx]
  cases x with
  | none => exact iff_of_true rfl (.inl rfl)
  | some a => exact (hf a).trans (or_iff_right (Option.some_ne_none a)).symm

theorem ite_eq_none_iff {α : Type} {c : Prop} [Decidable c] {x : Option α} {a : α} :
    (if c then x else some a) = none ↔ c ∧ x = none := by
  by_cases hc : c
  · rw [if_pos hc, and_iff_right hc]
  · rw [if_neg hc]
    exact iff_of_false (Option.some_ne_none a) fun h => hc h.1

theorem isLimitName_keys : ∀ keys ∈ [requests, requests1h, tokens, tokens1h, anthropicRequests,
    anthropicTokens, anthropicInputTokens],
      isLimitName keys.limit.toList = true ∧ isLimitName keys.reset.toList = true := by
  decide

theorem mem_of_mem_readKeys {keys : BucketKeys} (h : keys ∈ readKeys text headers) :
    keys ∈ [requests, requests1h, tokens, tokens1h, anthropicRequests, anthropicTokens,
      anthropicInputTokens] := by
  unfold readKeys at h
  simp only [List.mem_append, List.mem_ite_nil_right, List.mem_cons, List.not_mem_nil, or_false]
    at h ⊢
  tauto

/-- **Headers panic** where the days of a date that is read do not fit. -/
theorem fromHeaders_eq_none_iff :
    fromHeaders text overflowChecks clock instant headers = none ↔
      ¬ DatesFit text overflowChecks headers := by
  have hfit : ¬ DatesFit text overflowChecks headers ↔ ∃ keys ∈ readKeys text headers,
      makeBucket text overflowChecks clock instant headers keys = none := by
    unfold DatesFit
    simp only [makeBucket_eq_none_iff, not_forall, exists_prop]
  unfold fromHeaders
  cases hany : (lowered text headers).any fun header => isLimitName header.1 with
  | false =>
    rw [if_neg Bool.false_ne_true]
    refine iff_of_false (Option.some_ne_none _) fun h => h fun keys hkeys v hlookup => ?_
    rw [lookup_eq_none hany (isLimitName_keys keys (mem_of_mem_readKeys hkeys)).2] at hlookup
    cases hlookup
  | true =>
    rw [if_pos rfl, hfit]
    refine (bind_eq_none_iff_or Iff.rfl fun rpm => bind_eq_none_iff_or Iff.rfl fun rph =>
      bind_eq_none_iff_or Iff.rfl fun tpm => bind_eq_none_iff_or Iff.rfl fun tph =>
      bind_eq_none_iff_or (ite_eq_none_iff (c := 0 < getU64 text headers anthropicRequests.limit))
        fun _ => bind_eq_none_iff_or
          (ite_eq_none_iff (c := 0 < getU64 text headers anthropicTokens.limit))
          fun _ => bind_eq_none_iff_or Iff.rfl fun _ => iff_of_false (Option.some_ne_none _) id).trans
      ?_
    unfold readKeys
    simp only [List.mem_append, List.mem_ite_nil_right, List.mem_cons, List.not_mem_nil, or_false,
      or_and_right, exists_or, exists_eq_left, and_assoc, exists_and_left, or_assoc]

/-! ## The time that is waited -/

/-- What is waited, before it is made a duration. -/
inductive Wait
  | secs (x : F64)
  | nanos (d : ℕ)

/-- The hour comes first, then the minute, `retry-after` and the default. -/
def waitOf (hour minute : RateLimitBucket) (retryAfter : ℕ) : Wait :=
  if 0 < hour.limit ∧ (F64.finite 0).lt hour.resetAfterSecs = true then .secs hour.resetAfterSecs
  else if 0 < minute.limit ∧ (F64.finite 0).lt minute.resetAfterSecs = true then
    .secs minute.resetAfterSecs
  else if retryAfter ≠ 0 then .nanos retryAfter
  else .nanos defaultCooldown

/-- Until then there is a time. -/
def Wait.Fits (now : SystemTime) : Wait → Prop
  | secs x => ∃ q, x = .finite q ∧
      now.1 + roundEven (q * 1000000000) < 9223372036854775808000000000
  | nanos d => now.1 + d < 9223372036854775808000000000

theorem SystemTime.add_eq_none_iff {t : SystemTime} {nanos : ℕ} :
    t.add nanos = none ↔ ¬ t.1 + nanos < 9223372036854775808000000000 := by
  unfold SystemTime.add
  split
  · rename_i h
    exact iff_of_false (Option.some_ne_none _) fun hnot => hnot h
  · rename_i h
    exact iff_of_true rfl h

theorem fromSecsF64_add_eq_none_iff {x : F64} (h : (F64.finite 0).lt x = true)
    (now : SystemTime) : (fromSecsF64 x).bind now.add = none ↔ ¬ (Wait.secs x).Fits now := by
  rcases F64.zero_lt h with rfl | ⟨q, rfl, hq⟩
  · exact iff_of_true rfl fun ⟨q, hinfinite, _⟩ => by cases hinfinite
  · have hfloor := floor_le_roundEven (q * 1000000000)
    have hfits : (Wait.secs (.finite q)).Fits now ↔
        now.1 + roundEven (q * 1000000000) < 9223372036854775808000000000 :=
      ⟨fun ⟨_, heq, hlt⟩ => by cases heq; exact hlt, fun hlt => ⟨q, rfl, hlt⟩⟩
    rw [hfits, fromSecsF64]
    by_cases hbig : q < 18446744073709551616
    · have hnonneg : (0 : ℤ) ≤ roundEven (q * 1000000000) :=
        le_trans (Int.floor_nonneg.mpr (by positivity)) hfloor
      rw [if_pos ⟨le_of_lt hq, hbig⟩, Option.bind_some, SystemTime.add_eq_none_iff,
        Int.toNat_of_nonneg hnonneg]
    · -- from 2^64 seconds on there is no such time either
      have hlarge : (18446744073709551616000000000 : ℤ) ≤ ⌊q * 1000000000⌋ := by
        refine Int.le_floor.mpr ?_
        push_cast
        linarith
      have hnow := now.2.1
      rw [if_neg fun hsmall => hbig hsmall.2]
      exact iff_of_true rfl (by omega)

/-- The headers of the minute. -/
def minuteKeys (text : HeaderText V) (headers : List (List Char × V)) : BucketKeys :=
  if 0 < getU64 text headers anthropicRequests.limit then anthropicRequests else requests

variable (text overflowChecks clock instant headers) in
/-- There is a time until which the headers tell to wait. -/
def CooldownFits (now : SystemTime) : Prop :=
  ∀ hour minute, makeBucket text overflowChecks clock instant headers requests1h = some hour →
    makeBucket text overflowChecks clock instant headers (minuteKeys text headers) = some minute →
      (waitOf hour minute (retryAfterOf text headers)).Fits now

/-- **The cooldown** panics where there is no time until which to wait. -/
theorem pickCooldown_add_eq_none_iff (snap : RateLimitSnapshot) (retryAfter : ℕ)
    (now : SystemTime) : (pickCooldown (some snap) (some retryAfter)).bind now.add = none ↔
      ¬ (waitOf snap.requestsPerHour snap.requestsPerMinute retryAfter).Fits now := by
  unfold pickCooldown waitOf RateLimitBucket.hasData
  simp only [Bool.and_eq_true, decide_eq_true_eq]
  split
  · rename_i hhour
    exact fromSecsF64_add_eq_none_iff hhour.2 now
  · split
    · rename_i hminute
      exact fromSecsF64_add_eq_none_iff hminute.2 now
    · split
      · exact SystemTime.add_eq_none_iff
      · exact SystemTime.add_eq_none_iff

theorem buckets_of_fromHeaders {snap : RateLimitSnapshot}
    (h : fromHeaders text overflowChecks clock instant headers = some (some snap)) :
    makeBucket text overflowChecks clock instant headers requests1h = some snap.requestsPerHour ∧
      makeBucket text overflowChecks clock instant headers (minuteKeys text headers) =
        some snap.requestsPerMinute := by
  unfold fromHeaders at h
  split at h
  · simp only [Option.bind_eq_bind, Option.bind_eq_some_iff, Option.pure_def] at h
    obtain ⟨rpm, hrpm, rph, hrph, tpm, -, tph, -, minute, hminute, tpm', -, input, -, hsnap⟩ := h
    obtain rfl := Option.some.inj (Option.some.inj hsnap)
    refine ⟨hrph, ?_⟩
    unfold minuteKeys
    split at hminute
    · rename_i hlimit
      rwa [if_pos hlimit]
    · rename_i hlimit
      rwa [if_neg hlimit, hrpm]
  · cases Option.some.inj h

theorem getU64_eq_zero {key : String} (h : lookup text headers key = none) :
    getU64 text headers key = 0 := by
  unfold getU64
  rw [h]
  rfl

theorem buckets_of_none (h : fromHeaders text overflowChecks clock instant headers = some none) :
    ∃ hour minute, makeBucket text overflowChecks clock instant headers requests1h = some hour ∧
      makeBucket text overflowChecks clock instant headers (minuteKeys text headers) = some minute ∧
      hour.limit = 0 ∧ minute.limit = 0 := by
  have hany : ((lowered text headers).any fun header => isLimitName header.1) = false := by
    cases hany : (lowered text headers).any fun header => isLimitName header.1 with
    | false => rfl
    | true =>
      unfold fromHeaders at h
      rw [if_pos hany] at h
      simp only [Option.bind_eq_bind, Option.bind_eq_some_iff, Option.pure_def] at h
      obtain ⟨_, _, _, _, _, _, _, _, _, _, _, _, _, _, hsnap⟩ := h
      cases Option.some.inj hsnap
  have hempty (keys : BucketKeys) (hkeys : isLimitName keys.limit.toList = true ∧
      isLimitName keys.reset.toList = true) : ∃ bucket,
        makeBucket text overflowChecks clock instant headers keys = some bucket ∧
          bucket.limit = 0 := by
    unfold makeBucket getF64
    rw [lookup_eq_none hany hkeys.2]
    exact ⟨_, rfl, getU64_eq_zero (lookup_eq_none hany hkeys.1)⟩
  have hminute : minuteKeys text headers = requests := if_neg fun hpos =>
    absurd (getU64_eq_zero (lookup_eq_none hany (isLimitName_keys anthropicRequests (by simp)).1))
      (Nat.ne_of_gt hpos)
  obtain ⟨hour, hhour, hhourLimit⟩ := hempty requests1h (isLimitName_keys _ (by simp))
  obtain ⟨minute, hmin, hminLimit⟩ := hempty requests (isLimitName_keys _ (by simp))
  exact ⟨hour, minute, hhour, hminute ▸ hmin, hhourLimit, hminLimit⟩

theorem cooldown_eq_none_iff {snap : Option RateLimitSnapshot}
    (h : fromHeaders text overflowChecks clock instant headers = some snap) (now : SystemTime) :
    (pickCooldown snap (some (retryAfterOf text headers))).bind now.add = none ↔
      ¬ CooldownFits text overflowChecks clock instant headers now := by
  have hfits {hour minute : RateLimitBucket}
      (hhour : makeBucket text overflowChecks clock instant headers requests1h = some hour)
      (hminute : makeBucket text overflowChecks clock instant headers (minuteKeys text headers) =
        some minute) : CooldownFits text overflowChecks clock instant headers now ↔
          (waitOf hour minute (retryAfterOf text headers)).Fits now := by
    refine ⟨fun hall => hall hour minute hhour hminute, fun hfit hour' minute' hhour' hminute' => ?_⟩
    obtain rfl := Option.some.inj (hhour.symm.trans hhour')
    obtain rfl := Option.some.inj (hminute.symm.trans hminute')
    exact hfit
  cases snap with
  | some snap =>
    obtain ⟨hhour, hminute⟩ := buckets_of_fromHeaders h
    rw [hfits hhour hminute]
    exact pickCooldown_add_eq_none_iff snap _ now
  | none =>
    obtain ⟨hour, minute, hhour, hminute, hhourLimit, hminuteLimit⟩ := buckets_of_none h
    rw [hfits hhour hminute]
    unfold pickCooldown waitOf
    rw [if_neg fun hdata => absurd hhourLimit (Nat.ne_of_gt hdata.1),
      if_neg fun hdata => absurd hminuteLimit (Nat.ne_of_gt hdata.1)]
    dsimp only
    rw [Option.bind_some]
    split
    · exact SystemTime.add_eq_none_iff
    · exact SystemTime.add_eq_none_iff

/-! ## Lockouts that are kept -/

/-- A lockout that has not expired is kept, or a longer one is written. -/
def Keeps (now : SystemTime) (path : List Char) (files files' : Files) : Prop :=
  ∀ stored, files path = some (.lockout stored) → now.untilUnix < stored.untilUnix →
    ∃ stored', files' path = some (.lockout stored') ∧ stored.untilUnix ≤ stored'.untilUnix

theorem record_keeps (disk : Disk) (files : Files) (now stop : SystemTime)
    (provider keyId : List Char) (reason : Option (List Char)) :
    Keeps now (lockoutPath provider keyId) files
      (record disk files provider keyId stop reason) := by
  intro stored hstored _
  unfold record recordInner
  dsimp only
  rw [hstored]
  dsimp only
  split
  · split
    · exact ⟨stored, hstored, le_rfl⟩
    · rename_i hnew
      split
      · exact ⟨_, Function.update_self .., Nat.le_of_not_lt hnew⟩
      · exact ⟨stored, hstored, le_rfl⟩
  · exact ⟨stored, hstored, le_rfl⟩

theorem recordFromSnapshot_eq (disk : Disk) (files : Files) (now : SystemTime)
    (provider keyId : List Char) (snapshot : Option RateLimitSnapshot) (retryAfter : Option ℕ)
    (reason : Option (List Char)) :
    recordFromSnapshot disk files now provider keyId snapshot retryAfter reason =
      ((pickCooldown snapshot retryAfter).bind now.add).map fun stop =>
        record disk files provider keyId stop reason := by
  unfold recordFromSnapshot
  cases pickCooldown snapshot retryAfter with
  | none => rfl
  | some cooldown => rfl

variable (text overflowChecks clock instant headers) in
/-- Headers are read without a panic, and a lockout is kept. -/
structure Guarded (disk : Disk) (files : Files) (now : SystemTime)
    (provider keyId reason : List Char) : Prop where
  read : ∃ snap, fromHeaders text overflowChecks clock instant headers = some snap
  recorded : ∃ retryAfter files', record429FromHeaders text overflowChecks clock instant headers disk
    files now provider keyId reason = some (retryAfter, files') ∧
      Keeps now (lockoutPath provider keyId) files files'

/-- **Headers that never panic**: exactly those whose time to wait is a time, and whose dates have
days in an `i64` where overflows are checked. -/
theorem guarded_iff (text : HeaderText V) (overflowChecks : Bool) (clock : String → SystemTime)
    (instant : ℕ) (headers : List (List Char × V)) (disk : Disk) (files : Files) (now : SystemTime)
    (provider keyId reason : List Char) :
    Guarded text overflowChecks clock instant headers disk files now provider keyId reason ↔
      DatesFit text overflowChecks headers ∧
        CooldownFits text overflowChecks clock instant headers now := by
  constructor
  · rintro ⟨⟨snap, hsnap⟩, retryAfter, files', hrecord, -⟩
    refine ⟨?_, ?_⟩
    · by_contra hdates
      rw [fromHeaders_eq_none_iff.mpr hdates] at hsnap
      cases hsnap
    · by_contra hcooldown
      have hnone := (cooldown_eq_none_iff hsnap now).mpr hcooldown
      unfold record429FromHeaders at hrecord
      rw [hsnap, Option.bind_some, recordFromSnapshot_eq, hnone] at hrecord
      cases hrecord
  · rintro ⟨hdates, hcooldown⟩
    obtain ⟨snap, hsnap⟩ : ∃ snap, fromHeaders text overflowChecks clock instant headers =
        some snap := Option.ne_none_iff_exists'.mp fun hnone =>
      fromHeaders_eq_none_iff.mp hnone hdates
    obtain ⟨stop, hstop⟩ := Option.ne_none_iff_exists'.mp fun hnone =>
      (cooldown_eq_none_iff hsnap now).mp hnone hcooldown
    refine ⟨⟨snap, hsnap⟩, retryAfterOf text headers, _, ?_, record_keeps disk files now stop
      provider keyId (some reason)⟩
    unfold record429FromHeaders
    rw [hsnap, Option.bind_some, recordFromSnapshot_eq, hstop]
    rfl

end Headers

/-- Texts of visible ASCII characters and tabs. -/
def visibleAscii : HeaderText (List Char) where
  toStr v := if v.all fun c => c = '\t' || 32 ≤ c.toNat && c.toNat < 127 then some v else none
  ascii v s h := by
    split at h
    · rename_i hvisible
      obtain rfl := Option.some.inj h
      intro c hc
      have hrange := List.all_eq_true.mp hvisible c hc
      simp only [Bool.or_eq_true, Bool.and_eq_true, decide_eq_true_eq] at hrange
      refine Char.utf8Size_eq_one_iff.mpr ?_
      rcases hrange with rfl | hrange
      · decide
      · show c.toNat ≤ 127
        omega
    · cases h

/-- The 14th of November 2023. -/
def november : SystemTime := ⟨1700000000000000000, by decide⟩

/-- An infinite reset value is no duration. -/
theorem infinite_reset_panics : ¬ Guarded visibleAscii false (fun _ => november) 0
    [("x-ratelimit-limit-requests".toList, "1".toList),
      ("x-ratelimit-reset-requests".toList, "inf".toList)]
    ⟨true, true⟩ (fun _ => none) november "openai".toList "k".toList "429".toList := by
  rintro ⟨-, retryAfter, files', hrecord, -⟩
  have hnone : (record429FromHeaders visibleAscii false (fun _ => november) 0
      [("x-ratelimit-limit-requests".toList, "1".toList),
        ("x-ratelimit-reset-requests".toList, "inf".toList)]
      ⟨true, true⟩ (fun _ => none) november "openai".toList "k".toList "429".toList).isSome =
        false := by decide +kernel
  rw [hrecord] at hnone
  cases hnone

end LibreFang.Drivers.RateLimit
