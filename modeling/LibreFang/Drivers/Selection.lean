import Mathlib.Data.List.Dedup
import LibreFang.Drivers.CredentialPool
import LibreFang.Lib.Turns

/-!
# Which key is selected

* `Cooling`: a key has been refused, less than its time ago, and has not succeeded since.
* `Selects`: what a pool owes in every run: no key that is cooling down is handed out, none at all
  only if all are, and by turns every available key comes once in a round.
* **`selects_iff`**: a pool whose keys differ selects so. One with a repeated key does not: marking
  a key marks one entry, and the other one hands it out all the same.
-/

namespace LibreFang.Drivers.Credentials

variable {creds : List PooledCredential} {now : ℕ → ℕ} {key : String} {host : Host}

/-! ## One selection -/

theorem mem_availableEntries {x : PooledCredential × ℕ} :
    x ∈ availableEntries creds now ↔ creds[x.2]? = some x.1 ∧ x.1.isAvailable (now x.2) = true := by
  rw [availableEntries, List.mem_filter, List.mem_zipIdx_iff_getElem?]

theorem mem_available {i : ℕ} :
    i ∈ available creds now ↔ ∃ c, creds[i]? = some c ∧ c.isAvailable (now i) = true := by
  constructor
  · intro h
    obtain ⟨x, hx, rfl⟩ := List.mem_map.mp h
    exact ⟨x.1, mem_availableEntries.mp hx⟩
  · rintro ⟨c, hc⟩
    exact List.mem_map.mpr ⟨(c, i), mem_availableEntries.mpr hc, rfl⟩

/-- What a selection hands out: the key of an available entry; and nothing only if no entry is
available. -/
structure Picks (creds : List PooledCredential) (now : ℕ → ℕ) (result : Option String) : Prop where
  of_some : ∀ key, result = some key →
    ∃ i, ∃ c : PooledCredential,
      creds[i]? = some c ∧ c.isAvailable (now i) = true ∧ c.apiKey = key
  of_none : result = none → ∀ i, ∀ c : PooledCredential,
    creds[i]? = some c → c.isAvailable (now i) = false

theorem picks_of_choice {choice : Option (PooledCredential × ℕ)}
    (hmem : ∀ x ∈ choice, x ∈ availableEntries creds now)
    (hnone : choice = none → availableEntries creds now = []) :
    Picks creds now (choice.map fun x => x.1.apiKey) where
  of_some := by
    intro key h
    obtain ⟨x, hx, rfl⟩ := Option.map_eq_some_iff.mp h
    obtain ⟨hc, havail⟩ := mem_availableEntries.mp (hmem x hx)
    exact ⟨x.2, x.1, hc, havail, rfl⟩
  of_none := by
    intro h i c hc
    by_contra havail
    have hin : (c, i) ∈ availableEntries creds now :=
      mem_availableEntries.mpr ⟨hc, eq_true_of_ne_false havail⟩
    rw [hnone (Option.map_eq_none_iff.mp h)] at hin
    cases hin

theorem picks_acquireFillFirst (creds : List PooledCredential) (now : ℕ → ℕ) :
    Picks creds now (acquireFillFirst creds now) := by
  have hhead : (creds.zipIdx.find? fun x => x.1.isAvailable (now x.2)) =
      (availableEntries creds now).head? := List.head?_filter.symm
  unfold acquireFillFirst
  rw [hhead]
  exact picks_of_choice (fun x hx => List.mem_of_mem_head? hx) List.head?_eq_none_iff.mp

theorem picks_acquireRandom (creds : List PooledCredential) (now : ℕ → ℕ) (seed : ℕ) :
    Picks creds now (acquireRandom creds now seed) := by
  apply picks_of_choice
  · exact fun x hx => List.mem_of_getElem? hx
  · intro hnone
    by_contra hne
    have hlt := Nat.mod_lt seed (List.length_pos_of_ne_nil hne)
    exact absurd (List.getElem?_eq_none_iff.mp hnone) (not_le.mpr hlt)

theorem picks_acquireLeastUsed (creds : List PooledCredential) (now : ℕ → ℕ) :
    Picks creds now (acquireLeastUsed creds now) :=
  picks_of_choice (fun _ hx => List.argmin_mem hx) List.argmin_eq_none.mp

theorem acquireRoundRobin_eq (creds : List PooledCredential) (now : ℕ → ℕ) (startIdx : ℕ) :
    acquireRoundRobin creds now startIdx =
      (Turns.turn (available creds now) (startIdx % creds.length)).bind
        fun i => creds[i]?.map (·.apiKey) := by
  unfold acquireRoundRobin Turns.turn
  by_cases hzero : creds.length = 0
  · rw [if_pos hzero, List.length_eq_zero_iff.mp hzero]
    rfl
  · rw [if_neg hzero]
    cases available creds now with
    | nil => rfl
    | cons first others =>
      dsimp only
      cases (first :: others).find? (startIdx % creds.length ≤ ·) <;> rfl

theorem picks_acquireRoundRobin (creds : List PooledCredential) (now : ℕ → ℕ) (startIdx : ℕ) :
    Picks creds now (acquireRoundRobin creds now startIdx) := by
  rw [acquireRoundRobin_eq]
  by_cases hnil : available creds now = []
  · rw [hnil]
    refine ⟨fun _ h => (Option.some_ne_none _ h.symm).elim, fun _ i c hc => ?_⟩
    by_contra havail
    have hin : i ∈ available creds now := mem_available.mpr ⟨c, hc, eq_true_of_ne_false havail⟩
    rw [hnil] at hin
    cases hin
  · obtain ⟨i, hturn⟩ := Turns.exists_turn hnil (startIdx % creds.length)
    obtain ⟨c, hc, havail⟩ := mem_available.mp (Turns.nth_mem hnil i)
    rw [hturn, Option.bind_some, hc]
    exact ⟨fun _ h => ⟨_, c, hc, havail, Option.some.inj h⟩, fun h => (Option.some_ne_none _ h).elim⟩

theorem picks_acquire (pool : CredentialPool) (readings : Readings) :
    Picks pool.credentials readings.first (pool.acquire readings).1 := by
  unfold CredentialPool.acquire
  cases pool.strategy with
  | fillFirst => exact picks_acquireFillFirst ..
  | roundRobin =>
    dsimp only
    split
    · exact picks_acquireRoundRobin ..
    · exact picks_acquireRoundRobin ..
  | random => exact picks_acquireRandom ..
  | leastUsed => exact picks_acquireLeastUsed ..

theorem acquire_snd (pool : CredentialPool) (readings : Readings) :
    ∃ idx, (pool.acquire readings).2 = { pool with roundRobinIdx := idx } := by
  unfold CredentialPool.acquire
  split
  case h_2 =>
    dsimp only
    split
    · exact ⟨_, rfl⟩
    · exact ⟨_, rfl⟩
  all_goals exact ⟨_, rfl⟩

variable {f : PooledCredential → PooledCredential}

theorem apiKey_modifyKey (hkey : ∀ c, (f c).apiKey = c.apiKey) (pool : CredentialPool)
    (key : String) :
    (pool.modifyKey key f).credentials.map (·.apiKey) = pool.credentials.map (·.apiKey) := by
  unfold CredentialPool.modifyKey
  dsimp only
  induction pool.credentials with
  | nil => rfl
  | cons c cs ih =>
    by_cases h : c.apiKey = key
    · simp [List.replaceF, h, hkey]
    · simpa [List.replaceF, h] using ih

theorem credentials_modifyKey {pool : CredentialPool}
    (hnodup : (pool.credentials.map (·.apiKey)).Nodup) (key : String) :
    (pool.modifyKey key f).credentials =
      pool.credentials.map fun c => if c.apiKey = key then f c else c := by
  unfold CredentialPool.modifyKey
  dsimp only
  revert hnodup
  induction pool.credentials with
  | nil => exact fun _ => rfl
  | cons c cs ih =>
    intro hnodup
    rw [List.map_cons, List.nodup_cons] at hnodup
    by_cases h : c.apiKey = key
    · have hothers : cs.map (fun c => if c.apiKey = key then f c else c) = cs := by
        refine (List.map_congr_left fun c' hc' => if_neg fun h' => hnodup.1 ?_).trans (List.map_id' cs)
        exact List.mem_map.mpr ⟨c', hc', h'.trans h.symm⟩
      simp [List.replaceF, h, hothers]
    · simpa [List.replaceF, h] using ih hnodup.2

/-! ## What the pool owes -/

/-- The key has been refused, less than its time ago, and has not succeeded since. -/
def Cooling (ttl : ℕ) (key : String) (now : ℕ) (events : List Event) : Prop :=
  ∃ later marked earlier, events = later ++ .exhausted key marked :: earlier ∧
    now < marked + ttl ∧ .succeeded key ∉ later

/-- What has been handed out was not cooling down any more, and nothing was handed out only if all
keys were cooling down. -/
def Correct (names : List String) (ttl : ℕ) (events : List Event) : Prop :=
  ∀ later start finish result earlier, events = later ++ .acquired start finish result :: earlier →
    (∀ key, result = some key → key ∈ names ∧ ¬Cooling ttl key finish earlier) ∧
      (result = none → ∀ key ∈ names, Cooling ttl key start earlier)

/-- Whenever an entry is looked at, it is available as its key is said to be. -/
def Steady (isAvailable : String → Bool) (run : Run) : Act → Prop
  | .acquire _ _ readings => ∀ i, ∀ c : PooledCredential, run.pool.credentials[i]? = some c →
    c.isAvailable (readings.first i) = isAvailable c.apiKey ∧
      c.isAvailable (readings.second i) = isAvailable c.apiKey
  | .markExhausted _ _ | .markSuccess _ => True

/-- What is handed out in a run. -/
def answers (host : Host) (run : Run) (acts : List Act) : List (Option String) :=
  Runs.trace (step host) answer run acts

/-- **What a pool owes** in every run. -/
structure Selects (host : Host) (keys : List (String × ℕ)) (strategy : PoolStrategy) (ttl : ℕ) :
    Prop where
  correct : ∀ acts, Runs.Along (step host) Timely
      (start (.withExhaustedTtl host keys strategy ttl)) acts →
    Correct (keys.map Prod.fst) ttl
      (Runs.after (step host) (start (.withExhaustedTtl host keys strategy ttl)) acts).events
  /-- As many acquisitions in turn as there are keys available: each of them once. -/
  fair : strategy = .roundRobin → ∀ before during isAvailable,
    Runs.Along (step host) (Steady isAvailable)
      (Runs.after (step host) (start (.withExhaustedTtl host keys strategy ttl)) before) during →
    (answers host (Runs.after (step host) (start (.withExhaustedTtl host keys strategy ttl)) before)
      during).length = ((keys.map Prod.fst).dedup.filter isAvailable).length →
    (answers host (Runs.after (step host) (start (.withExhaustedTtl host keys strategy ttl)) before)
      during).Perm (((keys.map Prod.fst).dedup.filter isAvailable).map some)

section Cooling

variable {ttl t t' : ℕ} {e : Event} {events : List Event}

theorem not_cooling_nil : ¬Cooling ttl key t [] := by
  rintro ⟨later, marked, earlier, h, -⟩
  exact List.append_ne_nil_of_right_ne_nil _ (List.cons_ne_nil _ _) h.symm

theorem cooling_cons : Cooling ttl key t (e :: events) ↔
    (∃ marked, e = .exhausted key marked ∧ t < marked + ttl) ∨
      (e ≠ .succeeded key ∧ Cooling ttl key t events) := by
  constructor
  · rintro ⟨later, marked, earlier, h, hlt, hsuccess⟩
    cases later with
    | nil => exact .inl ⟨marked, (List.cons.inj h).1, hlt⟩
    | cons e' later =>
      obtain ⟨rfl, hevents⟩ := List.cons.inj h
      rw [List.mem_cons, not_or] at hsuccess
      exact .inr ⟨fun h => hsuccess.1 h.symm, later, marked, earlier, hevents, hlt, hsuccess.2⟩
  · rintro (⟨marked, rfl, hlt⟩ | ⟨he, later, marked, earlier, rfl, hlt, hsuccess⟩)
    · exact ⟨[], marked, events, rfl, hlt, List.not_mem_nil⟩
    · refine ⟨e :: later, marked, earlier, rfl, hlt, ?_⟩
      rw [List.mem_cons, not_or]
      exact ⟨fun h => he h.symm, hsuccess⟩

theorem Cooling.mono (h : Cooling ttl key t events) (hle : t' ≤ t) : Cooling ttl key t' events := by
  obtain ⟨later, marked, earlier, hevents, hlt, hsuccess⟩ := h
  exact ⟨later, marked, earlier, hevents, hle.trans_lt hlt, hsuccess⟩

theorem Cooling.lt_of_marked {bound : ℕ} (h : Cooling ttl key t events)
    (hmarked : ∀ t₀, .exhausted key t₀ ∈ events → t₀ ≤ bound) : t < bound + ttl := by
  obtain ⟨later, marked, earlier, rfl, hlt, -⟩ := h
  have hle := hmarked marked (List.mem_append_right _ List.mem_cons_self)
  omega

end Cooling

/-! ## The invariant -/

theorem isAvailable_exhaust (c : PooledCredential) (til now : ℕ) :
    (c.exhaust til).isAvailable now = decide (til ≤ now) := rfl

theorem isAvailable_succeed (c : PooledCredential) (now : ℕ) : c.succeed.isAvailable now = true :=
  rfl

/-- The entries know what has happened: they are available exactly when their key is not cooling
down. -/
structure Inv (names : List String) (ttl : ℕ) (run : Run) : Prop where
  keys_perm : (run.pool.credentials.map (·.apiKey)).Perm names
  ttl_eq : run.pool.exhaustedTtl = ttl
  marked_le : ∀ key marked, .exhausted key marked ∈ run.events → marked ≤ run.clock
  tied : ∀ c ∈ run.pool.credentials, ∀ now,
    c.isAvailable now = true ↔ ¬Cooling ttl c.apiKey now run.events
  correct : Correct names ttl run.events

theorem keys_withExhaustedTtl (host : Host) (keys : List (String × ℕ)) (strategy : PoolStrategy)
    (ttl : ℕ) :
    ((CredentialPool.withExhaustedTtl host keys strategy ttl).credentials.map (·.apiKey)).Perm
      (keys.map Prod.fst) := by
  have hperm := (host.sort_perm (keys.map fun x => PooledCredential.new x.1 x.2)).map (·.apiKey)
  rw [List.map_map] at hperm
  exact hperm

theorem inv_start (host : Host) (keys : List (String × ℕ)) (strategy : PoolStrategy) (ttl : ℕ) :
    Inv (keys.map Prod.fst) ttl (start (.withExhaustedTtl host keys strategy ttl)) where
  keys_perm := keys_withExhaustedTtl host keys strategy ttl
  ttl_eq := rfl
  marked_le := fun _ _ h => by cases h
  tied := by
    intro c hc now
    have hnew := (host.sort_perm _).subset hc
    obtain ⟨x, -, rfl⟩ := List.mem_map.mp hnew
    exact iff_of_true rfl not_cooling_nil
  correct := fun _ _ _ _ _ h => absurd h.symm
    (List.append_ne_nil_of_right_ne_nil _ (List.cons_ne_nil _ _))

section Steps

variable {names : List String} {ttl : ℕ} {run : Run}

theorem Correct.cons {events : List Event} {e : Event} (h : Correct names ttl events)
    (he : ∀ start finish result, e = .acquired start finish result →
      (∀ key, result = some key → key ∈ names ∧ ¬Cooling ttl key finish events) ∧
        (result = none → ∀ key ∈ names, Cooling ttl key start events)) :
    Correct names ttl (e :: events) := by
  intro later start finish result earlier hevents
  cases later with
  | nil =>
    obtain ⟨hhead, rfl⟩ := List.cons.inj hevents
    exact he _ _ _ hhead
  | cons e' later => exact h later start finish result earlier (List.cons.inj hevents).2

theorem Inv.acquire (h : Inv names ttl run) {begin finish : ℕ} {readings : Readings}
    (htimely : Timely run (.acquire begin finish readings)) :
    Inv names ttl (step host run (.acquire begin finish readings)) := by
  obtain ⟨hclock, hspan, hreads⟩ := htimely
  obtain ⟨idx, hpool⟩ := acquire_snd run.pool readings
  have hpicks := picks_acquire run.pool readings
  have hcooling : ∀ key t, Cooling ttl key t
      (.acquired begin finish (run.pool.acquire readings).1 :: run.events) ↔
        Cooling ttl key t run.events := by
    intro key t
    rw [cooling_cons]
    simp
  unfold step
  dsimp only
  rw [hpool]
  refine ⟨h.keys_perm, h.ttl_eq, fun key marked hmem => ?_, fun c hc now => ?_, ?_⟩
  · rw [List.mem_cons] at hmem
    have hle := h.marked_le key marked (hmem.resolve_left (fun heq => by cases heq))
    exact hle.trans (hclock.trans hspan)
  · rw [hcooling]
    exact h.tied c hc now
  · refine h.correct.cons fun start' finish' result hevent => ?_
    injection hevent with hstart hfinish hresult
    subst hstart hfinish hresult
    constructor
    · intro key hkey
      obtain ⟨i, c, hc, havail, rfl⟩ := hpicks.of_some key hkey
      have hmem := List.mem_of_getElem? hc
      refine ⟨h.keys_perm.subset (List.mem_map_of_mem hmem), fun hcool => ?_⟩
      exact (h.tied c hmem _).mp havail (hcool.mono (hreads i).2)
    · intro hnone key hkey
      obtain ⟨c, hmem, rfl⟩ := List.mem_map.mp (h.keys_perm.symm.subset hkey)
      obtain ⟨i, hc⟩ := List.mem_iff_getElem?.mp hmem
      have hno := hpicks.of_none hnone i c hc
      have hcool : Cooling ttl c.apiKey (readings.first i) run.events := by
        by_contra hnot
        exact Bool.false_ne_true (hno.symm.trans ((h.tied c hmem _).mpr hnot))
      exact hcool.mono (hreads i).1

variable (hnodup : names.Nodup)
include hnodup

theorem Inv.markExhausted (h : Inv names ttl run) {apiKey : String} {now : ℕ}
    (htimely : Timely run (.markExhausted apiKey now)) :
    Inv names ttl (step host run (.markExhausted apiKey now)) := by
  have hmarked : ∀ key marked, .exhausted key marked ∈ run.events → marked ≤ now :=
    fun key marked hmem => (h.marked_le key marked hmem).trans htimely
  unfold step
  dsimp only
  unfold CredentialPool.markExhausted
  by_cases hlast : host.lastInstant < now + run.pool.exhaustedTtl
  · rw [if_pos hlast]
    exact ⟨h.keys_perm, h.ttl_eq, hmarked, h.tied, h.correct⟩
  · rw [if_neg hlast, h.ttl_eq]
    refine ⟨?_, h.ttl_eq, fun key marked hmem => ?_, fun c hc t => ?_, ?_⟩
    · exact (List.Perm.of_eq (apiKey_modifyKey (f := (·.exhaust (now + ttl))) (fun _ => rfl) ..)).trans
        h.keys_perm
    · rcases List.mem_cons.mp hmem with heq | hmem
      · injection heq with _ heq
        exact heq.le
      · exact hmarked key marked hmem
    · rw [credentials_modifyKey (h.keys_perm.nodup_iff.mpr hnodup)] at hc
      obtain ⟨c₀, hc₀, rfl⟩ := List.mem_map.mp hc
      rw [cooling_cons]
      by_cases hkey : c₀.apiKey = apiKey
      · rw [if_pos hkey, isAvailable_exhaust]
        have hold : Cooling ttl apiKey t run.events → t < now + ttl :=
          fun hcool => hcool.lt_of_marked (hmarked apiKey)
        simp only [PooledCredential.exhaust, hkey]
        rw [decide_eq_true_iff]
        constructor
        · rintro hle (⟨marked, heq, hlt⟩ | ⟨-, hcool⟩)
          · injection heq with _ heq
            omega
          · exact absurd (hold hcool) (not_lt.mpr hle)
        · intro hnot
          by_contra hlt
          exact hnot (.inl ⟨now, rfl, not_le.mp hlt⟩)
      · rw [if_neg hkey, h.tied c₀ hc₀]
        apply not_congr
        constructor
        · exact fun hcool => .inr ⟨Event.noConfusion, hcool⟩
        · rintro (⟨marked, heq, -⟩ | ⟨-, hcool⟩)
          · injection heq with heq _
            exact absurd heq.symm hkey
          · exact hcool
    · exact h.correct.cons fun _ _ _ hevent => by cases hevent

theorem Inv.markSuccess (h : Inv names ttl run) (apiKey : String) :
    Inv names ttl (step host run (.markSuccess apiKey)) := by
  unfold step CredentialPool.markSuccess
  refine ⟨?_, h.ttl_eq, fun key marked hmem => ?_, fun c hc t => ?_, ?_⟩
  · exact (List.Perm.of_eq (apiKey_modifyKey (f := (·.succeed)) (fun _ => rfl) ..)).trans h.keys_perm
  · rw [List.mem_cons] at hmem
    exact h.marked_le key marked (hmem.resolve_left (fun heq => by cases heq))
  · rw [credentials_modifyKey (h.keys_perm.nodup_iff.mpr hnodup)] at hc
    obtain ⟨c₀, hc₀, rfl⟩ := List.mem_map.mp hc
    rw [cooling_cons]
    by_cases hkey : c₀.apiKey = apiKey
    · rw [if_pos hkey]
      refine iff_of_true (isAvailable_succeed c₀ t) ?_
      rintro (⟨marked, heq, -⟩ | ⟨hne, -⟩)
      · cases heq
      · exact hne (congrArg Event.succeeded hkey.symm)
    · rw [if_neg hkey, h.tied c₀ hc₀]
      apply not_congr
      constructor
      · intro hcool
        refine .inr ⟨fun heq => ?_, hcool⟩
        injection heq with heq
        exact hkey heq.symm
      · rintro (⟨marked, heq, -⟩ | ⟨-, hcool⟩)
        · cases heq
        · exact hcool
  · exact h.correct.cons fun _ _ _ hevent => by cases hevent

theorem Inv.step (h : Inv names ttl run) {act : Act} (htimely : Timely run act) :
    Inv names ttl (step host run act) := by
  cases act with
  | acquire begin finish readings => exact h.acquire htimely
  | markExhausted apiKey now => exact h.markExhausted hnodup htimely
  | markSuccess apiKey => exact h.markSuccess hnodup apiKey

end Steps

/-! ## Turns -/

/-- The places of the keys that are available. -/
def openPlaces (names : List String) (isAvailable : String → Bool) : List ℕ :=
  (names.zipIdx.filter fun x => isAvailable x.1).map Prod.snd

section Turns

variable {names : List String} {isAvailable : String → Bool} {pool : CredentialPool}
  {readings : Readings} {i k : ℕ}

theorem map_openPlaces (names : List String) (isAvailable : String → Bool) :
    (openPlaces names isAvailable).map (names[·]?) = (names.filter isAvailable).map some := by
  have hkeys : (names.zipIdx.filter fun x => isAvailable x.1).map Prod.fst =
      names.filter isAvailable := by
    have hmap := List.filter_map (p := isAvailable) (f := Prod.fst) (l := names.zipIdx)
    rw [List.zipIdx_map_fst] at hmap
    exact hmap.symm
  rw [openPlaces, List.map_map, ← hkeys, List.map_map]
  refine List.map_congr_left fun x hx => ?_
  exact List.mem_zipIdx_iff_getElem?.mp (List.mem_of_mem_filter hx)

theorem length_openPlaces (names : List String) (isAvailable : String → Bool) :
    (openPlaces names isAvailable).length = (names.filter isAvailable).length := by
  have hlen := congrArg List.length (map_openPlaces names isAvailable)
  rwa [List.length_map, List.length_map] at hlen

theorem lt_of_mem_openPlaces (h : i ∈ openPlaces names isAvailable) : i < names.length := by
  obtain ⟨x, hx, rfl⟩ := List.mem_map.mp h
  exact (List.getElem?_eq_some_iff.mp
    (List.mem_zipIdx_iff_getElem?.mp (List.mem_of_mem_filter hx))).1

theorem available_eq (h : ∀ i, ∀ c : PooledCredential, creds[i]? = some c →
      c.isAvailable (now i) = isAvailable c.apiKey) :
    available creds now = openPlaces (creds.map (·.apiKey)) isAvailable := by
  unfold available availableEntries openPlaces
  rw [List.zipIdx_map, List.filter_map, List.map_map]
  refine congrArg (List.map Prod.snd) (List.filter_congr fun x hx => ?_)
  exact h x.2 x.1 (List.mem_zipIdx_iff_getElem?.mp hx)

theorem pairwise_openPlaces (names : List String) (isAvailable : String → Bool) :
    (openPlaces names isAvailable).Pairwise (· < ·) := by
  have hall : (names.zipIdx.map Prod.snd).Pairwise (· < ·) := by
    rw [List.zipIdx_map_snd]
    exact List.pairwise_lt_range'
  exact hall.sublist (List.filter_sublist.map _)

variable (hkeys : pool.credentials.map (·.apiKey) = names) (hnodup : names.Nodup)
  (hne : openPlaces names isAvailable ≠ [])
include hkeys hnodup hne

theorem nextIdx_eq :
    pool.nextIdx (openPlaces names isAvailable)
        names[Turns.nth (openPlaces names isAvailable) k]? =
      Turns.nth (openPlaces names isAvailable) (k + 1) := by
  have hget : ∀ i : ℕ, pool.credentials[i]?.map (·.apiKey) = names[i]? := by
    intro i
    rw [← hkeys, List.getElem?_map]
  have hpos := List.length_pos_of_ne_nil hne
  have hmod := Nat.mod_lt k hpos
  have hnth : Turns.nth (openPlaces names isAvailable) k =
      (openPlaces names isAvailable)[k % (openPlaces names isAvailable).length] :=
    List.getD_eq_getElem _ _ hmod
  -- keys differ, so the place is found by its key
  have hfind : (openPlaces names isAvailable).findIdx? (fun i =>
      decide (names[Turns.nth (openPlaces names isAvailable) k]? =
        pool.credentials[i]?.map (·.apiKey))) =
        some (k % (openPlaces names isAvailable).length) := by
    rw [List.findIdx?_eq_some_iff_getElem]
    refine ⟨hmod, by simp [hget, hnth], fun j hj hsame => ?_⟩
    rw [decide_eq_true_iff, hget, hnth] at hsame
    have hlt := lt_of_mem_openPlaces (List.getElem_mem (hj.trans hmod))
    have hplace := (List.getElem?_inj (lt_of_mem_openPlaces (List.getElem_mem hmod)) hnodup).mp hsame
    have hlast := List.pairwise_iff_getElem.mp (pairwise_openPlaces names isAvailable) j _
      (hj.trans hmod) hmod hj
    omega
  unfold CredentialPool.nextIdx
  rw [hfind, Option.getD_some]
  dsimp only
  rw [Nat.mod_add_mod]
  rfl

theorem acquire_turn (hstrategy : pool.strategy = .roundRobin)
    (hfirst : available pool.credentials readings.first = openPlaces names isAvailable)
    (hsecond : available pool.credentials readings.second = openPlaces names isAvailable)
    (hturn : Turns.turn (openPlaces names isAvailable) (pool.roundRobinIdx % names.length) =
      some (Turns.nth (openPlaces names isAvailable) k)) :
    (pool.acquire readings).1 = names[Turns.nth (openPlaces names isAvailable) k]? ∧
      Turns.turn (openPlaces names isAvailable)
          ((pool.acquire readings).2.roundRobinIdx % names.length) =
        some (Turns.nth (openPlaces names isAvailable) (k + 1)) := by
  have hlen : pool.credentials.length = names.length := by rw [← hkeys, List.length_map]
  have hresult : acquireRoundRobin pool.credentials readings.first pool.roundRobinIdx =
      names[Turns.nth (openPlaces names isAvailable) k]? := by
    rw [acquireRoundRobin_eq, hfirst, hlen, hturn, Option.bind_some, ← hkeys, List.getElem?_map]
  have hmem := Turns.nth_mem hne
  unfold CredentialPool.acquire
  rw [hstrategy]
  dsimp only
  rw [hresult, hsecond]
  by_cases hone : 1 < (openPlaces names isAvailable).length
  · have hsome : names[Turns.nth (openPlaces names isAvailable) k]?.isSome = true := by
      rw [List.getElem?_eq_getElem (lt_of_mem_openPlaces (hmem k)), Option.isSome_some]
    rw [if_pos ⟨hsome, hone⟩]
    refine ⟨rfl, ?_⟩
    dsimp only
    rw [nextIdx_eq hkeys hnodup hne, Nat.mod_eq_of_lt (lt_of_mem_openPlaces (hmem _))]
    exact Turns.turn_self (pairwise_openPlaces ..) (hmem _)
  · rw [if_neg (fun h => hone h.2)]
    exact ⟨rfl, Turns.turn_of_length_le_one (not_lt.mp hone) _ _ hne⟩

end Turns

/-- The keys and the strategy of a pool. -/
structure Made (names : List String) (strategy : PoolStrategy) (run : Run) : Prop where
  keys_eq : run.pool.credentials.map (·.apiKey) = names
  strategy_eq : run.pool.strategy = strategy

section Runs

variable {names : List String} {strategy : PoolStrategy} {run : Run} {isAvailable : String → Bool}

theorem step_markExhausted (host : Host) (run : Run) (apiKey : String) (now : ℕ) :
    step host run (.markExhausted apiKey now) = { run with clock := now } ∨
      step host run (.markExhausted apiKey now) =
        ⟨run.pool.modifyKey apiKey (·.exhaust (now + run.pool.exhaustedTtl)), now,
          .exhausted apiKey now :: run.events⟩ := by
  unfold step
  dsimp only
  unfold CredentialPool.markExhausted
  by_cases hlast : host.lastInstant < now + run.pool.exhaustedTtl
  · rw [if_pos hlast]
    exact .inl rfl
  · rw [if_neg hlast]
    exact .inr rfl

theorem Made.step (h : Made names strategy run) (host : Host) (act : Act) :
    Made names strategy (step host run act) := by
  cases act with
  | acquire begin finish readings =>
    obtain ⟨idx, hpool⟩ := acquire_snd run.pool readings
    unfold Credentials.step
    dsimp only
    rw [hpool]
    exact ⟨h.keys_eq, h.strategy_eq⟩
  | markExhausted apiKey now =>
    rcases step_markExhausted host run apiKey now with hstep | hstep
    · rw [hstep]
      exact ⟨h.keys_eq, h.strategy_eq⟩
    · rw [hstep]
      exact ⟨(apiKey_modifyKey (f := (·.exhaust _)) (fun _ => rfl) ..).trans h.keys_eq,
        h.strategy_eq⟩
  | markSuccess apiKey =>
    exact ⟨(apiKey_modifyKey (f := (·.succeed)) (fun _ => rfl) ..).trans h.keys_eq, h.strategy_eq⟩

theorem Made.after (h : Made names strategy run) (host : Host) (acts : List Act) :
    Made names strategy (Runs.after (Credentials.step host) run acts) := by
  induction acts generalizing run with
  | nil => exact h
  | cons act acts ih => exact ih (h.step host act)

theorem roundRobinIdx_markExhausted (host : Host) (run : Run) (apiKey : String) (now : ℕ) :
    (step host run (.markExhausted apiKey now)).pool.roundRobinIdx = run.pool.roundRobinIdx := by
  rcases step_markExhausted host run apiKey now with hstep | hstep
  · rw [hstep]
  · rw [hstep]
    rfl

theorem answers_eq_round (hnodup : names.Nodup) (hne : openPlaces names isAvailable ≠ [])
    {during : List Act} {k : ℕ} (hmade : Made names .roundRobin run)
    (hturn : Turns.turn (openPlaces names isAvailable) (run.pool.roundRobinIdx % names.length) =
      some (Turns.nth (openPlaces names isAvailable) k))
    (hsteady : Runs.Along (step host) (Steady isAvailable) run during) :
    answers host run during =
      (Turns.round (openPlaces names isAvailable) k (answers host run during).length).map
        (names[·]?) := by
  induction during generalizing run k with
  | nil => rfl
  | cons act acts ih =>
    obtain ⟨hact, hacts⟩ := hsteady
    have hmade' := hmade.step host act
    unfold answers Runs.trace
    cases act with
    | acquire begin finish readings =>
      have hfirst := available_eq fun i c hc => (hact i c hc).1
      have hsecond := available_eq fun i c hc => (hact i c hc).2
      rw [hmade.keys_eq] at hfirst hsecond
      obtain ⟨hkey, hnext⟩ :=
        acquire_turn hmade.keys_eq hnodup hne hmade.strategy_eq hfirst hsecond hturn
      have hrest := ih hmade' hnext hacts
      unfold answers at hrest
      have hone : (answer run (.acquire begin finish readings)).length = 1 := rfl
      rw [List.length_append, Nat.add_comm, hone, Turns.round_succ, List.map_cons, ← hrest, ← hkey]
      rfl
    | markExhausted apiKey now =>
      exact ih hmade' (by rw [roundRobinIdx_markExhausted]; exact hturn) hacts
    | markSuccess apiKey => exact ih hmade' hturn hacts

/-- **A round of turns**: as many acquisitions as keys are available, and each key once. -/
theorem answers_perm (hnodup : names.Nodup) {during : List Act} (hmade : Made names .roundRobin run)
    (hsteady : Runs.Along (step host) (Steady isAvailable) run during)
    (hlen : (answers host run during).length = (names.filter isAvailable).length) :
    (answers host run during).Perm ((names.filter isAvailable).map some) := by
  by_cases hnil : openPlaces names isAvailable = []
  · have hnone : names.filter isAvailable = [] := by
      rw [← List.length_eq_zero_iff, ← length_openPlaces, hnil, List.length_nil]
    rw [hnone, List.length_nil] at hlen
    rw [hnone, List.length_eq_zero_iff.mp hlen]
    exact List.Perm.nil
  · obtain ⟨k, hturn⟩ := Turns.exists_turn hnil (run.pool.roundRobinIdx % names.length)
    rw [answers_eq_round hnodup hnil hmade hturn hsteady, hlen, ← length_openPlaces,
      ← map_openPlaces]
    exact (Turns.round_perm ..).map _

end Runs

/-! ## Which pools select so -/

/-- **A pool whose keys differ** selects as it should. -/
theorem selects_of_nodup {keys : List (String × ℕ)} (hnodup : (keys.map Prod.fst).Nodup)
    (host : Host) (strategy : PoolStrategy) (ttl : ℕ) : Selects host keys strategy ttl where
  correct := fun acts htimely =>
    (Runs.invariant (I := Inv (keys.map Prod.fst) ttl)
      (fun _ _ hinv ht => hinv.step hnodup ht) (inv_start host keys strategy ttl) htimely).correct
  fair := by
    intro hstrategy before during isAvailable hsteady hlen
    subst hstrategy
    have hperm := keys_withExhaustedTtl host keys .roundRobin ttl
    have hmade : Made _ .roundRobin (start (.withExhaustedTtl host keys .roundRobin ttl)) :=
      ⟨rfl, rfl⟩
    rw [List.dedup_eq_self.mpr hnodup] at hlen ⊢
    have hfilter := hperm.filter isAvailable
    exact (answers_perm (hperm.nodup_iff.mpr hnodup) (hmade.after host before) hsteady
      (hlen.trans hfilter.length_eq.symm)).trans (hfilter.map some)

/-- How many entries have not been marked. -/
def unmarked (pool : CredentialPool) : ℕ := pool.credentials.countP (·.exhaustedUntil.isNone)

theorem unmarked_modifyKey (pool : CredentialPool) (key : String)
    (f : PooledCredential → PooledCredential) :
    unmarked pool ≤ unmarked (pool.modifyKey key f) + 1 := by
  unfold unmarked CredentialPool.modifyKey
  dsimp only
  induction pool.credentials with
  | nil => exact Nat.zero_le _
  | cons c cs ih =>
    by_cases h : c.apiKey = key
    · have hreplace : (c :: cs).replaceF (fun c => if c.apiKey = key then some (f c) else none) =
          f c :: cs := by simp [List.replaceF, h]
      rw [hreplace, List.countP_cons, List.countP_cons]
      split <;> split <;> omega
    · have hreplace : (c :: cs).replaceF (fun c => if c.apiKey = key then some (f c) else none) =
          c :: cs.replaceF (fun c => if c.apiKey = key then some (f c) else none) := by
        simp [List.replaceF, h]
      rw [hreplace, List.countP_cons, List.countP_cons]
      omega

theorem after_marks (host : Host) (run : Run) (hlast : run.pool.exhaustedTtl ≤ host.lastInstant)
    (hclock : run.clock = 0) (marked : List String) :
    Runs.Along (step host) Timely run (marked.map fun key => .markExhausted key 0) ∧
      (Runs.after (step host) run (marked.map fun key => .markExhausted key 0)).clock = 0 ∧
      (Runs.after (step host) run (marked.map fun key => .markExhausted key 0)).events =
        marked.reverse.map (fun key => .exhausted key 0) ++ run.events ∧
      unmarked run.pool ≤ unmarked
        (Runs.after (step host) run (marked.map fun key => .markExhausted key 0)).pool +
          marked.length := by
  induction marked generalizing run with
  | nil => exact ⟨trivial, hclock, rfl, le_rfl⟩
  | cons key keys ih =>
    have hstep : step host run (.markExhausted key 0) =
        ⟨run.pool.modifyKey key (·.exhaust (0 + run.pool.exhaustedTtl)), 0,
          .exhausted key 0 :: run.events⟩ := by
      unfold step
      dsimp only
      unfold CredentialPool.markExhausted
      rw [if_neg (by omega)]
    obtain ⟨htimely, hclock', hevents, hunmarked⟩ := ih (step host run (.markExhausted key 0))
      (by rw [hstep]; exact hlast) (by rw [hstep])
    have hone := unmarked_modifyKey run.pool key (·.exhaust (0 + run.pool.exhaustedTtl))
    rw [List.map_cons, Runs.after_cons]
    refine ⟨⟨hclock.le, htimely⟩, hclock', ?_, ?_⟩
    · rw [hevents, hstep, List.reverse_cons, List.map_append, List.append_assoc]
      rfl
    · rw [hstep] at hunmarked ⊢
      rw [List.length_cons]
      dsimp only at hunmarked
      omega

/-- **A pool with a repeated key** hands out a key that has just been refused. -/
theorem not_selects_of_not_nodup (keys : List (String × ℕ)) (hdup : ¬(keys.map Prod.fst).Nodup)
    (host : Host) (strategy : PoolStrategy) {ttl : ℕ} (hpos : 0 < ttl)
    (hlast : ttl ≤ host.lastInstant) : ¬Selects host keys strategy ttl := by
  intro hselects
  obtain ⟨htimely, hclock, hevents, hunmarked⟩ := after_marks host
    (start (.withExhaustedTtl host keys strategy ttl)) hlast rfl (keys.map Prod.fst).dedup
  have hlater : Timely (Runs.after (step host) (start (.withExhaustedTtl host keys strategy ttl))
      ((keys.map Prod.fst).dedup.map fun key => .markExhausted key 0))
      (.acquire 0 0 ⟨fun _ => 0, fun _ => 0, 0⟩) :=
    ⟨hclock.le, le_rfl, fun _ => ⟨le_rfl, le_rfl⟩⟩
  have hcorrect := hselects.correct
    ((keys.map Prod.fst).dedup.map (fun key => .markExhausted key 0) ++
      [.acquire 0 0 ⟨fun _ => 0, fun _ => 0, 0⟩])
    ((Runs.along_append _).mpr ⟨htimely, hlater, trivial⟩)
  rw [Runs.after_append] at hcorrect
  revert hcorrect hevents hunmarked
  generalize Runs.after (step host) (start (.withExhaustedTtl host keys strategy ttl))
    ((keys.map Prod.fst).dedup.map fun key => .markExhausted key 0) = run
  intro hevents hunmarked hcorrect
  -- every key has been marked once, so the second entry of a key has not
  have hall : unmarked (CredentialPool.withExhaustedTtl host keys strategy ttl) = keys.length := by
    have hnew : (CredentialPool.withExhaustedTtl host keys strategy ttl).credentials.Perm
      (keys.map fun x => PooledCredential.new x.1 x.2) := host.sort_perm _
    rw [unmarked, hnew.countP_eq, List.countP_map]
    exact List.countP_eq_length.mpr fun _ _ => rfl
  have hfewer : (keys.map Prod.fst).dedup.length < keys.length := by
    have hsub := List.dedup_sublist (keys.map Prod.fst)
    have hle := hsub.length_le
    rw [List.length_map] at hle
    refine lt_of_le_of_ne hle fun heq => hdup ?_
    rw [← List.dedup_eq_self]
    exact hsub.eq_of_length (heq.trans (List.length_map _).symm)
  have hleft : 0 < unmarked run.pool := by
    have hstart : unmarked (start (.withExhaustedTtl host keys strategy ttl)).pool = keys.length :=
      hall
    omega
  obtain ⟨c, hmem, hnone⟩ := List.countP_pos_iff.mp hleft
  obtain ⟨i, hc⟩ := List.mem_iff_getElem?.mp hmem
  have hpicks := picks_acquire run.pool ⟨fun _ => 0, fun _ => 0, 0⟩
  obtain ⟨hsome, -⟩ := hcorrect [] 0 0 _ _ rfl
  cases hresult : (run.pool.acquire ⟨fun _ => 0, fun _ => 0, 0⟩).1 with
  | none =>
    have hno := hpicks.of_none hresult i c hc
    rw [PooledCredential.isAvailable, Option.isNone_iff_eq_none.mp hnone] at hno
    exact Bool.false_ne_true hno.symm
  | some key =>
    obtain ⟨hname, hcool⟩ := hsome key hresult
    apply hcool
    -- the key has been marked, and nothing has succeeded
    have hin : key ∈ (keys.map Prod.fst).dedup.reverse :=
      List.mem_reverse.mpr (List.mem_dedup.mpr hname)
    obtain ⟨before, after, hsplit⟩ := List.mem_iff_append.mp hin
    refine ⟨before.map fun key => .exhausted key 0, 0, after.map fun key => .exhausted key 0, ?_,
      by omega, ?_⟩
    · rw [hevents, hsplit, List.map_append, List.map_cons]
      exact List.append_nil _
    · intro hsucceeded
      obtain ⟨_, -, heq⟩ := List.mem_map.mp hsucceeded
      cases heq

/-- **Which pools select so**: those whose keys differ, if a refused key rests at all. -/
theorem selects_iff (host : Host) (keys : List (String × ℕ)) (strategy : PoolStrategy) (ttl : ℕ) :
    ((keys.map Prod.fst).Nodup → Selects host keys strategy ttl) ∧
      (¬(keys.map Prod.fst).Nodup → 0 < ttl → ttl ≤ host.lastInstant →
        ¬Selects host keys strategy ttl) :=
  ⟨fun hnodup => selects_of_nodup hnodup host strategy ttl,
    fun hdup hpos hlast => not_selects_of_not_nodup keys hdup host strategy hpos hlast⟩

/-- The surroundings of the example: a stable sort, and a clock of `i64` seconds. -/
def stableHost : Host where
  sort := fun cs => cs.mergeSort fun c c' => decide (c'.priority ≤ c.priority)
  sort_perm := fun cs => List.mergeSort_perm cs _
  sort_sorted := fun cs => by
    have hsorted : (cs.mergeSort fun c c' => decide (c'.priority ≤ c.priority)).Pairwise
        fun c c' => decide (c'.priority ≤ c.priority) = true :=
      List.pairwise_mergeSort
        (fun _ _ _ hab hbc => decide_eq_true
          ((of_decide_eq_true hbc).trans (of_decide_eq_true hab)))
        (fun a b => by simpa using Nat.le_total b.priority a.priority) cs
    exact hsorted.imp fun h => of_decide_eq_true h
  lastInstant := 2 ^ 63 * 10 ^ 9

theorem selects_iff_twoKeys :
    Selects stableHost [("first", 1), ("second", 1)] .roundRobin 1 ∧
      ¬Selects stableHost [("key", 2), ("key", 1)] .roundRobin 1 :=
  ⟨(selects_iff ..).1 (by decide),
    (selects_iff ..).2 (by decide) Nat.one_pos (by decide)⟩

/-- A key twice in the list: it is handed out right after it has been refused. -/
theorem repeated_key_handed_out : ¬∀ host keys strategy ttl, Selects host keys strategy ttl :=
  fun hall => not_selects_of_not_nodup [("key", 2), ("key", 1)] (by decide) stableHost
    .fillFirst (Nat.zero_lt_succ 3599999999999) (by decide) (hall ..)

end LibreFang.Drivers.Credentials
