import Mathlib.Algebra.Order.Ring.Nat
import Mathlib.Data.List.Basic
import Mathlib.Data.List.MinMax
import LibreFang.Lib.Runs

/-!
# The pool of API keys

A pool has several API keys of one provider. Who needs a key acquires one by the strategy of the
pool, and says afterwards whether the provider has refused it, for then it has to rest.

* `PooledCredential`, `CredentialPool`: the keys, the first one the one with the highest priority.
* `acquire`, `markExhausted`, `markSuccess`: what is done with a pool. The clock is read for each
  entry anew.
-/

namespace LibreFang.Drivers.Credentials

/-- `PoolStrategy`. -/
inductive PoolStrategy
  | fillFirst
  | roundRobin
  | random
  | leastUsed
  deriving DecidableEq

/-- `PooledCredential`; instants are in nanoseconds. -/
structure PooledCredential where
  apiKey : String
  priority : ℕ
  requestCount : ℕ
  exhaustedUntil : Option ℕ
  deriving DecidableEq

namespace PooledCredential

/-- `PooledCredential::new`. -/
def new (apiKey : String) (priority : ℕ) : PooledCredential := ⟨apiKey, priority, 0, none⟩

/-- `is_available`, at an instant. -/
def isAvailable (c : PooledCredential) (now : ℕ) : Bool :=
  match c.exhaustedUntil with
  | none => true
  | some til => til ≤ now

/-- The credential rests. -/
def exhaust (c : PooledCredential) (til : ℕ) : PooledCredential :=
  { c with exhaustedUntil := some til }

/-- A request has succeeded; its count is a `u64`. -/
def succeed (c : PooledCredential) : PooledCredential :=
  { c with requestCount := min (c.requestCount + 1) (2 ^ 64 - 1), exhaustedUntil := none }

end PooledCredential

/-- What the pool uses of its surroundings: `sort_unstable_by_key`, which leaves the order of equal
priorities open, and the last instant that there is. -/
structure Host where
  sort : List PooledCredential → List PooledCredential
  sort_perm : ∀ cs, (sort cs).Perm cs
  sort_sorted : ∀ cs, (sort cs).Pairwise fun c c' => c'.priority ≤ c.priority
  lastInstant : ℕ

/-- The instants at which one call reads the clock for an entry, the first and the second time, and
the nanoseconds of the wall clock. -/
structure Readings where
  first : ℕ → ℕ
  second : ℕ → ℕ
  subsecNanos : ℕ

/-- `CredentialPool`. -/
structure CredentialPool where
  credentials : List PooledCredential
  roundRobinIdx : ℕ
  strategy : PoolStrategy
  exhaustedTtl : ℕ

/-! ## The strategies -/

section Strategies

variable (creds : List PooledCredential) (now : ℕ → ℕ)

/-- The entries that are available when they are looked at, with their places. -/
def availableEntries : List (PooledCredential × ℕ) :=
  creds.zipIdx.filter fun x => x.1.isAvailable (now x.2)

/-- The places of these entries. -/
def available : List ℕ := (availableEntries creds now).map Prod.snd

/-- `acquire_fill_first`. -/
def acquireFillFirst : Option String :=
  (creds.zipIdx.find? fun x => x.1.isAvailable (now x.2)).map fun x => x.1.apiKey

/-- `acquire_round_robin`. -/
def acquireRoundRobin (startIdx : ℕ) : Option String :=
  if creds.length = 0 then none
  else
    match available creds now with
    | [] => none
    | first :: others =>
      let idx := ((first :: others).find? (startIdx % creds.length ≤ ·)).getD first
      creds[idx]?.map (·.apiKey)

/-- `acquire_random`. -/
def acquireRandom (seed : ℕ) : Option String :=
  (availableEntries creds now)[seed % (availableEntries creds now).length]?.map fun x => x.1.apiKey

/-- `acquire_least_used`. -/
def acquireLeastUsed : Option String :=
  ((availableEntries creds now).argmin fun x => x.1.requestCount).map fun x => x.1.apiKey

end Strategies

namespace CredentialPool

/-- `with_exhausted_ttl`. -/
def withExhaustedTtl (host : Host) (keys : List (String × ℕ)) (strategy : PoolStrategy)
    (exhaustedTtl : ℕ) : CredentialPool where
  credentials := host.sort (keys.map fun (k, p) => .new k p)
  roundRobinIdx := 0
  strategy := strategy
  exhaustedTtl := exhaustedTtl

/-- `new`: a refused key rests for an hour. -/
def new (host : Host) (keys : List (String × ℕ)) (strategy : PoolStrategy) : CredentialPool :=
  withExhaustedTtl host keys strategy (60 * 60 * 10 ^ 9)

variable (pool : CredentialPool)

/-- The place after that of the key which has been selected, among the available ones. -/
def nextIdx (available : List ℕ) (result : Option String) : ℕ :=
  let posInAvailable :=
    (available.findIdx? fun i => result = pool.credentials[i]?.map (·.apiKey)).getD 0
  available.getD ((posInAvailable + 1) % available.length) 0

/-- `acquire`. -/
def acquire (readings : Readings) : Option String × CredentialPool :=
  match pool.strategy with
  | .fillFirst => (acquireFillFirst pool.credentials readings.first, pool)
  | .roundRobin =>
    let result := acquireRoundRobin pool.credentials readings.first pool.roundRobinIdx
    let available := available pool.credentials readings.second
    if result.isSome ∧ 1 < available.length then
      (result, { pool with roundRobinIdx := pool.nextIdx available result })
    else (result, pool)
  | .random => (acquireRandom pool.credentials readings.first readings.subsecNanos, pool)
  | .leastUsed => (acquireLeastUsed pool.credentials readings.first, pool)

/-- The first entry with the key is changed. -/
def modifyKey (apiKey : String) (f : PooledCredential → PooledCredential) : CredentialPool :=
  { pool with
    credentials := pool.credentials.replaceF fun c => if c.apiKey = apiKey then some (f c) else none }

/-- `mark_exhausted`; it panics if there is no instant at which the key may be used again. -/
def markExhausted (host : Host) (apiKey : String) (now : ℕ) : Option CredentialPool :=
  if host.lastInstant < now + pool.exhaustedTtl then none
  else some (pool.modifyKey apiKey (·.exhaust (now + pool.exhaustedTtl)))

/-- `mark_success`. -/
def markSuccess (apiKey : String) : CredentialPool := pool.modifyKey apiKey (·.succeed)

end CredentialPool

/-! ## Runs -/

/-- A call. -/
inductive Act
  | acquire (start finish : ℕ) (readings : Readings)
  | markExhausted (apiKey : String) (now : ℕ)
  | markSuccess (apiKey : String)

/-- What has happened: a key has been acquired, or none, between two instants, or a call has
returned that marks a key. -/
inductive Event
  | acquired (start finish : ℕ) (result : Option String)
  | exhausted (apiKey : String) (now : ℕ)
  | succeeded (apiKey : String)
  deriving DecidableEq

/-- A pool with the time and what has happened, the last event first. -/
structure Run where
  pool : CredentialPool
  clock : ℕ
  events : List Event

/-- A new pool. -/
def start (pool : CredentialPool) : Run := ⟨pool, 0, []⟩

/-- One call. -/
def step (host : Host) (run : Run) : Act → Run
  | .acquire start finish readings =>
    ⟨(run.pool.acquire readings).2, finish,
      .acquired start finish (run.pool.acquire readings).1 :: run.events⟩
  | .markExhausted apiKey now =>
    match run.pool.markExhausted host apiKey now with
    | none => { run with clock := now }
    | some pool => ⟨pool, now, .exhausted apiKey now :: run.events⟩
  | .markSuccess apiKey =>
    { run with pool := run.pool.markSuccess apiKey, events := .succeeded apiKey :: run.events }

/-- The clock does not run back. -/
def Timely (run : Run) : Act → Prop
  | .acquire start finish readings =>
    run.clock ≤ start ∧ start ≤ finish ∧ ∀ i, start ≤ readings.first i ∧ readings.first i ≤ finish
  | .markExhausted _ now => run.clock ≤ now
  | .markSuccess _ => True

/-- What a call hands out. -/
def answer (run : Run) : Act → List (Option String)
  | .acquire _ _ readings => [(run.pool.acquire readings).1]
  | .markExhausted _ _ | .markSuccess _ => []

end LibreFang.Drivers.Credentials
