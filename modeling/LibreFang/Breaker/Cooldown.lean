import Mathlib.Algebra.Order.Ring.Nat
import LibreFang.Lib.Runs
import LibreFang.Lib.Table

/-!
# The circuit breaker of providers

A provider that fails is in cooldown for a while; requests are rejected then, up to a probe now and
again.

* `CooldownConfig`, `ProviderState`, `ProviderCooldown`: the breaker.
* `calculateCooldown`: how long a cooldown lasts; the product of floating-point numbers in it is a
  parameter.
-/

namespace LibreFang.Breaker

/-- `CooldownConfig`, over a type of multipliers. -/
structure CooldownConfig (F : Type) where
  baseCooldownSecs : ℕ
  maxCooldownSecs : ℕ
  backoffMultiplier : F
  maxExponent : ℕ
  billingBaseCooldownSecs : ℕ
  billingMaxCooldownSecs : ℕ
  billingMultiplier : F
  failureWindowSecs : ℕ
  probeEnabled : Bool
  probeIntervalSecs : ℕ

/-- The defaults, with the multipliers 5.0 and 2.0 as given. -/
def CooldownConfig.default {F : Type} (five two : F) : CooldownConfig F where
  baseCooldownSecs := 60
  maxCooldownSecs := 3600
  backoffMultiplier := five
  maxExponent := 3
  billingBaseCooldownSecs := 18000
  billingMaxCooldownSecs := 86400
  billingMultiplier := two
  failureWindowSecs := 86400
  probeEnabled := true
  probeIntervalSecs := 30

/-- What the breaker knows of a provider. -/
structure ProviderState where
  errorCount : ℕ
  isBilling : Bool
  cooldownStart : Option ℕ
  cooldownDuration : ℕ
  lastProbe : Option ℕ
  totalErrorsInWindow : ℕ
  windowStart : Option ℕ

/-- A provider without errors. -/
def ProviderState.new : ProviderState := ⟨0, false, none, 0, none, 0, none⟩

/-- The answer of the breaker. -/
inductive CooldownVerdict
  | allow
  | allowProbe
  | reject (reason : String) (retryAfterSecs : ℕ)
  deriving DecidableEq

/-- `Duration::from_secs`, in nanoseconds. -/
def fromSecs (secs : ℕ) : ℕ := secs * 1000000000

/-- `saturating_add(1)` of a `u32`. -/
def saturatingSucc (n : ℕ) : ℕ := min (n + 1) 4294967295

/-- The product with a multiplier that is a natural number. -/
def scaleNat (secs multiplier exponent : ℕ) : ℕ := secs * multiplier ^ exponent

variable {F : Type} (scale : ℕ → F → ℕ → ℕ)

/-- `calculate_cooldown`; `scale` is `(secs as f64 * multiplier.powi(exponent)) as u64`. -/
def calculateCooldown (config : CooldownConfig F) (errorCount : ℕ) (isBilling : Bool) : ℕ :=
  if isBilling then
    fromSecs (min (scale config.billingBaseCooldownSecs config.billingMultiplier
      (min (errorCount - 1) 10)) config.billingMaxCooldownSecs)
  else
    fromSecs (min (scale config.baseCooldownSecs config.backoffMultiplier
      (min (errorCount - 1) config.maxExponent)) config.maxCooldownSecs)

/-- `ProviderCooldown`. -/
structure ProviderCooldown (F : Type) where
  config : CooldownConfig F
  states : Table String ProviderState

namespace ProviderCooldown

/-- A breaker that knows no provider. -/
def new (config : CooldownConfig F) : ProviderCooldown F := ⟨config, ∅⟩

variable (cb : ProviderCooldown F) (provider : String)

/-- A probe may be let through again. -/
def probeOk (state : ProviderState) (now : ℕ) : Bool :=
  match state.lastProbe with
  | some last => fromSecs cb.config.probeIntervalSecs ≤ now - last
  | none => true

/-- `check`. -/
def check (now : ℕ) : CooldownVerdict :=
  match cb.states.lookup provider with
  | none => .allow
  | some state =>
    match state.cooldownStart with
    | none => .allow
    | some start =>
      let elapsed := now - start
      if elapsed < state.cooldownDuration then
        let remaining := state.cooldownDuration - elapsed
        if cb.config.probeEnabled ∧ cb.probeOk state now then .allowProbe
        else
          let errors := state.errorCount
          .reject
            (if state.isBilling then s!"billing cooldown ({errors} errors)"
            else s!"error cooldown ({errors} errors)")
            (remaining / 1000000000)
      else .allowProbe

/-- `record_success`. -/
def recordSuccess : ProviderCooldown F :=
  { cb with
    states := cb.states.modify provider fun state =>
      { state with
        errorCount := 0
        isBilling := false
        cooldownStart := none
        cooldownDuration := 0
        lastProbe := none } }

/-- The failure window of a state, which starts again when it has elapsed. -/
def manageWindow (state : ProviderState) (now : ℕ) : ProviderState :=
  match state.windowStart with
  | some start =>
    if fromSecs cb.config.failureWindowSecs ≤ now - start then
      { state with totalErrorsInWindow := 0, windowStart := some now }
    else state
  | none => { state with windowStart := some now }

/-- `record_failure`. -/
def recordFailure (isBilling : Bool) (now : ℕ) : ProviderCooldown F :=
  let state := cb.manageWindow ((cb.states.lookup provider).getD .new) now
  { cb with
    states := AList.insert provider
      { state with
        errorCount := saturatingSucc state.errorCount
        totalErrorsInWindow := saturatingSucc state.totalErrorsInWindow
        isBilling
        cooldownStart := some now
        cooldownDuration :=
          calculateCooldown scale cb.config (saturatingSucc state.errorCount) isBilling }
      cb.states }

/-- `record_probe_result`. -/
def recordProbeResult (success : Bool) (now : ℕ) : ProviderCooldown F :=
  if success then cb.recordSuccess provider
  else
    { cb with
      states := cb.states.modify provider fun state =>
        { state with
          lastProbe := some now
          errorCount := saturatingSucc state.errorCount
          cooldownStart := some now
          cooldownDuration :=
            calculateCooldown scale cb.config (saturatingSucc state.errorCount)
              state.isBilling } }

end ProviderCooldown

/-! ## Runs -/

/-- A call for a provider. -/
inductive Call
  | check (now : ℕ)
  | recordSuccess (now : ℕ)
  | recordFailure (isBilling : Bool) (now : ℕ)
  | recordProbeResult (success : Bool) (now : ℕ)
  deriving DecidableEq

/-- The instant of a call. -/
def Call.now : Call → ℕ
  | .check now | .recordSuccess now | .recordFailure _ now | .recordProbeResult _ now => now

/-- The breaker after a call. -/
def step (provider : String) (cb : ProviderCooldown F) : Call → ProviderCooldown F
  | .check _ => cb
  | .recordSuccess _ => cb.recordSuccess provider
  | .recordFailure isBilling now => cb.recordFailure scale provider isBilling now
  | .recordProbeResult success now => cb.recordProbeResult scale provider success now

end LibreFang.Breaker
