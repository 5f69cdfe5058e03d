import Mathlib.Algebra.Order.Ring.Nat
import LibreFang.Lib.Runs
import LibreFang.Lib.Table

/-!
# The lockout after failed codes

The approval manager counts the failed one-time codes of each sender, in memory and in a table of
the database, and locks a sender out for a while after five of them.

* `Lockouts`: the counters; `recordTotpFailure`, `recordTotpGrace`, `isTotpLockedOut`: a failure, a
  success, and the question; `loadTotpLockout`: what a daemon restores when it starts.
* `Agrees`: memory, database and standing of a sender; **`agrees_step`**: they stay in agreement.
* **`lockout_not_lost`**: five failures in a row then lock a sender out for the whole time, and a
  restart changes no answer; to the second that the database stores.
-/

namespace LibreFang.Approval.Lockout

/-! ## The counters -/

/-- A second. Instants are in nanoseconds since the epoch. -/
def second : ℕ := 1000000000

/-- `TOTP_MAX_FAILURES`. -/
def totpMaxFailures : ℕ := 5

/-- `TOTP_LOCKOUT_SECS`. -/
def totpLockoutSecs : ℕ := 300

/-- A row of `totp_lockout`. -/
structure LockoutRow where
  failures : ℕ
  lockedAt : Option ℕ
  deriving DecidableEq

/-- The failures of each sender, with the start of the lockout, and the table of the database. -/
structure Lockouts where
  totpFailures : Table String (ℕ × Option ℕ)
  totpLockout : Table String LockoutRow

/-- `elapsed().as_secs()`. -/
def elapsedSecs (now t : ℕ) : ℕ := (now - t) / second

/-- The lockout that started then is over. -/
def isOver (now : ℕ) (lockoutStart : Option ℕ) : Bool :=
  lockoutStart.any fun t => totpLockoutSecs ≤ elapsedSecs now t

/-- The entry of a sender that is locked out. -/
def entryLocked (now : ℕ) : Option (ℕ × Option ℕ) → Bool
  | some (count, lockoutStart) =>
    totpMaxFailures ≤ count && lockoutStart.any fun t => elapsedSecs now t < totpLockoutSecs
  | none => false

namespace Lockouts

variable (l : Lockouts) (senderId : String) (now : ℕ)

/-- `is_totp_locked_out`. -/
def isTotpLockedOut : Bool := entryLocked now (l.totpFailures.lookup senderId)

/-- A failure counted, from the entry of the sender. -/
def countFailure (entry : ℕ × Option ℕ) : ℕ × Option ℕ :=
  let fresh := if isOver now entry.2 then (0, none) else entry
  (fresh.1 + 1,
    if totpMaxFailures ≤ fresh.1 + 1 then some (fresh.2.getD now) else fresh.2)

/-- `record_totp_failure`; the write to the database succeeds. -/
def recordTotpFailure : Lockouts :=
  let entry := countFailure now ((l.totpFailures.lookup senderId).getD (0, none))
  { totpFailures := l.totpFailures.insert senderId entry
    totpLockout := l.totpLockout.insert senderId
      ⟨entry.1, entry.2.map fun t => now / second - elapsedSecs now t⟩ }

/-- What `record_totp_grace` does to the counters of failures. -/
def recordTotpGrace : Lockouts where
  totpFailures := l.totpFailures.erase senderId
  totpLockout := l.totpLockout.erase senderId

/-- The start of a lockout, from the second that is stored. -/
def restoreStart (lockedAt : Option ℕ) : Option ℕ :=
  lockedAt.bind fun ts =>
    let elapsed := now / second - ts
    if totpLockoutSecs ≤ elapsed then none else some (now - elapsed * second)

/-- `load_totp_lockout`. -/
def loadTotpLockout (rows : Table String LockoutRow) : Table String (ℕ × Option ℕ) :=
  (rows.retain fun _ row =>
    !(decide (totpMaxFailures ≤ row.failures) && (restoreStart now row.lockedAt).isNone)).mapVal
      fun _ row => (row.failures, restoreStart now row.lockedAt)

/-- The daemon starts again. -/
def restart : Lockouts := { l with totpFailures := loadTotpLockout now l.totpLockout }

end Lockouts

/-! ## Runs -/

/-- What happens: a code of a sender fails or succeeds, the daemon restarts, time passes. -/
inductive Act
  | failure (senderId : String)
  | success (senderId : String)
  | restart
  | wait (nanos : ℕ)
  deriving DecidableEq

/-- What has been recorded of a sender: failures in a row, or five of them, the last one at an
instant, and whether the daemon has restarted since. -/
inductive Standing
  | counting (failures : ℕ)
  | lockedSince (since : ℕ) (reloaded : Bool)
  deriving DecidableEq

namespace Standing

/-- A failure: the first one after a lockout is the first in a row. -/
def failure (now : ℕ) : Standing → Standing
  | counting n =>
    if n + 1 = totpMaxFailures then lockedSince now false else counting (n + 1)
  | lockedSince _ _ => counting 1

/-- The daemon restarts. -/
def restart : Standing → Standing
  | counting n => counting n
  | lockedSince since _ => lockedSince since true

end Standing

/-- The counters, the clock, and the standing of each sender. -/
structure Run where
  now : ℕ
  lockouts : Lockouts
  standing : String → Standing

/-- Nothing has been recorded. -/
def start (now : ℕ) : Run := ⟨now, ⟨∅, ∅⟩, fun _ => .counting 0⟩

/-- The sender is locked out. -/
def Run.locked (run : Run) (senderId : String) : Bool :=
  run.lockouts.isTotpLockedOut senderId run.now

/-- One step. -/
def step (run : Run) : Act → Run
  | .failure senderId =>
    { run with
      lockouts := run.lockouts.recordTotpFailure senderId run.now
      standing := Function.update run.standing senderId
        ((run.standing senderId).failure run.now) }
  | .success senderId =>
    { run with
      lockouts := run.lockouts.recordTotpGrace senderId
      standing := Function.update run.standing senderId (.counting 0) }
  | .restart =>
    { run with
      lockouts := run.lockouts.restart run.now
      standing := fun senderId => (run.standing senderId).restart }
  | .wait nanos => { run with now := run.now + nanos }

/-- A failure is recorded only of a sender that is not locked out. -/
def FailuresGuarded (run : Run) : Act → Prop
  | .failure senderId => run.locked senderId = false
  | _ => True

/-- A code is accepted only of a sender that is not locked out. -/
def SuccessesGuarded (run : Run) : Act → Prop
  | .success senderId => run.locked senderId = false
  | _ => True

/-! ## Memory, database and standing -/

/-- The lockout that memory holds started at `t`, the one that was recorded at `since`. Restored
from the database it starts within the same second. -/
def Near (since : ℕ) (reloaded : Bool) (t : ℕ) : Prop :=
  if reloaded then since / second * second ≤ t ∧ t < since / second * second + second
  else t = since

/-- The standing of a sender, its entry in memory and its row. -/
inductive Agrees (now : ℕ) : Standing → Option (ℕ × Option ℕ) → Option LockoutRow → Prop
  | clear : Agrees now (.counting 0) none none
  | counting {n : ℕ} (hpos : 0 < n) (hlt : n < totpMaxFailures) :
    Agrees now (.counting n) (some (n, none)) (some ⟨n, none⟩)
  | locked {since : ℕ} {reloaded : Bool} {t : ℕ} (hnow : since ≤ now)
    (hnear : Near since reloaded t) :
    Agrees now (.lockedSince since reloaded) (some (totpMaxFailures, some t))
      (some ⟨totpMaxFailures, some (since / second)⟩)
  | ended {since : ℕ} (hended : since / second + totpLockoutSecs ≤ now / second) :
    Agrees now (.lockedSince since true) none (some ⟨totpMaxFailures, some (since / second)⟩)

/-- The three agree for the sender. -/
def Run.Agrees (run : Run) (senderId : String) : Prop :=
  Lockout.Agrees run.now (run.standing senderId) (run.lockouts.totpFailures.lookup senderId)
    (run.lockouts.totpLockout.lookup senderId)

section Steps

variable {now : ℕ} {σ : Standing} {entry : Option (ℕ × Option ℕ)} {row : Option LockoutRow}

theorem Agrees.wait {now' : ℕ} (h : Agrees now σ entry row) (hle : now ≤ now') :
    Agrees now' σ entry row := by
  cases h with
  | clear => exact .clear
  | counting hpos hlt => exact .counting hpos hlt
  | locked hnow hnear => exact .locked (hnow.trans hle) hnear
  | ended hended => exact .ended (hended.trans (Nat.div_le_div_right hle))

theorem isOver_of_not_locked {t : ℕ}
    (h : entryLocked now (some (totpMaxFailures, some t)) = false) : isOver now (some t) = true := by
  have hlt : ¬ elapsedSecs now t < totpLockoutSecs := of_decide_eq_false h
  exact decide_eq_true (not_lt.mp hlt)

theorem Agrees.failure (h : Agrees now σ entry row) (hfree : entryLocked now entry = false) :
    Agrees now (σ.failure now) (some (Lockouts.countFailure now (entry.getD (0, none))))
      (some ⟨(Lockouts.countFailure now (entry.getD (0, none))).1,
        (Lockouts.countFailure now (entry.getD (0, none))).2.map fun t =>
          now / second - elapsedSecs now t⟩) := by
  cases h with
  | clear => exact .counting Nat.one_pos (by decide)
  | ended hended => exact .counting Nat.one_pos (by decide)
  | @counting n hpos hlt =>
    have hfresh : Lockouts.countFailure now ((some (n, none)).getD (0, none)) =
        (n + 1, if totpMaxFailures ≤ n + 1 then some now else none) := rfl
    rw [hfresh, Standing.failure]
    by_cases hfive : n + 1 = totpMaxFailures
    · rw [if_pos hfive, if_pos hfive.ge, hfive]
      have hrow : now / second - elapsedSecs now now = now / second := by
        unfold elapsedSecs
        rw [Nat.sub_self, Nat.zero_div, Nat.sub_zero]
      dsimp only [Option.map_some]
      rw [hrow]
      exact .locked le_rfl rfl
    · rw [if_neg hfive, if_neg (by omega)]
      exact .counting n.succ_pos (by omega)
  | @locked since reloaded t hnow hnear =>
    have hfresh : Lockouts.countFailure now ((some (totpMaxFailures, some t)).getD (0, none)) =
        (1, none) := by
      unfold Lockouts.countFailure
      simp only [Option.getD_some, if_pos (isOver_of_not_locked hfree)]
      rfl
    rw [hfresh]
    exact .counting Nat.one_pos (by decide)

/-- The entry that is restored from a row. -/
def restored (now : ℕ) (row : Option LockoutRow) : Option (ℕ × Option ℕ) :=
  (row.filter fun row => !(decide (totpMaxFailures ≤ row.failures) &&
    (Lockouts.restoreStart now row.lockedAt).isNone)).map
      fun row => (row.failures, Lockouts.restoreStart now row.lockedAt)

/-- **A restart** restores what memory held, to the second. -/
theorem Agrees.restart (h : Agrees now σ entry row) :
    Agrees now σ.restart (restored now row) row := by
  cases h with
  | clear => exact .clear
  | @counting n hpos hlt =>
    have hkept : restored now (some ⟨n, none⟩) = some (n, none) := by
      unfold restored Lockouts.restoreStart
      rw [Option.filter_some_pos, Option.map_some]
      · rfl
      · simp [hlt]
    rw [hkept]
    exact .counting hpos hlt
  | @ended since hended =>
    have hdropped : restored now (some ⟨totpMaxFailures, some (since / second)⟩) = none := by
      unfold restored Lockouts.restoreStart
      rw [Option.filter_some_neg, Option.map_none]
      simp [show totpLockoutSecs ≤ now / second - since / second by omega]
    rw [hdropped]
    exact .ended hended
  | @locked since reloaded t hnow hnear =>
    have hsecs : since / second ≤ now / second := Nat.div_le_div_right hnow
    by_cases hended : totpLockoutSecs ≤ now / second - since / second
    · have hdropped : restored now (some ⟨totpMaxFailures, some (since / second)⟩) = none := by
        unfold restored Lockouts.restoreStart
        rw [Option.filter_some_neg, Option.map_none]
        simp [hended]
      rw [hdropped]
      exact .ended (by omega)
    · have hkept : restored now (some ⟨totpMaxFailures, some (since / second)⟩) =
          some (totpMaxFailures, some (now - (now / second - since / second) * second)) := by
        unfold restored Lockouts.restoreStart
        rw [Option.filter_some_pos, Option.map_some]
        · simp [hended]
        · simp [hended]
      rw [hkept]
      refine .locked hnow ?_
      -- the fraction of the second is that of the restart
      have hfraction : now - (now / second - since / second) * second =
          since / second * second + now % second := by
        have hmod := Nat.div_add_mod' now second
        rw [Nat.sub_mul]
        have hle := Nat.mul_le_mul_right second hsecs
        omega
      exact ⟨hfraction ▸ Nat.le_add_right _ _,
        hfraction ▸ Nat.add_lt_add_left (Nat.mod_lt _ (by decide)) _⟩

/-- How long a lockout lasts, in nanoseconds. -/
def window : ℕ := totpLockoutSecs * second

/-- The sender is surely locked out still, whether or not the daemon has restarted. -/
def Within (since : ℕ) (reloaded : Bool) (now : ℕ) : Prop :=
  if reloaded then now + second ≤ since + window else now < since + window

theorem elapsedSecs_lt_iff {t : ℕ} : elapsedSecs now t < totpLockoutSecs ↔ now < t + window := by
  unfold elapsedSecs window
  rw [Nat.div_lt_iff_lt_mul (by decide)]
  have hpos : 0 < totpLockoutSecs * second := by decide
  omega

theorem entryLocked_iff {t : ℕ} :
    entryLocked now (some (totpMaxFailures, some t)) = true ↔ now < t + window := by
  rw [← elapsedSecs_lt_iff]
  exact decide_eq_true_iff

theorem Agrees.locked_of_within {since : ℕ} {reloaded : Bool}
    (h : Agrees now (.lockedSince since reloaded) entry row) (hwithin : Within since reloaded now) :
    entryLocked now entry = true := by
  have hsince := Nat.div_add_mod' since second
  have hmod := Nat.mod_lt since (show second > 0 by decide)
  cases h with
  | @locked _ _ t hnow hnear =>
    apply entryLocked_iff.mpr
    cases reloaded with
    | false => exact (show t = since from hnear) ▸ hwithin
    | true =>
      have hle : since / second * second ≤ t := hnear.1
      have hend : now + second ≤ since + window := hwithin
      omega
  | ended hended =>
    have hend : now + second ≤ since + window := hwithin
    have hlater := Nat.mul_le_mul_right second hended
    have hnow := Nat.div_mul_le_self now second
    rw [Nat.add_mul] at hlater
    unfold window at hend
    omega

theorem Agrees.free_of_late {since : ℕ} {reloaded : Bool}
    (h : Agrees now (.lockedSince since reloaded) entry row)
    (hlate : since + window + second ≤ now) : entryLocked now entry = false := by
  cases h with
  | ended => rfl
  | @locked _ _ t hnow hnear =>
    rw [Bool.eq_false_iff]
    intro hlocked
    have hlt := entryLocked_iff.mp hlocked
    cases reloaded with
    | false =>
      have heq : t = since := hnear
      omega
    | true =>
      have hnext : t < since / second * second + second := hnear.2
      have hsince := Nat.div_mul_le_self since second
      omega

theorem Agrees.free_of_counting {n : ℕ} (h : Agrees now (.counting n) entry row) :
    entryLocked now entry = false := by
  cases h with
  | clear => rfl
  | counting hpos hlt =>
    have hfew : decide (totpMaxFailures ≤ n) = false := decide_eq_false (not_le.mpr hlt)
    exact Bool.and_eq_false_imp.mpr fun h => absurd h (hfew ▸ Bool.false_ne_true)

end Steps

/-! ## Runs of the daemon -/

variable {run : Run} {act : Act} {senderId : String}

/-- **A step keeps memory, database and standing in agreement.** -/
theorem agrees_step (h : ∀ senderId, run.Agrees senderId) (hguard : FailuresGuarded run act)
    (senderId : String) : (step run act).Agrees senderId := by
  cases act with
  | failure sender =>
    unfold Run.Agrees step Lockouts.recordTotpFailure
    dsimp only
    by_cases hsender : senderId = sender
    · subst hsender
      rw [Function.update_self, AList.lookup_insert, AList.lookup_insert]
      exact (h senderId).failure hguard
    · rw [Function.update_of_ne hsender, AList.lookup_insert_ne hsender,
        AList.lookup_insert_ne hsender]
      exact h senderId
  | success sender =>
    unfold Run.Agrees step Lockouts.recordTotpGrace
    dsimp only
    by_cases hsender : senderId = sender
    · subst hsender
      rw [Function.update_self, AList.lookup_erase, AList.lookup_erase]
      exact .clear
    · rw [Function.update_of_ne hsender, AList.lookup_erase_ne hsender,
        AList.lookup_erase_ne hsender]
      exact h senderId
  | restart =>
    have hrestored : (run.lockouts.restart run.now).totpFailures.lookup senderId =
        restored run.now (run.lockouts.totpLockout.lookup senderId) := by
      unfold Lockouts.restart Lockouts.loadTotpLockout
      rw [Table.lookup_mapVal, Table.lookup_retain]
      rfl
    unfold Run.Agrees step
    rw [hrestored]
    exact (h senderId).restart
  | wait nanos => exact (h senderId).wait (Nat.le_add_right _ _)

theorem agrees_after {now : ℕ} {acts : List Act}
    (h : Runs.Along step FailuresGuarded (start now) acts) (senderId : String) :
    (Runs.after step (start now) acts).Agrees senderId := by
  have hstep (run : Run) (act : Act) (hagrees : ∀ senderId, run.Agrees senderId)
      (hguard : FailuresGuarded run act) : ∀ senderId, (step run act).Agrees senderId :=
    agrees_step hagrees hguard
  have hstart : ∀ senderId, (start now).Agrees senderId := fun _ => .clear
  exact Runs.invariant hstep hstart h senderId

theorem now_le_step (run : Run) (act : Act) : run.now ≤ (step run act).now := by
  cases act with
  | failure => exact le_rfl
  | success => exact le_rfl
  | restart => exact le_rfl
  | wait nanos => exact Nat.le_add_right _ _

theorem now_le_after (run : Run) (acts : List Act) : run.now ≤ (Runs.after step run acts).now := by
  induction acts generalizing run with
  | nil => exact le_rfl
  | cons act acts ih => exact (now_le_step run act).trans (ih _)

theorem Within.mono {since now now' : ℕ} {reloaded : Bool} (h : Within since reloaded now')
    (hle : now ≤ now') : Within since reloaded now := by
  cases reloaded with
  | true => exact (Nat.add_le_add_right hle second).trans h
  | false => exact lt_of_le_of_lt hle h

theorem Within.of_reloaded {since now : ℕ} (h : Within since true now) (reloaded : Bool) :
    Within since reloaded now := by
  cases reloaded with
  | true => exact h
  | false =>
    have hend : now + second ≤ since + window := h
    have hpos : 0 < second := by decide
    show now < since + window
    omega

theorem standing_stays {since : ℕ} {reloaded sharp : Bool} {acts : List Act}
    (hagrees : ∀ senderId, run.Agrees senderId)
    (hfailures : Runs.Along step FailuresGuarded run acts)
    (hsuccesses : Runs.Along step SuccessesGuarded run acts)
    (hstanding : run.standing senderId = .lockedSince since reloaded)
    (hsharp : sharp = true → reloaded = false ∧ .restart ∉ acts)
    (hwithin : Within since (!sharp) (Runs.after step run acts).now) :
    ∃ reloaded', (Runs.after step run acts).standing senderId = .lockedSince since reloaded' ∧
      (sharp = true → reloaded' = false) := by
  induction acts generalizing run reloaded with
  | nil => exact ⟨reloaded, hstanding, fun h => (hsharp h).1⟩
  | cons act acts ih =>
    rw [Runs.after_cons] at hwithin ⊢
    have hlocked : run.locked senderId = true := by
      have h := hagrees senderId
      unfold Run.Agrees at h
      rw [hstanding] at h
      apply h.locked_of_within
      have hnow := hwithin.mono ((now_le_step run act).trans (now_le_after _ acts))
      cases sharp with
      | true => exact (hsharp rfl).1 ▸ hnow
      | false => exact hnow.of_reloaded reloaded
    obtain ⟨reloaded', hnext, hreloaded⟩ : ∃ reloaded',
        (step run act).standing senderId = .lockedSince since reloaded' ∧
          (sharp = true → reloaded' = false) := by
      cases act with
      | failure sender =>
        have hsender : senderId ≠ sender := by
          rintro rfl
          exact Bool.false_ne_true (hfailures.1.symm.trans hlocked)
        exact ⟨reloaded, by rw [← hstanding]; exact Function.update_of_ne hsender _ _,
          fun h => (hsharp h).1⟩
      | success sender =>
        have hsender : senderId ≠ sender := by
          rintro rfl
          exact Bool.false_ne_true (hsuccesses.1.symm.trans hlocked)
        exact ⟨reloaded, by rw [← hstanding]; exact Function.update_of_ne hsender _ _,
          fun h => (hsharp h).1⟩
      | restart =>
        refine ⟨true, ?_, fun h => absurd List.mem_cons_self (hsharp h).2⟩
        show (run.standing senderId).restart = _
        rw [hstanding]
        rfl
      | wait nanos => exact ⟨reloaded, hstanding, fun h => (hsharp h).1⟩
    exact ih (agrees_step hagrees hfailures.1) hfailures.2 hsuccesses.2 hnext
      (fun h => ⟨hreloaded h, fun hmem => (hsharp h).2 (List.mem_cons_of_mem _ hmem)⟩) hwithin

/-! ## Runs that differ by restarts -/

/-- The run without its restarts. -/
def withoutRestarts (acts : List Act) : List Act := acts.filter (· ≠ .restart)

/-- The standing, whether or not the daemon has restarted. -/
def Standing.forget : Standing → Standing
  | counting n => counting n
  | lockedSince since _ => lockedSince since false

theorem forget_failure (σ : Standing) (now : ℕ) : (σ.failure now).forget = σ.forget.failure now := by
  cases σ with
  | lockedSince since reloaded => rfl
  | counting n =>
    show (if n + 1 = totpMaxFailures then Standing.lockedSince now false
      else .counting (n + 1)).forget = _
    rw [apply_ite Standing.forget]
    rfl

theorem forget_restart (σ : Standing) : σ.restart.forget = σ.forget := by
  cases σ with
  | counting n => rfl
  | lockedSince since reloaded => rfl

/-- The clock and the standings of two runs are the same, up to restarts. -/
def Alike (run run' : Run) : Prop :=
  run.now = run'.now ∧ ∀ senderId, (run.standing senderId).forget = (run'.standing senderId).forget

theorem Alike.step {run run' : Run} (h : Alike run run') (act : Act) :
    Alike (step run act) (step run' act) := by
  cases act with
  | failure sender =>
    refine ⟨h.1, fun senderId => ?_⟩
    unfold Lockout.step
    dsimp only
    by_cases hsender : senderId = sender
    · rw [hsender, Function.update_self, Function.update_self, forget_failure, forget_failure, h.1,
        h.2 sender]
    · rw [Function.update_of_ne hsender, Function.update_of_ne hsender]
      exact h.2 senderId
  | success sender =>
    refine ⟨h.1, fun senderId => ?_⟩
    unfold Lockout.step
    dsimp only
    by_cases hsender : senderId = sender
    · rw [hsender, Function.update_self, Function.update_self]
    · rw [Function.update_of_ne hsender, Function.update_of_ne hsender]
      exact h.2 senderId
  | restart =>
    refine ⟨h.1, fun senderId => ?_⟩
    exact (forget_restart _).trans ((h.2 senderId).trans (forget_restart _).symm)
  | wait nanos => exact ⟨congrArg (· + nanos) h.1, h.2⟩

theorem alike_withoutRestarts {run run' : Run} (h : Alike run run') (acts : List Act) :
    Alike (Runs.after step run acts) (Runs.after step run' (withoutRestarts acts)) := by
  induction acts generalizing run run' with
  | nil => exact h
  | cons act acts ih =>
    unfold withoutRestarts
    by_cases hrestart : act = .restart
    · subst hrestart
      rw [List.filter_cons_of_neg (by simp)]
      exact ih ⟨h.1, fun senderId => (forget_restart _).trans (h.2 senderId)⟩
    · rw [List.filter_cons_of_pos (by simpa using hrestart)]
      exact ih (h.step act)

/-- It is within a second of the end of a lockout. -/
def AtEnd (run : Run) (senderId : String) : Prop :=
  ∃ since reloaded, run.standing senderId = .lockedSince since reloaded ∧
    since + window < run.now + second ∧ run.now < since + window + second

theorem Alike.same_answer {run run' : Run} (halike : Alike run run') (h : run.Agrees senderId)
    (h' : run'.Agrees senderId) :
    run.locked senderId = run'.locked senderId ∨ AtEnd run senderId := by
  obtain ⟨hnow, hforget⟩ := halike
  replace hforget := hforget senderId
  unfold Run.Agrees at h h'
  unfold Run.locked Lockouts.isTotpLockedOut
  rw [← hnow] at h' ⊢
  cases hstanding : run.standing senderId with
  | counting n =>
    cases hstanding' : run'.standing senderId with
    | counting n' =>
      rw [hstanding] at h
      rw [hstanding'] at h'
      rw [h.free_of_counting, h'.free_of_counting]
      exact .inl rfl
    | lockedSince since' reloaded' =>
      rw [hstanding, hstanding'] at hforget
      cases hforget
  | lockedSince since reloaded =>
    cases hstanding' : run'.standing senderId with
    | counting n' =>
      rw [hstanding, hstanding'] at hforget
      cases hforget
    | lockedSince since' reloaded' =>
      rw [hstanding, hstanding'] at hforget
      injection hforget with hsince _
      subst hsince
      rw [hstanding] at h
      rw [hstanding'] at h'
      by_cases hbefore : run.now + second ≤ since + window
      · left
        rw [h.locked_of_within (Within.of_reloaded hbefore _),
          h'.locked_of_within (Within.of_reloaded hbefore _)]
      · by_cases hafter : since + window + second ≤ run.now
        · left
          rw [h.free_of_late hafter, h'.free_of_late hafter]
        · exact .inr ⟨since, reloaded, hstanding, not_le.mp hbefore, not_le.mp hafter⟩

/-- **The lockout is neither shortened nor lost.** Once five failures in a row have been recorded of
a sender, it is locked out for the whole time, to the nanosecond if the daemon has not restarted
since and to the second otherwise; and two runs that differ by restarts give the same answer, but
within a second of the end of a lockout. -/
theorem lockout_not_lost (now : ℕ) (senderId : String) :
    (∀ pre post since reloaded,
      Runs.Along step FailuresGuarded (start now) (pre ++ post) →
      Runs.Along step SuccessesGuarded (Runs.after step (start now) pre) post →
      (Runs.after step (start now) pre).standing senderId = .lockedSince since reloaded →
      ((Runs.after step (start now) (pre ++ post)).now + second ≤ since + window →
        (Runs.after step (start now) (pre ++ post)).locked senderId = true) ∧
      (reloaded = false → .restart ∉ post →
        (Runs.after step (start now) (pre ++ post)).now < since + window →
        (Runs.after step (start now) (pre ++ post)).locked senderId = true)) ∧
    ∀ acts acts', Runs.Along step FailuresGuarded (start now) acts →
      Runs.Along step FailuresGuarded (start now) acts' →
      withoutRestarts acts = withoutRestarts acts' →
      (Runs.after step (start now) acts).locked senderId =
          (Runs.after step (start now) acts').locked senderId ∨
        AtEnd (Runs.after step (start now) acts) senderId := by
  constructor
  · intro pre post since reloaded hfailures hsuccesses hstanding
    have hfinal := agrees_after hfailures senderId
    obtain ⟨hpre, hpost⟩ := (Runs.along_append step).mp hfailures
    have hagrees := fun sender => agrees_after hpre sender
    rw [Runs.after_append] at hfinal ⊢
    unfold Run.Agrees at hfinal
    constructor
    · intro hend
      obtain ⟨reloaded', hstays, -⟩ := @standing_stays _ senderId since reloaded false post hagrees
        hpost hsuccesses hstanding (fun h => absurd h Bool.false_ne_true) hend
      rw [hstays] at hfinal
      exact hfinal.locked_of_within (Within.of_reloaded hend reloaded')
    · intro hreloaded hrestart hend
      obtain ⟨reloaded', hstays, hexact⟩ := @standing_stays _ senderId since reloaded true post
        hagrees hpost hsuccesses hstanding (fun _ => ⟨hreloaded, hrestart⟩) hend
      rw [hstays, hexact rfl] at hfinal
      exact hfinal.locked_of_within hend
  · intro acts acts' hacts hacts' hsame
    have halike := @alike_withoutRestarts (start now) _ ⟨rfl, fun _ => rfl⟩ acts
    have halike' := @alike_withoutRestarts (start now) _ ⟨rfl, fun _ => rfl⟩ acts'
    rw [← hsame] at halike'
    exact Alike.same_answer ⟨halike.1.trans halike'.1.symm, fun sender =>
      (halike.2 sender).trans (halike'.2 sender).symm⟩ (agrees_after hacts senderId)
      (agrees_after hacts' senderId)

instance decidableFailuresGuarded (run : Run) : ∀ act, Decidable (FailuresGuarded run act)
  | .failure senderId => inferInstanceAs (Decidable (run.locked senderId = false))
  | .success _ | .restart | .wait _ => isTrue trivial

instance decidableSuccessesGuarded (run : Run) : ∀ act, Decidable (SuccessesGuarded run act)
  | .success senderId => inferInstanceAs (Decidable (run.locked senderId = false))
  | .failure _ | .restart | .wait _ => isTrue trivial

/-- Five wrong codes in a row. -/
def fiveFailures : List Act := List.replicate 5 (.failure "api_admin")

/-- A restart between two waits does not let the sender in, and the run without it goes the same
way. -/
theorem lockout_not_lost_restart :
    (Runs.after step (start 0) (fiveFailures ++
      [.wait 100000000000, .restart, .wait 100000000000])).locked "api_admin" = true ∧
    ((Runs.after step (start 0) (fiveFailures ++ [.restart])).locked "api_admin" =
        (Runs.after step (start 0) fiveFailures).locked "api_admin" ∨
      AtEnd (Runs.after step (start 0) (fiveFailures ++ [.restart])) "api_admin") :=
  ⟨((lockout_not_lost 0 "api_admin").1 fiveFailures _ 0 false (by decide) (by decide)
    (by decide)).1 (by decide),
    (lockout_not_lost 0 "api_admin").2 _ _ (by decide) (by decide) (by decide)⟩

/-- A code that is accepted while the sender is locked out ends the lockout. -/
theorem success_ends_lockout : ¬ ∀ (now : ℕ) (senderId : String) (pre post : List Act) (since : ℕ)
    (reloaded : Bool), Runs.Along step FailuresGuarded (start now) (pre ++ post) →
      (Runs.after step (start now) pre).standing senderId = .lockedSince since reloaded →
      (Runs.after step (start now) (pre ++ post)).now + second ≤ since + window →
        (Runs.after step (start now) (pre ++ post)).locked senderId = true := by
  intro h
  have hlocked := h 0 "api_admin" fiveFailures [.success "api_admin"] 0 false (by decide)
    (by decide) (by decide)
  exact absurd hlocked (by decide)

end LibreFang.Approval.Lockout
