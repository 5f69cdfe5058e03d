import LibreFang.Drivers.RateGuard
import LibreFang.Lib.Runs

/-!
# Lockouts that are shared by processes

Several processes record and check the lockout of one provider and key. A call is a sequence of steps
on the file; the steps of other calls come in between.

* `Call`, `Event`, `step`: the calls, and the steps of the system; `record_alone`: a call whose steps
  are not interrupted.
* **`lockouts_kept`**: in a run whose steps all fit, every check reports the lockouts.
-/

namespace LibreFang.Drivers.RateLimit

open Runs

/-! ## Calls -/

/-- How far a call of `record` or `check` is. A check carries, as history, the times of the lockouts
that had been recorded when it started and were not over. -/
inductive Call
  | recording (stop : SystemTime) (reason : Option (List Char))
  | reading (stop : SystemTime) (reason : Option (List Char))
  | merged (stop : SystemTime) (reason : Option (List Char))
  | staged (stop : SystemTime) (reason : Option (List Char))
  | recorded (stop : SystemTime)
  | checking (owed : List SystemTime)
  | seen (owed : List SystemTime) (stored : StoredLockout)
  | sweeping (owed : List SystemTime) (read : SystemTime)
  | checked (owed : List SystemTime) (read : SystemTime) (result : Option ℕ)

/-- The file, the clock and the calls; as history, the times whose `record` has returned. -/
structure Shared where
  file : Option LockoutFile
  now : SystemTime
  calls : List Call
  returned : List SystemTime

/-- The clock moves, a call starts, or a call makes its next step, which may fail. -/
inductive Event
  | tick (later : SystemTime)
  | record (stop : SystemTime) (reason : Option (List Char))
  | check
  | step (i : ℕ) (ok : Bool)

/-- A call goes on. -/
def Shared.goes (s : Shared) (i : ℕ) (c : Call) : Shared := { s with calls := s.calls.set i c }

/-- A `record` returns; errors are only logged. -/
def Shared.returns (s : Shared) (i : ℕ) (stop : SystemTime) : Shared :=
  { s with calls := s.calls.set i (.recorded stop), returned := stop :: s.returned }

/-- `fs::read` in `check`. -/
def readFile (s : Shared) (i : ℕ) (owed : List SystemTime) : Shared :=
  match s.file with
  | some (.lockout stored) => s.goes i (.seen owed stored)
  | _ => s.goes i (.checked owed s.now none)

/-- The next step of a call. -/
def advance (provider : List Char) (s : Shared) (i : ℕ) (ok : Bool) : Call → Shared
  | .recording stop reason =>
    -- `create_dir_all`
    if ok then s.goes i (.reading stop reason) else s.returns i stop
  | .reading stop reason =>
    -- the comparison with the lockout that is there, if it can be read
    match if ok then s.file else none with
    | some (.lockout existing) =>
      if stop.untilUnix < existing.untilUnix then s.returns i stop
      else s.goes i (.merged stop reason)
    | _ => s.goes i (.merged stop reason)
  | .merged stop reason =>
    -- the temporary file
    if ok then s.goes i (.staged stop reason) else s.returns i stop
  | .staged stop reason =>
    -- `fs::rename`
    if ok then
      { s.returns i stop with file := some (.lockout ⟨provider, stop.untilUnix, reason⟩) }
    else s.returns i stop
  | .checking owed => if ok then readFile s i owed else s.goes i (.checked owed s.now none)
  | .seen owed stored =>
    -- the clock is read behind the file
    if stored.untilUnix ≤ s.now.untilUnix then s.goes i (.sweeping owed s.now)
    else s.goes i (.checked owed s.now (some (stored.untilUnix - s.now.untilUnix)))
  | .sweeping owed read =>
    -- `fs::remove_file`, whatever the file is now
    { s.goes i (.checked owed read none) with file := if ok then none else s.file }
  | .recorded _ => s
  | .checked _ _ _ => s

/-- A step of the system. -/
def step (provider : List Char) (s : Shared) : Event → Shared
  | .tick later => { s with now := if s.now.1 ≤ later.1 then later else s.now }
  | .record stop reason => { s with calls := s.calls ++ [.recording stop reason] }
  | .check =>
    { s with calls := s.calls ++ [.checking (s.returned.filter fun t => s.now.1 < t.1)] }
  | .step i ok =>
    match s.calls[i]? with
    | some c => advance provider s i ok c
    | none => s

/-- The system before any call. -/
def init (file : Option LockoutFile) (now : SystemTime) : Shared := ⟨file, now, [], []⟩

/-- **A `record` whose steps are not interrupted** does what `record` does to the file. -/
theorem record_alone (files : Files) (now stop : SystemTime) (provider keyId : List Char)
    (reason : Option (List Char)) (disk : Disk) :
    (after (step provider) (init (files (lockoutPath provider keyId)) now)
      [.record stop reason, .step 0 disk.dirCreated, .step 0 true, .step 0 disk.written,
        .step 0 true]).file =
        record disk files provider keyId stop reason (lockoutPath provider keyId) := by
  obtain ⟨dirCreated, written⟩ := disk
  unfold record recordInner
  dsimp only
  generalize hfile : files (lockoutPath provider keyId) = file
  cases dirCreated with
  | false => exact hfile.symm
  | true =>
    cases written with
    | false =>
      rcases file with - | ⟨- | - | existing⟩
      · exact hfile.symm
      · exact hfile.symm
      · exact hfile.symm
      · by_cases hlt : stop.untilUnix < existing.untilUnix
        · simp [after, step, init, advance, Shared.goes, Shared.returns, hlt, hfile]
        · simp [after, step, init, advance, Shared.goes, Shared.returns, hlt, hfile]
    | true =>
      rcases file with - | ⟨- | - | existing⟩
      · simp [after, step, init, advance, Shared.goes, Shared.returns]
      · simp [after, step, init, advance, Shared.goes, Shared.returns]
      · simp [after, step, init, advance, Shared.goes, Shared.returns]
      · by_cases hlt : stop.untilUnix < existing.untilUnix
        · simp [after, step, init, advance, Shared.goes, Shared.returns, hlt, hfile]
        · simp [after, step, init, advance, Shared.goes, Shared.returns, hlt]

/-- The remaining time that a check reports is enough for a lockout. -/
def Reports (read : SystemTime) (result : Option ℕ) (t : SystemTime) : Prop :=
  match result with
  | some secs => t.1 ≤ read.1 + secs * 1000000000
  | none => False

instance (read : SystemTime) : ∀ (result : Option ℕ) (t : SystemTime),
    Decidable (Reports read result t)
  | some secs, t => inferInstanceAs (Decidable (t.1 ≤ read.1 + secs * 1000000000))
  | none, _ => inferInstanceAs (Decidable False)

/-- A check that is done has reported the lockouts that were not over. -/
def Call.Kept : Call → Prop
  | .checked owed read result => ∀ t ∈ owed, read.1 < t.1 → Reports read result t
  | _ => True

instance : ∀ c : Call, Decidable c.Kept
  | .checked owed read result =>
    inferInstanceAs (Decidable (∀ t ∈ owed, read.1 < t.1 → Reports read result t))
  | .recording _ _ | .reading _ _ | .merged _ _ | .staged _ _ | .recorded _ | .checking _
  | .seen _ _ | .sweeping _ _ => isTrue trivial

/-- Every check that is done has. -/
def Kept (s : Shared) : Prop := ∀ c ∈ s.calls, c.Kept

instance (s : Shared) : Decidable (Kept s) := inferInstanceAs (Decidable (∀ c ∈ s.calls, c.Kept))

/-! ## Steps that fit -/

/-- Until when the file has a lockout. -/
def Shared.lockedUntil (s : Shared) : ℕ :=
  match s.file with
  | some (.lockout stored) => stored.untilUnix
  | _ => 0

/-- The time is a whole number of seconds after the epoch. -/
def Whole (t : SystemTime) : Prop := t.1 = t.untilUnix * 1000000000

instance (t : SystemTime) : Decidable (Whole t) := inferInstanceAs (Decidable (_ = _))

/-- The next step of a call fits: it succeeds, where it is not the read of a `record`; a rename does
not replace a longer lockout that has not expired, a sweep does not remove one that has not, and
checks come after the epoch. -/
def Call.Fits (s : Shared) (ok : Bool) : Call → Prop
  | .recording _ _ | .merged _ _ => ok = true
  | .reading _ _ => True
  | .staged stop _ =>
    ok = true ∧ (s.lockedUntil ≤ stop.untilUnix ∨ s.lockedUntil ≤ s.now.untilUnix)
  | .checking _ => ok = true ∧ 0 ≤ s.now.1
  | .seen _ _ => 0 ≤ s.now.1
  | .sweeping _ _ => s.lockedUntil ≤ s.now.untilUnix
  | .recorded _ | .checked _ _ _ => True

instance (s : Shared) (ok : Bool) : ∀ c : Call, Decidable (c.Fits s ok)
  | .recording _ _ | .merged _ _ => inferInstanceAs (Decidable (ok = true))
  | .staged _ _ => inferInstanceAs (Decidable (_ ∧ _))
  | .checking _ => inferInstanceAs (Decidable (_ ∧ _))
  | .seen _ _ => inferInstanceAs (Decidable (0 ≤ s.now.1))
  | .sweeping _ _ => inferInstanceAs (Decidable (_ ≤ _))
  | .reading _ _ | .recorded _ | .checked _ _ _ => isTrue trivial

/-- A step fits. -/
def Fits (s : Shared) : Event → Prop
  | .tick _ => True
  | .record stop _ => Whole stop
  | .check => True
  | .step i ok => ∀ c ∈ s.calls[i]?, c.Fits s ok

instance (s : Shared) : ∀ e, Decidable (Fits s e)
  | .tick _ => isTrue trivial
  | .record stop _ => inferInstanceAs (Decidable (Whole stop))
  | .check => isTrue trivial
  | .step i ok => inferInstanceAs (Decidable (∀ c ∈ s.calls[i]?, c.Fits s ok))

/-! ## The invariant -/

/-- What holds of a call on its way. -/
def Call.Good (s : Shared) : Call → Prop
  | .recording stop _ | .reading stop _ | .merged stop _ | .staged stop _ => Whole stop
  | .recorded _ => True
  | .checking owed => ∀ t ∈ owed, t ∈ s.returned
  | .seen owed stored => ∀ t ∈ owed, Whole t ∧ (s.now.1 < t.1 → t.untilUnix ≤ stored.untilUnix)
  | .sweeping owed read => ∀ t ∈ owed, t.1 ≤ read.1
  | .checked owed read result => ∀ t ∈ owed, read.1 < t.1 → Reports read result t

/-- The file has every lockout that was recorded and is not over. -/
structure Guards (s : Shared) : Prop where
  whole : ∀ t ∈ s.returned, Whole t
  good : ∀ c ∈ s.calls, c.Good s
  held : ∀ t ∈ s.returned, s.now.1 < t.1 → t.untilUnix ≤ s.lockedUntil

theorem Guards.kept {s : Shared} (h : Guards s) : Kept s := by
  intro c hc
  have hgood := h.good c hc
  cases c with
  | checked owed read result => exact hgood
  | recording | reading | merged | staged | recorded | checking | seen | sweeping => trivial

theorem Call.Good.mono {s s' : Shared} {c : Call} (h : c.Good s) (hnow : s.now.1 ≤ s'.now.1)
    (hreturned : ∀ t ∈ s.returned, t ∈ s'.returned) : c.Good s' := by
  cases c with
  | recording stop reason => exact h
  | reading stop reason => exact h
  | merged stop reason => exact h
  | staged stop reason => exact h
  | recorded stop => exact h
  | checking owed => exact fun t ht => hreturned t (h t ht)
  | seen owed stored =>
    exact fun t ht => ⟨(h t ht).1, fun hlt => (h t ht).2 (hnow.trans_lt hlt)⟩
  | sweeping owed read => exact h
  | checked owed read result => exact h

theorem untilUnix_mul_le {t : SystemTime} (h : 0 ≤ t.1) : (t.untilUnix : ℤ) * 1000000000 ≤ t.1 := by
  unfold SystemTime.untilUnix
  rw [if_pos h]
  omega

theorem untilUnix_eq_zero {now t : SystemTime} (hwhole : Whole t) (hlt : now.1 < t.1)
    (hle : t.untilUnix ≤ now.untilUnix) : t.untilUnix = 0 := by
  unfold Whole at hwhole
  by_cases hnow : 0 ≤ now.1
  · have := untilUnix_mul_le hnow
    omega
  · have hzero : now.untilUnix = 0 := if_neg hnow
    omega

section Steps

variable {s : Shared}

theorem Guards.goes (h : Guards s) (i : ℕ) {c : Call} (hc : c.Good s) : Guards (s.goes i c) where
  whole := h.whole
  good := by
    intro d hd
    rcases List.mem_or_eq_of_mem_set hd with hd | rfl
    · exact (h.good d hd).mono le_rfl fun _ ht => ht
    · exact hc.mono le_rfl fun _ ht => ht
  held := h.held

theorem Guards.returns (h : Guards s) (i : ℕ) {stop : SystemTime} (hwhole : Whole stop)
    (hheld : stop.untilUnix ≤ s.lockedUntil) : Guards (s.returns i stop) where
  whole := List.forall_mem_cons.mpr ⟨hwhole, h.whole⟩
  good := by
    intro d hd
    rcases List.mem_or_eq_of_mem_set hd with hd | rfl
    · exact (h.good d hd).mono le_rfl fun _ ht => List.mem_cons_of_mem _ ht
    · trivial
  held := List.forall_mem_cons.mpr ⟨fun _ => hheld, h.held⟩

theorem Guards.withFile (h : Guards s) (file : Option LockoutFile)
    (hheld : ∀ t ∈ s.returned, s.now.1 < t.1 → t.untilUnix ≤ ({ s with file := file }).lockedUntil) :
    Guards { s with file := file } where
  whole := h.whole
  good := fun c hc => (h.good c hc).mono le_rfl fun _ ht => ht
  held := hheld

theorem Guards.rename (h : Guards s) (i : ℕ) {stop : SystemTime} (hwhole : Whole stop)
    (hfits : s.lockedUntil ≤ stop.untilUnix ∨ s.lockedUntil ≤ s.now.untilUnix)
    (provider : List Char) (reason : Option (List Char)) :
    Guards { s.returns i stop with file := some (.lockout ⟨provider, stop.untilUnix, reason⟩) } := by
  have hfile := h.withFile (some (.lockout ⟨provider, stop.untilUnix, reason⟩)) fun t ht hlt => by
    have hheld := h.held t ht hlt
    rcases hfits with hshort | hover
    · exact hheld.trans hshort
    · rw [untilUnix_eq_zero (h.whole t ht) hlt (hheld.trans hover)]
      exact Nat.zero_le _
  exact hfile.returns i hwhole le_rfl

variable {owed : List SystemTime}

theorem Guards.sweep (h : Guards s) (i : ℕ) {read : SystemTime}
    (hover : s.lockedUntil ≤ s.now.untilUnix) (howed : ∀ t ∈ owed, t.1 ≤ read.1) (ok : Bool) :
    Guards { s.goes i (.checked owed read none) with file := if ok then none else s.file } := by
  have hfile := h.withFile (if ok then none else s.file) fun t ht hlt => by
    have hheld := h.held t ht hlt
    rw [untilUnix_eq_zero (h.whole t ht) hlt (hheld.trans hover)]
    exact Nat.zero_le _
  exact hfile.goes i fun t ht hlt => absurd hlt (not_lt.mpr (howed t ht))

theorem Guards.read (h : Guards s) (i : ℕ)
    (howed : ∀ t ∈ owed, t ∈ s.returned) (hepoch : 0 ≤ s.now.1) : Guards (readFile s i owed) := by
  have hnone (hfile : s.lockedUntil = 0) : Guards (s.goes i (.checked owed s.now none)) := by
    refine h.goes i fun t ht hlt => ?_
    have hheld := h.held t (howed t ht) hlt
    have hwhole : t.1 = t.untilUnix * 1000000000 := h.whole t (howed t ht)
    omega
  unfold readFile
  cases hfile : s.file with
  | none =>
    refine hnone ?_
    unfold Shared.lockedUntil
    rw [hfile]
  | some file =>
    cases file with
    | unreadable =>
      refine hnone ?_
      unfold Shared.lockedUntil
      rw [hfile]
    | corrupt =>
      refine hnone ?_
      unfold Shared.lockedUntil
      rw [hfile]
    | lockout stored =>
      refine h.goes i fun t ht => ⟨h.whole t (howed t ht), fun hlt => ?_⟩
      have hheld := h.held t (howed t ht) hlt
      unfold Shared.lockedUntil at hheld
      rwa [hfile] at hheld

theorem Guards.compare (h : Guards s) (i : ℕ) {stored : StoredLockout}
    (howed : ∀ t ∈ owed, Whole t ∧ (s.now.1 < t.1 → t.untilUnix ≤ stored.untilUnix))
    (hepoch : 0 ≤ s.now.1) :
    Guards (if stored.untilUnix ≤ s.now.untilUnix then s.goes i (.sweeping owed s.now)
      else s.goes i (.checked owed s.now (some (stored.untilUnix - s.now.untilUnix)))) := by
  have hsecond := untilUnix_mul_le hepoch
  split
  · next hover =>
    refine h.goes i fun t ht => ?_
    obtain ⟨hwhole, hheld⟩ := howed t ht
    unfold Whole at hwhole
    by_contra hlt
    have := hheld (not_le.mp hlt)
    omega
  · next hleft =>
    refine h.goes i fun t ht hlt => ?_
    obtain ⟨hwhole, hheld⟩ := howed t ht
    unfold Whole at hwhole
    have := hheld hlt
    unfold Reports
    dsimp only
    omega

theorem Guards.merge (h : Guards s) (i : ℕ) {stop : SystemTime} (hwhole : Whole stop)
    (provider : List Char) (reason : Option (List Char)) (ok : Bool) :
    Guards (advance provider s i ok (.reading stop reason)) := by
  have hgoes : Guards (s.goes i (.merged stop reason)) := h.goes i hwhole
  unfold advance
  dsimp only
  split
  · next existing hread =>
    have hfile : s.file = some (.lockout existing) := by
      cases ok with
      | true => exact hread
      | false => cases hread
    by_cases hlonger : stop.untilUnix < existing.untilUnix
    · rw [if_pos hlonger]
      refine h.returns i hwhole ?_
      unfold Shared.lockedUntil
      rw [hfile]
      exact hlonger.le
    · rw [if_neg hlonger]
      exact hgoes
  · exact hgoes

theorem Guards.advance (h : Guards s) (provider : List Char) (i : ℕ) {ok : Bool} {c : Call}
    (hc : c ∈ s.calls) (hfits : c.Fits s ok) : Guards (advance provider s i ok c) := by
  have hgood := h.good c hc
  cases c with
  | recording stop reason =>
    obtain rfl : ok = true := hfits
    exact h.goes i hgood
  | reading stop reason => exact h.merge i hgood provider reason ok
  | merged stop reason =>
    obtain rfl : ok = true := hfits
    exact h.goes i hgood
  | staged stop reason =>
    obtain ⟨rfl, hfits⟩ := hfits
    exact h.rename i hgood hfits provider reason
  | recorded stop => exact h
  | checking owed =>
    obtain ⟨rfl, hepoch⟩ := hfits
    exact h.read i hgood hepoch
  | seen owed stored => exact h.compare i hgood hfits
  | sweeping owed read => exact h.sweep i hfits hgood ok
  | checked owed read result => exact h

/-- **One step of the system.** -/
theorem Guards.step (h : Guards s) (provider : List Char) {e : Event} (hfits : Fits s e) :
    Guards (step provider s e) := by
  cases e with
  | tick later =>
    have hnow : s.now.1 ≤ (if s.now.1 ≤ later.1 then later else s.now).1 := by
      split
      · next hle => exact hle
      · exact le_rfl
    exact ⟨h.whole, fun c hc => (h.good c hc).mono hnow fun _ ht => ht,
      fun t ht hlt => h.held t ht (hnow.trans_lt hlt)⟩
  | record stop reason =>
    refine ⟨h.whole, fun c hc => ?_, h.held⟩
    rcases List.mem_append.mp hc with hc | hc
    · exact (h.good c hc).mono le_rfl fun _ ht => ht
    · rw [List.mem_singleton.mp hc]
      exact hfits
  | check =>
    refine ⟨h.whole, fun c hc => ?_, h.held⟩
    rcases List.mem_append.mp hc with hc | hc
    · exact (h.good c hc).mono le_rfl fun _ ht => ht
    · rw [List.mem_singleton.mp hc]
      exact fun t ht => (List.mem_filter.mp ht).1
  | step i ok =>
    unfold RateLimit.step
    dsimp only
    cases hcall : s.calls[i]? with
    | none => exact h
    | some c => exact h.advance provider i (List.mem_of_getElem? hcall) (hfits c hcall)

end Steps

/-- **Lockouts are kept** in a run whose steps all fit: every check that starts after a `record` has
returned and before the recorded time reports the time that remains. -/
theorem lockouts_kept (provider : List Char) (file : Option LockoutFile) (now : SystemTime)
    (events : List Event) (h : Along (step provider) Fits (init file now) events) :
    Kept (after (step provider) (init file now) events) := by
  have hinit : Guards (init file now) :=
    ⟨fun _ ht => absurd ht List.not_mem_nil, fun _ hc => absurd hc List.not_mem_nil,
      fun _ ht => absurd ht List.not_mem_nil⟩
  exact (invariant (fun s e hs hfits => hs.step provider hfits) hinit h).kept

/-- A time in seconds after the epoch. -/
def atSecond (n : Fin 1000) : SystemTime :=
  ⟨n * 1000000000, by have := n.isLt; omega⟩

/-- One lockout is recorded and checked. -/
theorem kept_check : Kept (after (step "openai".toList) (init none (atSecond 10))
    [.record (atSecond 100) none, .step 0 true, .step 0 true, .step 0 true, .step 0 true, .check,
      .step 1 true, .tick (atSecond 20), .step 1 true]) :=
  lockouts_kept _ _ _ _ (by decide +kernel)

/-- A check has read an expired file; a lockout is recorded; the check removes it. -/
theorem swept_lockout : ¬ ∀ (provider : List Char) (file : Option LockoutFile) (now : SystemTime)
    (events : List Event), Kept (after (step provider) (init file now) events) := by
  intro h
  have hkept := h "openai".toList (some (.lockout ⟨"openai".toList, 5, none⟩)) (atSecond 10)
    [.check, .step 0 true, .step 0 true,
      .record (atSecond 100) none, .step 1 true, .step 1 true, .step 1 true, .step 1 true,
      .step 0 true, .check, .step 2 true]
  revert hkept
  decide +kernel

end LibreFang.Drivers.RateLimit
