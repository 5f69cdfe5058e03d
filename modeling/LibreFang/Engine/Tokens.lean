import LibreFang.Engine.Pauses
import LibreFang.Engine.Resume
import LibreFang.Lib.Claims

/-!
# The tokens of a run that is paused

* `Caller.isLive`, `Caller.Fits`: a call that executes the run, and the run as it leaves it.
* `Shows`: the guard of single-use tokens that the run is at.
* `Related`: one call at most executes the run, and everything fits.
* **`Related.handle`**: every event is one that the guard lets happen.
* **`unambiguous_of_initial`**: in every interleaving the tokens are unambiguous and single-use.
-/

namespace LibreFang.Engine.Pauses

open Claims Runs Tokens

/-! ## The run and its guard -/

/-- The call executes the run, or is about to. -/
def Caller.isLive : Caller → Bool
  | .ending _ | .returned _ => false
  | _ => true

/-- The run is as the call needs it. -/
def Caller.Fits (run : WorkflowRun) : Caller → Prop
  | .entering _ => run.state = .pending
  | .starting _ _ | .gate _ _ => run.state = .running
  | .honor _ request => run.state = .running ∧ run.pauseRequest = some request
  | .work wf s step => run.state = .running ∧ wf.steps[s.index]? = some step
  | .ending _ | .returned _ => True

/-- The run is at this guard. -/
def Shows (run : WorkflowRun) (g : Guard String) : Prop :=
  match run.state with
  | .pending | .running =>
    g.isArmed = false ∧ g.token = run.pauseRequest.map PauseRequest.resumeToken
  | .paused resumeToken _ => g.isArmed = true ∧ g.token = some resumeToken
  | .completed | .failed => True

/-- One call at most executes the run, which is as this call needs it, and at the guard. -/
structure Related (w : World) (g : Guard String) : Prop where
  fits : ∀ p ∈ w.callers, p.Fits w.run
  single : w.callers.countP Caller.isLive ≤ 1
  shows_ : Shows w.run g

variable {run : WorkflowRun} {g : Guard String} {p : Caller} {w : World}

theorem Caller.Fits.of_not_live (run : WorkflowRun) (h : p.isLive = false) : p.Fits run := by
  cases p with
  | ending result => trivial
  | returned result => trivial
  | _ => cases h

theorem Caller.Fits.state (h : p.Fits run) (hlive : p.isLive = true) :
    run.state = .pending ∨ run.state = .running := by
  cases p with
  | entering definition => exact .inl h
  | starting wf input => exact .inr h
  | gate wf s => exact .inr h
  | honor s request => exact .inr h.1
  | work wf s step => exact .inr h.1
  | ending result => cases hlive
  | returned result => cases hlive

theorem Caller.Fits.cleanup (h : p.Fits run) : p.Fits run.cleanupTerminalPauseState := by
  cases hlive : p.isLive with
  | false => exact .of_not_live _ hlive
  | true =>
    have hsame : run.cleanupTerminalPauseState = run := by
      rcases h.state hlive with hstate | hstate
      · simp only [WorkflowRun.cleanupTerminalPauseState, hstate]
      · simp only [WorkflowRun.cleanupTerminalPauseState, hstate]
    rwa [hsame]

/-! ## The guard lets it happen -/

/-- What an event does to the run, with its marks, is what the guard lets happen. -/
def Follows (run : WorkflowRun) (g : Guard String) (marks : List (Mark String)) : Prop :=
  Along Guard.next Guard.Admits g marks ∧ Shows run (after Guard.next g marks)

theorem Shows.of_eq {run' : WorkflowRun} (h : Shows run g) (hstate : run'.state = run.state)
    (hrequest : run'.pauseRequest = run.pauseRequest) : Shows run' g := by
  unfold Shows at h ⊢
  rwa [hstate, hrequest]

theorem Shows.cleanup (h : Shows run g) : Shows run.cleanupTerminalPauseState g := by
  unfold WorkflowRun.cleanupTerminalPauseState
  split
  · rename_i hstate
    simp only [Shows, WorkflowRun.clearPauseState, hstate]
  · rename_i hstate
    simp only [Shows, WorkflowRun.clearPauseState, hstate]
  · exact h

theorem Shows.of_state {state : WorkflowRunState} (hstate : run.state = state)
    (hterminal : state = .completed ∨ state = .failed) : Shows run g := by
  rcases hterminal with rfl | rfl <;> simp only [Shows, hstate]

theorem shows_iff (hstate : run.state = .pending ∨ run.state = .running) : Shows run g ↔
    g.isArmed = false ∧ g.token = run.pauseRequest.map PauseRequest.resumeToken := by
  rcases hstate with hstate | hstate <;> simp only [Shows, hstate]

theorem Follows.silent (h : Shows run g) : Follows run g [] := ⟨trivial, h⟩

theorem Caller.Fits.step (h : p.Fits run) (hshows : Shows run g) (env : Env) :
    (p.step env run).2.Fits (p.step env run).1 ∧
      ((p.step env run).2.isLive = true → p.isLive = true) ∧
      Follows (p.step env run).1 g p.marks := by
  cases p with
  | entering definition =>
    have hrunning : Shows { run with state := .running } g :=
      (shows_iff (.inr rfl)).mpr ((shows_iff (.inl h)).mp hshows)
    cases definition with
    | none => exact ⟨trivial, fun _ => rfl, .silent hrunning⟩
    | some wf => exact ⟨rfl, fun _ => rfl, .silent hrunning⟩
  | starting wf input => exact ⟨h, fun _ => rfl, .silent hshows⟩
  | gate wf s =>
    have hrunning : run.state = .running := h
    dsimp only [Caller.step]
    cases hstep : wf.steps[s.index]? with
    | none => exact ⟨trivial, fun _ => rfl, .silent (.of_state rfl (.inl rfl))⟩
    | some step =>
      dsimp only
      cases hrequest : run.pauseRequest with
      | none => exact ⟨⟨hrunning, hstep⟩, fun _ => rfl, .silent hshows⟩
      | some request => exact ⟨⟨hrunning, hrequest⟩, fun _ => rfl, .silent hshows⟩
  | honor s request =>
    obtain ⟨hrunning, hrequest⟩ := h
    have hguard := (shows_iff (.inr hrunning)).mp hshows
    rw [hrequest] at hguard
    exact ⟨trivial, fun _ => rfl, ⟨⟨hguard.2, hguard.1⟩, trivial⟩, rfl, hguard.2⟩
  | work wf s step =>
    obtain ⟨hrunning, hstep⟩ := h
    dsimp only [Caller.step]
    cases hflow : iterate env wf (onRun s run) step with
    | next s' =>
      have hrun := run_of_iterate (s := onRun s run) hstep hflow
      have hstate : s'.run.state = run.state := by
        rw [hrun]
        rfl
      have hrequest : s'.run.pauseRequest = run.pauseRequest := by
        rw [hrun]
        rfl
      exact ⟨hstate.trans hrunning, fun _ => rfl, .silent (hshows.of_eq hstate hrequest)⟩
    | stop result s' =>
      refine ⟨trivial, fun _ => rfl, .silent ?_⟩
      rcases iterate_stop hflow with ⟨e, -, hfailed, -⟩ | ⟨missing, hmissing⟩
      · exact .of_state hfailed (.inr rfl)
      · cases hmissing
        exact hshows
  | ending result => exact ⟨trivial, fun hlive => hlive, .silent hshows.cleanup⟩
  | returned result => exact ⟨trivial, fun hlive => hlive, .silent hshows⟩

/-! ### The calls of `pause_run` -/

theorem pauseRun_new (hstate : run.state = .pending ∨ run.state = .running)
    (hrequest : run.pauseRequest = none) (request : PauseRequest) :
    pauseRun run request =
      (.ok request.resumeToken, { run with pauseRequest := some request }) := by
  rcases hstate with hstate | hstate <;> simp only [pauseRun, hstate, hrequest]

theorem pauseRun_lodged (hstate : run.state = .pending ∨ run.state = .running)
    {existing : PauseRequest} (hrequest : run.pauseRequest = some existing)
    (request : PauseRequest) : pauseRun run request = (.ok existing.resumeToken, run) := by
  rcases hstate with hstate | hstate <;> simp only [pauseRun, hstate, hrequest]

theorem pauseRun_paused {stored reason : String} (hstate : run.state = .paused stored reason)
    (request : PauseRequest) : pauseRun run request = (.ok stored, run) := by
  simp only [pauseRun, hstate]

theorem pauseRun_run (run : WorkflowRun) (request : PauseRequest) :
    (pauseRun run request).2 = run ∨ run.pauseRequest = none ∧
      (pauseRun run request).2 = { run with pauseRequest := some request } := by
  unfold pauseRun
  split
  iterate 2
    split
    · exact .inl rfl
    · rename_i hrequest
      exact .inr ⟨hrequest, rfl⟩
  all_goals exact .inl rfl

theorem Caller.Fits.pauseRun (h : p.Fits run) (request : PauseRequest) :
    p.Fits (pauseRun run request).2 := by
  rcases pauseRun_run run request with hsame | ⟨hrequest, hnew⟩
  · rwa [hsame]
  · rw [hnew]
    cases p with
    | honor s existing =>
      exact absurd (hrequest.symm.trans h.2) (Option.some_ne_none existing).symm
    | _ => exact h

theorem Shows.pauseRun (h : Shows run g) (callers : List Caller) (request : PauseRequest) :
    Follows (pauseRun run request).2 g (World.marks ⟨run, callers⟩ (.pauseRun request)) := by
  have hopen (hstate : run.state = .pending ∨ run.state = .running) :
      Follows (Engine.pauseRun run request).2 g
        (World.marks ⟨run, callers⟩ (.pauseRun request)) := by
    have hguard := (shows_iff hstate).mp h
    rw [World.marks]
    cases hrequest : run.pauseRequest with
    | none =>
      rw [hrequest] at hguard
      rw [pauseRun_new hstate hrequest]
      have hafter : Shows { run with pauseRequest := some request }
          (g.next (.told request.resumeToken)) := by
        refine (shows_iff ?_).mpr ⟨hguard.1, rfl⟩
        exact hstate
      exact ⟨⟨.inl hguard.2, trivial⟩, hafter⟩
    | some existing =>
      rw [hrequest] at hguard
      rw [pauseRun_lodged hstate hrequest]
      refine ⟨⟨.inr hguard.2, trivial⟩, (shows_iff hstate).mpr ⟨hguard.1, ?_⟩⟩
      rw [hrequest]
      rfl
  cases hstate : run.state with
  | pending => exact hopen (.inl hstate)
  | running => exact hopen (.inr hstate)
  | paused stored reason =>
    have hguard : g.isArmed = true ∧ g.token = some stored := by
      simpa only [Shows, hstate] using h
    rw [World.marks, pauseRun_paused hstate]
    refine ⟨⟨.inr hguard.2, trivial⟩, ?_⟩
    simp only [Shows, hstate]
    exact ⟨hguard.1, rfl⟩
  | completed =>
    simp only [World.marks, Engine.pauseRun, hstate]
    exact .silent (.of_state hstate (.inl rfl))
  | failed =>
    simp only [World.marks, Engine.pauseRun, hstate]
    exact .silent (.of_state hstate (.inr rfl))

/-! ### The calls of `resume_run` -/

theorem resumeStart_refused {resumeToken : String}
    (hrefused : ∀ reason, run.state ≠ .paused resumeToken reason) (definition : Option Workflow) :
    ∃ e, resumeStart run resumeToken definition = (run, .returned (.error e)) := by
  unfold resumeStart
  split
  · rename_i stored reason hstate
    by_cases hne : stored ≠ resumeToken
    · rw [if_pos hne]
      exact ⟨_, rfl⟩
    · obtain rfl := not_not.mp hne
      exact absurd hstate (hrefused reason)
  all_goals exact ⟨_, rfl⟩

variable {resumeToken reason : String}

theorem resumeStart_paused
    (hstate : run.state = .paused resumeToken reason) (definition : Option Workflow) :
    resumeStart run resumeToken definition = (run.resumed, resumeNext run definition) := by
  simp only [resumeStart, hstate, ne_eq, not_true_eq_false, if_false]

theorem marks_refused {resumeToken : String}
    (hrefused : ∀ reason, w.run.state ≠ .paused resumeToken reason) (definition : Option Workflow) :
    w.marks (.resumeRun resumeToken definition) = [] := by
  rw [World.marks]
  split
  · rename_i stored reason hstate
    refine if_pos fun heq => ?_
    rw [heq] at hstate
    exact hrefused reason hstate
  · rfl

theorem marks_paused
    (hstate : w.run.state = .paused resumeToken reason) (definition : Option Workflow) :
    w.marks (.resumeRun resumeToken definition) = [.fired resumeToken] := by
  simp only [World.marks, hstate, ne_eq, not_true_eq_false, if_false]

theorem fits_resumeNext (run : WorkflowRun) (definition : Option Workflow) :
    (resumeNext run definition).Fits run.resumed := by
  cases definition with
  | none => trivial
  | some wf =>
    dsimp only [resumeNext]
    split
    · trivial
    · rfl

/-! ## Every event -/

theorem Related.idle (h : Related w g) (hstate : w.run.state = .paused resumeToken reason) :
    w.callers.countP Caller.isLive = 0 := by
  refine List.countP_eq_zero.mpr fun p hp hlive => ?_
  rcases (h.fits p hp).state hlive with hrun | hrun
  · cases hstate.symm.trans hrun
  · cases hstate.symm.trans hrun

theorem Caller.Fits.beside {q : Caller} (h : q.Fits run) (hlive : p.isLive = false) (env : Env) :
    q.Fits (p.step env run).1 := by
  cases p with
  | ending result => exact h.cleanup
  | returned result => exact h
  | _ => cases hlive

theorem Related.step (h : Related w g) {i : ℕ} (hi : w.callers[i]? = some p) (env : Env) :
    Along Guard.next Guard.Admits g p.marks ∧
      Related ⟨(p.step env w.run).1, w.callers.set i (p.step env w.run).2⟩
        (after Guard.next g p.marks) := by
  obtain ⟨hfits, hlive, hadmits, hshows⟩ :=
    (h.fits p (List.mem_of_getElem? hi)).step h.shows_ env
  refine ⟨hadmits, fun q hq => ?_, ?_, hshows⟩
  · obtain ⟨j, hj⟩ := List.mem_iff_getElem?.mp hq
    rw [List.getElem?_set] at hj
    split_ifs at hj with hij
    · obtain rfl := Option.some.inj hj
      exact hfits
    · -- another call: it does not execute the run if this one does
      cases hother : q.isLive with
      | false => exact .of_not_live _ hother
      | true =>
        cases hown : p.isLive with
        | false => exact (h.fits q (List.mem_of_getElem? hj)).beside hown env
        | true => exact absurd (eq_of_countP_le_one h.single hi hown hj hother) hij
  · have hset := countP_set (P := Caller.isLive) hi (p.step env w.run).2
    have hsingle := h.single
    cases hnext : (p.step env w.run).2.isLive with
    | false =>
      rw [hnext] at hset
      dsimp only [Bool.toNat_false] at hset ⊢
      omega
    | true =>
      rw [hnext, hlive hnext] at hset
      dsimp only at hset ⊢
      omega

/-- **Every event is one that the guard lets happen.** -/
theorem Related.handle (h : Related w g) (e : Event) :
    Along Guard.next Guard.Admits g (w.marks e) ∧
      Related (w.handle e) (after Guard.next g (w.marks e)) := by
  cases e with
  | pauseRun request =>
    obtain ⟨hadmits, hshows⟩ := h.shows_.pauseRun w.callers request
    exact ⟨hadmits, fun p hp => (h.fits p hp).pauseRun request, h.single, hshows⟩
  | resumeRun resumeToken definition =>
    by_cases hpaused : ∃ reason, w.run.state = .paused resumeToken reason
    · obtain ⟨reason, hstate⟩ := hpaused
      have hidle := h.idle hstate
      have hguard : g.isArmed = true ∧ g.token = some resumeToken := by
        simpa only [Shows, hstate] using h.shows_
      rw [marks_paused hstate, World.handle, resumeStart_paused hstate]
      refine ⟨⟨⟨hguard.2, hguard.1⟩, trivial⟩, fun p hp => ?_, ?_, (shows_iff (.inr rfl)).mpr ?_⟩
      · rcases List.mem_append.mp hp with hp | hp
        · exact .of_not_live _ (Bool.eq_false_iff.mpr (List.countP_eq_zero.mp hidle p hp))
        · obtain rfl := List.mem_singleton.mp hp
          exact fits_resumeNext w.run definition
      · rw [List.countP_append, hidle, List.countP_singleton]
        split <;> omega
      · exact ⟨rfl, rfl⟩
    · have hrefused := not_exists.mp hpaused
      obtain ⟨e, hstart⟩ := resumeStart_refused hrefused definition
      rw [marks_refused hrefused, World.handle, hstart]
      refine ⟨trivial, fun p hp => ?_, ?_, h.shows_⟩
      · rcases List.mem_append.mp hp with hp | hp
        · exact h.fits p hp
        · obtain rfl := List.mem_singleton.mp hp
          trivial
      · rw [List.countP_append]
        exact h.single
  | step i env =>
    dsimp only [World.handle, World.marks]
    cases hi : w.callers[i]? with
    | none => exact ⟨trivial, h⟩
    | some p => exact h.step hi env

/-! ## Becoming paused -/

theorem Caller.Fits.paused (h : p.Fits run) (env : Env)
    (hpaused : (p.step env run).1.state = .paused resumeToken reason) :
    run.state = .paused resumeToken reason ∨ p.marks = [.armed resumeToken] := by
  cases p with
  | entering definition => cases definition <;> cases hpaused
  | starting wf input => exact .inl hpaused
  | gate wf s =>
    dsimp only [Caller.step] at hpaused
    cases hstep : wf.steps[s.index]? with
    | none =>
      rw [hstep] at hpaused
      cases hpaused
    | some step =>
      rw [hstep] at hpaused
      cases hrequest : run.pauseRequest <;> rw [hrequest] at hpaused <;> exact .inl hpaused
  | honor s request =>
    have hstate : WorkflowRunState.paused request.resumeToken request.reason =
      .paused resumeToken reason := hpaused
    cases hstate
    exact .inr rfl
  | work wf s step =>
    obtain ⟨-, hstep⟩ := h
    dsimp only [Caller.step] at hpaused
    cases hflow : iterate env wf (onRun s run) step with
    | next s' =>
      rw [hflow] at hpaused
      dsimp only at hpaused
      rw [run_of_iterate (s := onRun s run) hstep hflow] at hpaused
      exact .inl hpaused
    | stop result s' =>
      rw [hflow] at hpaused
      dsimp only at hpaused
      rcases iterate_stop hflow with ⟨e, -, hfailed, -⟩ | ⟨missing, hmissing⟩
      · cases hfailed.symm.trans hpaused
      · cases hmissing
        exact .inl hpaused
  | ending result =>
    dsimp only [Caller.step] at hpaused
    unfold WorkflowRun.cleanupTerminalPauseState at hpaused
    split at hpaused <;> exact .inl hpaused
  | returned result => exact .inl hpaused

/-- **A run becomes paused only with the token that is seen.** -/
theorem Related.paused (h : Related w g) {e : Event}
    (hpaused : (w.handle e).run.state = .paused resumeToken reason) :
    w.run.state = .paused resumeToken reason ∨ w.marks e = [.armed resumeToken] := by
  cases e with
  | pauseRun request =>
    rcases pauseRun_run w.run request with hsame | ⟨-, hnew⟩
    · rw [World.handle, hsame] at hpaused
      exact .inl hpaused
    · rw [World.handle, hnew] at hpaused
      exact .inl hpaused
  | resumeRun token definition =>
    by_cases hstate : ∃ reason, w.run.state = .paused token reason
    · obtain ⟨reason', hstate⟩ := hstate
      rw [World.handle, resumeStart_paused hstate] at hpaused
      cases hpaused
    · obtain ⟨e, hstart⟩ := resumeStart_refused (not_exists.mp hstate) definition
      rw [World.handle, hstart] at hpaused
      exact .inl hpaused
  | step i env =>
    dsimp only [World.handle, World.marks] at hpaused ⊢
    cases hi : w.callers[i]? with
    | none =>
      rw [hi] at hpaused
      exact .inl hpaused
    | some p =>
      rw [hi] at hpaused
      exact (h.fits p (List.mem_of_getElem? hi)).paused env hpaused

/-! ## All runs -/

theorem related_of_initial (h : w.Initial) :
    ∃ g, Related w g ∧ (g.token = none ∨ g.isArmed = true) := by
  cases h with
  | created wf id input definition hdag =>
    refine ⟨⟨none, false⟩, ⟨fun p hp => ?_, Nat.le_refl 1, rfl, rfl⟩, .inl rfl⟩
    obtain rfl := List.mem_singleton.mp hp
    rfl
  | loaded run hpending hrunning =>
    have hnone (p : Caller) (hp : p ∈ ([] : List Caller)) : p.Fits run :=
      absurd hp List.not_mem_nil
    cases hstate : run.state with
    | pending => exact absurd hstate hpending
    | running => exact absurd hstate hrunning
    | paused stored reason =>
      refine ⟨⟨some stored, true⟩, ⟨hnone, Nat.zero_le 1, ?_⟩, .inr rfl⟩
      simp only [Shows, hstate, and_self]
    | completed =>
      exact ⟨⟨none, false⟩, ⟨hnone, Nat.zero_le 1, .of_state hstate (.inl rfl)⟩, .inl rfl⟩
    | failed => exact ⟨⟨none, false⟩, ⟨hnone, Nat.zero_le 1, .of_state hstate (.inr rfl)⟩, .inl rfl⟩

/-- What is seen of the events, in order. -/
def seen (w : World) (events : List Event) : List (Mark String) :=
  trace World.handle World.marks w events

/-- The tokens are unambiguous and single-use in the run of these events. -/
structure Unambiguous (w : World) (events : List Event) : Prop where
  /-- without a resume between them, `pause_run` returns, and the run is paused with, one token -/
  agree : ∀ front mid rest, seen w events = front ++ mid ++ rest → (∀ m ∈ mid, m.Unfired) →
    ∀ m ∈ mid, ∀ m' ∈ mid, m.token = m'.token
  /-- a run that becomes paused has a token that `pause_run` has just returned -/
  told : ∀ front rest token, seen w events = front ++ .armed token :: rest →
    ∃ before, front = before ++ [.told token]
  /-- it becomes paused only so -/
  becomes : ∀ front e rest, events = front ++ e :: rest → ∀ token reason,
    (after World.handle w (front ++ [e])).run.state = .paused token reason →
      (after World.handle w front).run.state = .paused token reason ∨
        (after World.handle w front).marks e = [.armed token]
  /-- a paused run has the token that was seen since the last resume -/
  carried : ∀ front rest, events = front ++ rest → ∀ token reason,
    (after World.handle w front).run.state = .paused token reason →
      ∀ older since, seen w front = older ++ since → (∀ m ∈ since, m.Unfired) →
        ∀ m ∈ since, m.token = token
  /-- `resume_run` with another token, or of a run that is not paused, changes nothing -/
  refused : ∀ front rest, events = front ++ rest → ∀ token,
    (∀ reason, (after World.handle w front).run.state ≠ .paused token reason) →
      ∀ definition, ∃ e, (after World.handle w front).handle (.resumeRun token definition) =
        ⟨(after World.handle w front).run,
          (after World.handle w front).callers ++ [.returned (.error e)]⟩
  /-- between two resumes the run becomes paused -/
  once : ∀ front mid rest token token',
    seen w events = front ++ .fired token :: (mid ++ .fired token' :: rest) →
      ∃ armed, Mark.armed armed ∈ mid

/-- **In every interleaving the tokens are unambiguous and single-use.** -/
theorem unambiguous_of_initial (h : w.Initial) (events : List Event) : Unambiguous w events := by
  obtain ⟨g, hrelated, hg⟩ := related_of_initial h
  have hstep (w : World) (e : Event) (g : Guard String) (hw : Related w g) :
      Along Guard.next Guard.Admits g (World.marks w e) ∧
        Related (World.handle w e) (after Guard.next g (World.marks w e)) := hw.handle e
  have hrun (events : List Event) := along_trace hstep hrelated events
  have hadmits := (hrun events).1
  constructor
  · intro front mid rest htrace hunfired m hm m' hm'
    rw [seen] at htrace
    rw [htrace, along_append] at hadmits
    have hmid := ((along_append Guard.next).mp hadmits.1).2
    exact Option.some.inj
      ((eq_token_of_mem hmid hunfired hm).symm.trans (eq_token_of_mem hmid hunfired hm'))
  · intro front rest token htrace
    rw [seen] at htrace
    rw [htrace] at hadmits
    exact last_of_armed hg hadmits
  · rintro front e rest rfl token reason hpaused
    rw [after_append] at hpaused
    exact (hrun front).2.paused hpaused
  · rintro front rest rfl token reason hpaused older since htrace hunfired m hm
    obtain ⟨hfront, hend⟩ := hrun front
    rw [seen] at htrace
    have hshows := hend.shows_
    rw [Shows, hpaused] at hshows
    rw [htrace] at hfront
    have hsince := eq_token_of_mem ((along_append Guard.next).mp hfront).2 hunfired hm
    rw [htrace, after_append, hsince] at hshows
    exact Option.some.inj hshows.2
  · rintro front rest rfl token hrefused definition
    obtain ⟨e, hstart⟩ := resumeStart_refused hrefused definition
    refine ⟨e, ?_⟩
    rw [World.handle, hstart]
  · intro front mid rest token token' htrace
    rw [seen] at htrace
    rw [htrace] at hadmits
    exact armed_of_fired hadmits

/-- A run is paused before its first step, and resumed by the second of three callers. -/
def sampleEvents : List Event :=
  let wf := sampleWorkflow .sequential .sequential
  [.pauseRun ⟨"approval", "token-1"⟩, .step 0 sampleEnv, .step 0 sampleEnv, .step 0 sampleEnv,
    .pauseRun ⟨"approval", "token-2"⟩, .step 0 sampleEnv, .resumeRun "token-2" (some wf),
    .resumeRun "token-1" (some wf), .resumeRun "token-1" (some wf)]

theorem unambiguous_of_initial_sample :
    seen ⟨createRun (sampleWorkflow .sequential .sequential) "run-1" "go",
      [.entering (some (sampleWorkflow .sequential .sequential))]⟩ sampleEvents =
        [.told "token-1", .told "token-1", .armed "token-1", .fired "token-1"] ∧
      Unambiguous ⟨createRun (sampleWorkflow .sequential .sequential) "run-1" "go",
        [.entering (some (sampleWorkflow .sequential .sequential))]⟩ sampleEvents := by
  refine ⟨rfl, unambiguous_of_initial (.created _ _ _ _ fun found hfound => ?_) sampleEvents⟩
  obtain rfl := Option.some.inj hfound
  rfl

end LibreFang.Engine.Pauses
