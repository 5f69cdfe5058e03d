import LibreFang.Lib.Runs
import LibreFang.Session.Strip
import LibreFang.Agent.Loop

/-!
# The life of a session

The session of an agent is loaded for a turn and stored by it. Between the turns the kernel clears
it, adds system messages, compacts it, shortens it, and puts in the results of approved calls.

* `ForkSaves`: what a fork stores; **`fork_runAgentLoop`**.
* `memorized`: the messages that a finished turn hands to the memory;
  **`memorized_runAgentLoop`**: they are those of the turn exactly when no silent reply before them
  was removed.
* `SessionOp`, `step`: what happens to a stored session.
* **`sound_of_life`**: whatever happens, every request of every turn is sound, and servable if no
  engine compacts, and what is stored can be repaired and has its pairs.
-/

namespace LibreFang.Agent

open Session Text Context

/-! ## Forks -/

/-- An answer that is taken for a progress leak. -/
def Response.leaks (cfg : LoopConfig) (response : Response) : Bool :=
  let parsed := directives response.text
  !(isSilentResponse cfg.v2Enabled (String.ofList parsed.1) || parsed.2) &&
    (response.toolCalls.isEmpty && isProgressTextLeak parsed.1)

/-- A round with such an answer at the end of a turn. -/
def Round.leaks (cfg : LoopConfig) (round : Round) : Bool :=
  match round.response with
  | .error _ => false
  | .ok response => decide ((promoted cfg response).stopReason ∈ [.endTurn, .stopSequence]) &&
      (promoted cfg response).leaks cfg

section Forks

variable {cfg : LoopConfig} {s : LoopState} {round : Round} {response : Response} {iteration : ℕ}

theorem save_false (s : LoopState) : s.save false = s := rfl

theorem saveUnlessFork_of_fork (hfork : cfg.isFork = true) (stored : Bool) (s : LoopState) :
    s.saveUnlessFork cfg stored = s := by
  rw [LoopState.saveUnlessFork, hfork, Bool.not_true, Bool.false_and, save_false]

theorem retry_saved (s : LoopState) (text : List Char) (now : ℤ) (retry : EndTurnRetry) :
    (s.retry text now retry).saved = s.saved ∧ (s.retry text now retry).requests = s.requests := by
  cases retry <;> exact ⟨rfl, rfl⟩

/-- What a round does to what is sent and stored in a fork. -/
structure ForkStep (s s' : LoopState) (leaks stored : Bool) (ended : Option LoopEnd) : Prop where
  requests : s'.requests = s.requests
  saved : s'.saved = if leaks && stored then s.saved ++ [s'.histories.session] else s.saved
  ends : leaks = true → ended ≠ none

theorem ForkStep.of_answered {s' : LoopState} {leaks stored : Bool} {ended : Option LoopEnd}
    (h : ForkStep (s.answered cfg response) s' leaks stored ended) :
    ForkStep s s' leaks stored ended :=
  ⟨h.requests, h.saved, h.ends⟩

theorem forkStep_endRound (hfork : cfg.isFork = true) :
    ForkStep s (endRound cfg iteration round response s).1 (response.leaks cfg) round.stored
      (endRound cfg iteration round response s).2 := by
  unfold endRound Response.leaks
  dsimp only
  cases hsilent : isSilentResponse cfg.v2Enabled (String.ofList (directives response.text).1) ||
      (directives response.text).2 with
  | true =>
    rw [if_pos rfl, saveUnlessFork_of_fork hfork]
    exact ⟨rfl, rfl, fun h => absurd h Bool.false_ne_true⟩
  | false =>
    rw [if_neg Bool.false_ne_true]
    cases hleak : response.toolCalls.isEmpty && isProgressTextLeak (directives response.text).1 with
    | true =>
      rw [if_pos rfl]
      refine ⟨rfl, ?_, fun _ => Option.some_ne_none _⟩
      cases round.stored <;> rfl
    | false =>
      rw [if_neg Bool.false_ne_true]
      cases classifyEndTurnRetry cfg s iteration (directives response.text).1 response with
      | some retry =>
        obtain ⟨hsaved, hrequests⟩ := retry_saved s (directives response.text).1
          round.summaries.now retry
        exact ⟨hrequests, hsaved, fun h => absurd h Bool.false_ne_true⟩
      | none =>
        dsimp only
        rw [saveUnlessFork_of_fork hfork]
        exact ⟨rfl, rfl, fun h => absurd h Bool.false_ne_true⟩

theorem forkStep_toolRound (hfork : cfg.isFork = true) (stored : Bool) :
    ForkStep s (toolRound cfg round response s).1 false stored
      (toolRound cfg round response s).2 := by
  unfold toolRound
  dsimp only
  cases runTools cfg.budget round.script round.summaries.now s.histories 0
      response.toolCalls (stageToolUseTurn response round.summaries.now) with
  | none =>
    dsimp only
    rw [saveUnlessFork_of_fork hfork]
    exact ⟨repairSession_requests _, repairSession_saved _, fun h => absurd h Bool.false_ne_true⟩
  | some ended =>
    obtain ⟨histories, outcomes⟩ := ended
    dsimp only
    rw [saveUnlessFork_of_fork hfork]
    split_ifs
    all_goals exact ⟨rfl, rfl, fun h => absurd h Bool.false_ne_true⟩

theorem forkStep_maxTokensRound (hfork : cfg.isFork = true) (stored : Bool) :
    ForkStep s (maxTokensRound cfg round response s).1 false stored
      (maxTokensRound cfg round response s).2 := by
  unfold maxTokensRound
  dsimp only
  rw [saveUnlessFork_of_fork hfork]
  split_ifs
  all_goals exact ⟨rfl, rfl, fun h => absurd h Bool.false_ne_true⟩

/-- **A round of a fork** sends one request, unless it is cancelled, and stores nothing but the
session of a progress leak, which ends the turn. -/
theorem forkStep_stepRound (hfork : cfg.isFork = true) (s : LoopState) (round : Round)
    (iteration : ℕ) :
    (round.cancelled = true ∧ stepRound cfg iteration round s = (s, some .interrupted)) ∨
      ForkStep (s.asked cfg round) (stepRound cfg iteration round s).1 (round.leaks cfg) round.stored
        (stepRound cfg iteration round s).2 := by
  unfold stepRound Round.leaks
  cases hcancelled : round.cancelled with
  | true => exact .inl ⟨rfl, if_pos rfl⟩
  | false =>
    right
    rw [if_neg Bool.false_ne_true]
    dsimp only
    cases round.response with
    | error message => exact ⟨rfl, rfl, fun h => absurd h Bool.false_ne_true⟩
    | ok response =>
      dsimp only
      cases (promoted cfg response).stopReason with
      | endTurn | stopSequence =>
        rw [decide_eq_true (by decide), Bool.true_and]
        exact (forkStep_endRound hfork).of_answered
      | toolUse =>
        rw [decide_eq_false (by decide), Bool.false_and]
        exact (forkStep_toolRound hfork _).of_answered
      | maxTokens =>
        rw [decide_eq_false (by decide), Bool.false_and]
        exact (forkStep_maxTokensRound hfork _).of_answered

variable (cfg) in
/-- What the rounds of a fork have stored: at most the session they end with, and that exactly when
the last answer is a progress leak. -/
structure ForkSaves (rounds : ℕ → Round) (s : LoopState) : Prop where
  once : s.saved = [] ∨ s.saved = [s.histories.session]
  leak : s.saved ≠ [] ↔
    ∃ i, s.requests.length = i + 1 ∧ (rounds i).leaks cfg = true ∧ (rounds i).stored = true

theorem length_requests_asked (s : LoopState) (round : Round) :
    (s.asked cfg round).requests.length = s.requests.length + 1 := by
  rw [LoopState.asked, List.length_append, List.length_singleton]

theorem ForkSaves.of_nil {rounds : ℕ → Round} (hsaved : s.saved = [])
    (hbefore : ∀ i, s.requests.length = i + 1 → (rounds i).leaks cfg = true →
      (rounds i).stored = false) : ForkSaves cfg rounds s where
  once := .inl hsaved
  leak := by
    refine iff_of_false (fun hne => hne hsaved) ?_
    rintro ⟨i, hi, hleaks, hstored⟩
    rw [hbefore i hi hleaks] at hstored
    exact Bool.false_ne_true hstored

theorem fork_runRounds (hfork : cfg.isFork = true) (rounds : ℕ → Round) (iteration left : ℕ)
    (hlen : s.requests.length = iteration) (hsaved : s.saved = [])
    (hbefore : ∀ i, i + 1 = iteration → (rounds i).leaks cfg = false) :
    ForkSaves cfg rounds (runRounds cfg rounds iteration left s).1 := by
  have hnone : ∀ i, s.requests.length = i + 1 → (rounds i).leaks cfg = true →
      (rounds i).stored = false := by
    intro i hi hleaks
    rw [hbefore i (hi.symm.trans hlen)] at hleaks
    cases hleaks
  induction left generalizing iteration s with
  | zero =>
    rw [runRounds, saveUnlessFork_of_fork hfork]
    refine ForkSaves.of_nil ?_ ?_
    · rw [repairSession_saved, hsaved]
    · rw [repairSession_requests]
      exact hnone
  | succ left ih =>
    rw [runRounds]
    rcases forkStep_stepRound hfork s (rounds iteration) iteration with ⟨-, hround⟩ | hstep
    · rw [hround]
      exact .of_nil hsaved hnone
    · have hlen' : (stepRound cfg iteration (rounds iteration) s).1.requests.length =
          iteration + 1 := by
        rw [hstep.requests, length_requests_asked, hlen]
      have hsaved' := hstep.saved
      have hends := hstep.ends
      rcases hround : stepRound cfg iteration (rounds iteration) s with ⟨s', _ | ended⟩
      · -- the turn goes on, so there was no leak
        rw [hround] at hlen' hsaved' hends
        have hleaks : (rounds iteration).leaks cfg = false := by
          by_contra hne
          exact hends (Bool.of_not_eq_false hne) rfl
        rw [hleaks, Bool.false_and, if_neg Bool.false_ne_true] at hsaved'
        have hbefore' : ∀ i, i + 1 = iteration + 1 → (rounds i).leaks cfg = false := by
          intro i hi
          rw [Nat.succ.inj hi]
          exact hleaks
        refine ih (iteration + 1) hlen' (hsaved'.trans hsaved) hbefore' ?_
        intro i hi hleaks'
        rw [hbefore' i (hi.symm.trans hlen')] at hleaks'
        cases hleaks'
      · rw [hround] at hlen' hsaved'
        have hnil : (s.asked cfg (rounds iteration)).saved = [] := hsaved
        rw [hnil, List.nil_append] at hsaved'
        dsimp only
        cases hleak : (rounds iteration).leaks cfg && (rounds iteration).stored with
        | true =>
          rw [hleak, if_pos rfl] at hsaved'
          obtain ⟨hleaks, hstored⟩ := Bool.and_eq_true_iff.mp hleak
          refine ⟨.inr hsaved', iff_of_true ?_ ⟨iteration, hlen', hleaks, hstored⟩⟩
          rw [hsaved']
          exact List.cons_ne_nil _ _
        | false =>
          rw [hleak, if_neg Bool.false_ne_true] at hsaved'
          refine .of_nil hsaved' fun i hi hleaks => ?_
          rw [hlen'] at hi
          rw [← Nat.succ.inj hi] at hleaks ⊢
          rwa [hleaks, Bool.true_and] at hleak

/-- **A fork leaves the store alone, but for a progress leak**: of all its rounds, only a last answer
that is taken for one has the session stored. -/
theorem fork_runAgentLoop (cfg : LoopConfig) (session : List Message) (t : TurnStart)
    (rounds : ℕ → Round) (hfork : cfg.isFork = true) :
    ForkSaves cfg rounds (runAgentLoop cfg session t rounds).1 := by
  refine fork_runRounds hfork rounds 0 cfg.maxIterations rfl rfl fun i hi => ?_
  cases hi

/-- A chat whose engine keeps two messages, and a heartbeat that keeps one. -/
def heartbeatConfig : LoopConfig where
  window := ⟨"", [], 100000⟩
  engine := some 2
  casing := dotCasing
  v2Enabled := true
  isFork := false
  maxIterations := 3
  maxHistory := 40
  heartbeatKeepRecent := some 1
  userMessage := "Status?"
  effectiveUserMessage := "Status?"
  budget := ⟨⟨50000, 200000, []⟩, fun _ _ => true⟩
  recoverTextToolCalls := fun _ => []

/-- A question without any context. -/
def question : TurnStart := ⟨Message.user "Status?" 0, ⟨none, none, none⟩, 0⟩

/-- A model that answers with a text at once. -/
def answering (text : String) : ℕ → Round := fun _ =>
  { cancelled := false
    summaries := ⟨silent, fun _ => silent, fun _ => 0, 0⟩
    response := .ok ⟨[.text text none], .endTurn, [], 7, 3⟩
    script := ⟨fun _ => .circuitBreak, fun _ => none⟩
    stored := true }

/-- A fork whose answer ends as an announcement has its session stored. -/
theorem forkSaves_looking :
    ForkSaves { heartbeatConfig with isFork := true } (answering "Looking...")
      (runAgentLoop { heartbeatConfig with isFork := true } [] question
        (answering "Looking...")).1 ∧
    (runAgentLoop { heartbeatConfig with isFork := true } [] question
      (answering "Looking...")).1.saved ≠ [] :=
  ⟨fork_runAgentLoop { heartbeatConfig with isFork := true } [] question (answering "Looking...") rfl,
    by decide +kernel⟩

end Forks


/-! ## What is memorized -/

/-- The messages that `finalize_successful_end_turn` hands to the memory; `none` is a slice that
panics. -/
def memorized (session : List Message) (newMessagesStart : ℕ) : Option (List Message) :=
  if newMessagesStart ≤ session.length then some (session.drop newMessagesStart) else none

/-- The silent replies that are removed from a session. -/
def removedReplies (v2Enabled : Bool) (ms : List Message) (keepRecent : ℕ) : ℕ :=
  (ms.take (ms.length - keepRecent)).countP (isNoReply v2Enabled)

section Memorized

variable {listed : Prop} {cfg : LoopConfig} {s : LoopState} {round : Round} {response : Response} {iteration : ℕ}

theorem length_pruneHeartbeatTurns (v2Enabled : Bool) (ms : List Message) (keepRecent : ℕ) :
    (pruneHeartbeatTurns v2Enabled ms keepRecent).length + removedReplies v2Enabled ms keepRecent =
      ms.length := by
  unfold pruneHeartbeatTurns removedReplies
  split_ifs with hshort
  · rw [Nat.sub_eq_zero_of_le hshort, List.take_zero, List.countP_nil, Nat.add_zero]
  · dsimp only
    have hsplit := List.length_eq_countP_add_countP (isNoReply v2Enabled)
      (l := ms.take (ms.length - keepRecent))
    have hfilter : ((ms.take (ms.length - keepRecent)).filter
        fun m => !isNoReply v2Enabled m).length =
          (ms.take (ms.length - keepRecent)).countP fun m => ¬ isNoReply v2Enabled m = true := by
      rw [← List.countP_eq_length_filter]
      exact List.countP_congr fun m _ => by simp
    rw [List.length_append, hfilter, List.length_drop]
    rw [List.length_take] at hsplit
    omega

theorem pruneHeartbeatTurns_eq_self {v2Enabled : Bool} {ms : List Message} {keepRecent : ℕ}
    (h : removedReplies v2Enabled ms keepRecent = 0) :
    pruneHeartbeatTurns v2Enabled ms keepRecent = ms := by
  unfold pruneHeartbeatTurns
  split_ifs
  · rfl
  · dsimp only
    rw [List.filter_eq_self.mpr, List.take_append_drop]
    intro m hm
    have := List.countP_eq_zero.mp h m hm
    simpa using this

/-- **The messages of the turn are memorized exactly when nothing before them was removed**; when
more was removed than the turn has added, the slice panics. -/
theorem memorized_prune (v2Enabled : Bool) {full : List Message} (keepRecent : ℕ) {start : ℕ}
    (hstart : start < full.length) :
    (memorized (pruneHeartbeatTurns v2Enabled full keepRecent) start = some (full.drop start) ↔
      removedReplies v2Enabled full keepRecent = 0) ∧
    (∀ slice ∈ memorized (pruneHeartbeatTurns v2Enabled full keepRecent) start,
      slice.length + removedReplies v2Enabled full keepRecent = full.length - start) ∧
    (memorized (pruneHeartbeatTurns v2Enabled full keepRecent) start = none ↔
      full.length - start < removedReplies v2Enabled full keepRecent) := by
  have hlen := length_pruneHeartbeatTurns v2Enabled full keepRecent
  unfold memorized
  refine ⟨?_, ?_, ?_⟩
  · constructor
    · intro h
      split_ifs at h with hle
      have := congrArg List.length (Option.some.inj h)
      rw [List.length_drop, List.length_drop] at this
      omega
    · intro h
      rw [pruneHeartbeatTurns_eq_self h, if_pos hstart.le]
  · intro slice hslice
    split_ifs at hslice with hle
    · obtain rfl := Option.some.inj hslice
      rw [List.length_drop]
      omega
    · cases hslice
  · by_cases hle : start ≤ (pruneHeartbeatTurns v2Enabled full keepRecent).length
    · rw [if_pos hle]
      exact iff_of_false (Option.some_ne_none _) (by omega)
    · rw [if_neg hle]
      exact iff_of_true rfl (by omega)

/-- What a round leaves of a session that no compression replaces: it has grown, or the turn is
finished and the answer stands behind it. -/
structure GrownStep (listed : Prop) (cfg : LoopConfig) (s s' : LoopState)
    (ended : Option LoopEnd) : Prop where
  continues : ended = none → Grown listed s.histories.session s'.histories.session
  finishes : ∀ text, ended = some (.finished text) → ∃ grown now,
    Grown listed s.histories.session grown ∧ s'.histories.session = finalSession cfg grown text now

theorem GrownStep.of_grown {s s' s'' : LoopState} {ended : Option LoopEnd}
    (hg : Grown listed s.histories.session s'.histories.session)
    (h : GrownStep listed cfg s' s'' ended) : GrownStep listed cfg s s'' ended where
  continues := fun hended => hg.trans (h.continues hended)
  finishes := fun text hended => by
    obtain ⟨grown, now, hgrown, hsession⟩ := h.finishes text hended
    exact ⟨grown, now, hg.trans hgrown, hsession⟩

theorem GrownStep.of_end {s s' : LoopState} {e : LoopEnd} (he : ∀ text, e ≠ .finished text) :
    GrownStep listed cfg s s' (some e) where
  continues := fun hended => absurd hended (Option.some_ne_none e)
  finishes := fun text hended => absurd (Option.some.inj hended) (he text)

theorem GrownStep.of_continue {s s' : LoopState}
    (hg : Grown listed s.histories.session s'.histories.session) :
    GrownStep listed cfg s s' none where
  continues := fun _ => hg
  finishes := fun _ hended => by cases hended

theorem ifSaved_ne {e : LoopEnd} (he : ∀ text, e ≠ .finished text) (saved : Bool) :
    ∀ text, e.ifSaved saved ≠ .finished text := by
  intro text
  cases saved with
  | true => exact he text
  | false => exact LoopEnd.noConfusion

theorem grownStep_endRound :
    GrownStep listed cfg s (endRound cfg iteration round response s).1
      (endRound cfg iteration round response s).2 := by
  unfold endRound
  dsimp only
  split_ifs
  · exact .of_end (ifSaved_ne (fun _ => LoopEnd.noConfusion) _)
  · exact .of_end (ifSaved_ne (fun _ => LoopEnd.noConfusion) _)
  · cases classifyEndTurnRetry cfg s iteration (directives response.text).1 response with
    | some retry =>
      refine .of_continue ?_
      have hsame : (s.retry (directives response.text).1 round.summaries.now
          retry).histories.session = s.histories.session := by
        cases retry <;> rfl
      dsimp only
      rw [hsame]
      exact .refl _
    | none =>
      dsimp only
      generalize finalizeEndTurnText s (directives response.text).1 = finalResponse
      cases cfg.isFork || round.stored with
      | false => exact .of_end fun _ => LoopEnd.noConfusion
      | true =>
        refine ⟨fun hended => absurd hended (Option.some_ne_none _), fun text hended => ?_⟩
        obtain rfl : finalResponse = text := LoopEnd.finished.inj (Option.some.inj hended)
        exact ⟨s.histories.session, round.summaries.now, .refl _, rfl⟩

theorem grownStep_toolRound (hlisted : listed → response.Listed) :
    GrownStep listed cfg s (toolRound cfg round response s).1
      (toolRound cfg round response s).2 := by
  unfold toolRound
  dsimp only
  cases hrun : runTools cfg.budget round.script round.summaries.now s.histories 0
      response.toolCalls (stageToolUseTurn response round.summaries.now) with
  | none => exact .of_end fun _ => LoopEnd.noConfusion
  | some ended =>
    have hgrown := toolsEnd_runTools hlisted hrun
    obtain ⟨histories, outcomes⟩ := ended
    dsimp only
    by_cases hfailed : 0 < updateConsecutiveHardFailures s.consecutiveAllFailed outcomes ∧
        0 < outcomes.hardErrorCount ∧
        maxConsecutiveAllFailed ≤ updateConsecutiveHardFailures s.consecutiveAllFailed outcomes
    · rw [if_pos hfailed]
      exact .of_end fun _ => LoopEnd.noConfusion
    · rw [if_neg hfailed]
      exact .of_continue hgrown.session

theorem grownStep_maxTokensRound :
    GrownStep listed cfg s (maxTokensRound cfg round response s).1
      (maxTokensRound cfg round response s).2 := by
  unfold maxTokensRound
  dsimp only
  split_ifs
  · exact .of_end fun _ => LoopEnd.noConfusion
  · exact .of_continue (.append _ fun _ => servable_exchange _ _ _)

theorem grownStep_stepRound (hengine : cfg.engine ≠ none) (s : LoopState) (round : Round)
    (hlisted : listed → round.Listed) (iteration : ℕ) :
    GrownStep listed cfg s (stepRound cfg iteration round s).1
      (stepRound cfg iteration round s).2 := by
  have hasked : (s.asked cfg round).histories.session = s.histories.session :=
    assembled_session_of_engine _ _ hengine _ _
  unfold stepRound
  cases round.cancelled with
  | true => exact .of_end fun _ => LoopEnd.noConfusion
  | false =>
    rw [if_neg Bool.false_ne_true]
    dsimp only
    cases hresponse : round.response with
    | error message => exact .of_end fun _ => LoopEnd.noConfusion
    | ok response =>
      have hanswered : Grown listed s.histories.session
          ((s.asked cfg round).answered cfg response).histories.session := by
        rw [LoopState.answered]
        dsimp only
        rw [hasked]
        exact .of_relabel (relabel_stripProcessedImageData _)
      refine GrownStep.of_grown hanswered ?_
      dsimp only
      cases hstop : (promoted cfg response).stopReason with
      | endTurn | stopSequence => exact grownStep_endRound
      | toolUse =>
        exact grownStep_toolRound fun hl => listed_promoted cfg (hlisted hl response hresponse) hstop
      | maxTokens => exact grownStep_maxTokensRound

theorem finished_runRounds (hengine : cfg.engine ≠ none) (rounds : ℕ → Round)
    (iteration left : ℕ) {text : String}
    (hended : (runRounds cfg rounds iteration left s).2 = .finished text) :
    ∃ grown now, Grown (∀ i, (rounds i).Listed) s.histories.session grown ∧
      (runRounds cfg rounds iteration left s).1.histories.session =
        finalSession cfg grown text now := by
  induction left generalizing iteration s with
  | zero => cases hended
  | succ left ih =>
    have hstep := grownStep_stepRound hengine s (rounds iteration)
      (fun hl : ∀ i, (rounds i).Listed => hl iteration) iteration
    rw [runRounds] at hended ⊢
    rcases hround : stepRound cfg iteration (rounds iteration) s with ⟨s', _ | ended⟩
    · rw [hround] at hstep hended
      obtain ⟨grown, now, hgrown, hsession⟩ := ih (iteration + 1) hended
      exact ⟨grown, now, (hstep.continues rfl).trans hgrown, hsession⟩
    · rw [hround] at hstep hended
      exact hstep.finishes text (congrArg some hended)

theorem newMessagesStart_prepared (cfg : LoopConfig) (session : List Message) (t : TurnStart) :
    (t.prepared cfg session).newMessagesStart =
      (t.prepared cfg session).session.length - 1 := by
  rw [TurnStart.prepared, prepareLlmMessages, safeTrimMessages_eq]
  dsimp only
  rw [← (relabel_stripPriorImageData _).length_eq]

/-- What a finished turn memorizes. The session is the old one, grown, with the answer behind it,
without its old silent replies. The turn starts at the message of the user; its messages are
memorized exactly when no silent reply was removed. Otherwise there are that many messages fewer,
and when more were removed than the turn has messages, the slice panics. -/
def Memorizes (listed : Prop) (cfg : LoopConfig) (prepared : PreparedMessages) (text : String)
    (final : List Message) : Prop :=
  let start := prepared.newMessagesStart
  let keepRecent := cfg.heartbeatKeepRecent.getD 10
  ∃ grown now, Grown listed prepared.session grown ∧
    let full := grown ++ [Message.assistant text now]
    final = pruneHeartbeatTurns cfg.v2Enabled full keepRecent ∧ start < full.length ∧
    (memorized final start = some (full.drop start) ↔
      removedReplies cfg.v2Enabled full keepRecent = 0) ∧
    (∀ slice ∈ memorized final start,
      slice.length + removedReplies cfg.v2Enabled full keepRecent = full.length - start) ∧
    (memorized final start = none ↔
      full.length - start < removedReplies cfg.v2Enabled full keepRecent)

/-- **A finished turn memorizes its messages exactly when no silent reply was removed**, in whatever
rounds it has taken. -/
theorem memorized_runAgentLoop (cfg : LoopConfig) (session : List Message) (t : TurnStart)
    (rounds : ℕ → Round) {text : String} (hengine : cfg.engine ≠ none)
    (hended : (runAgentLoop cfg session t rounds).2 = .finished text) :
    Memorizes (∀ i, (rounds i).Listed) cfg (t.prepared cfg session) text
      (runAgentLoop cfg session t rounds).1.histories.session := by
  obtain ⟨grown, now, hgrown, hsession⟩ := finished_runRounds hengine rounds 0 _ hended
  have hfinal : (runAgentLoop cfg session t rounds).1.histories.session =
      pruneHeartbeatTurns cfg.v2Enabled (grown ++ [Message.assistant text now])
        (cfg.heartbeatKeepRecent.getD 10) := hsession
  have hstart : (t.prepared cfg session).newMessagesStart <
      (grown ++ [Message.assistant text now]).length := by
    have hle : (t.prepared cfg session).session.length ≤ grown.length := hgrown.length_le
    rw [newMessagesStart_prepared, List.length_append, List.length_singleton]
    omega
  refine ⟨grown, now, hgrown, hfinal, hstart, ?_⟩
  rw [hfinal]
  exact memorized_prune cfg.v2Enabled _ hstart

/-- Three heartbeats without an answer. -/
def heartbeats : List Message := List.replicate 3 (Message.assistant "NO_REPLY" 0)

/-- Three silent replies are removed, and the turn has two messages. -/
theorem memorized_heartbeats :
    Memorizes (∀ i, (answering "Done" i).Listed) heartbeatConfig
      (question.prepared heartbeatConfig heartbeats) "Done" (runAgentLoop heartbeatConfig heartbeats question
        (answering "Done")).1.histories.session :=
  memorized_runAgentLoop heartbeatConfig heartbeats question (answering "Done")
    (Option.some_ne_none _) (by decide +kernel)

example : memorized (runAgentLoop heartbeatConfig heartbeats question
    (answering "Done")).1.histories.session
      (question.prepared heartbeatConfig heartbeats).newMessagesStart = none := by decide +kernel

end Memorized

/-! ## Between the turns -/

/-- `Message::system`. -/
def Message.system (content : String) (now : ℤ) : Message :=
  ⟨.system, .text content, false, some now⟩

/-- What `replace_tool_result_in_session` writes. -/
structure ApprovedResult where
  toolUseId : String
  toolName : Option String
  content : String
  isError : Bool
  status : ToolExecutionStatus

/-- What the search for the result of a call finds among some blocks. -/
inductive Reconciled
  | notFound
  | alreadyFinal
  | replaced (blocks : List ContentBlock)

/-- A block before those that were searched. -/
def Reconciled.cons (block : ContentBlock) : Reconciled → Reconciled
  | .replaced blocks => .replaced (block :: blocks)
  | other => other

/-- The inner loop of `reconcile_tool_result`. -/
def reconcileBlocks (toolUseId : String) (result : ApprovedResult) :
    List ContentBlock → Reconciled
  | [] => .notFound
  | .toolResult id name content isError status approval :: blocks =>
    if id = toolUseId ∧ status = .waitingApproval then
      .replaced (.toolResult id name result.content result.isError result.status none :: blocks)
    else if id = toolUseId ∧ status = result.status ∧ content = result.content then .alreadyFinal
    else (reconcileBlocks toolUseId result blocks).cons
      (.toolResult id name content isError status approval)
  | block :: blocks => (reconcileBlocks toolUseId result blocks).cons block

/-- The outer loop of `reconcile_tool_result`: the messages if it found the result. -/
def reconcileMessages (toolUseId : String) (result : ApprovedResult) :
    List Message → Option (List Message)
  | [] => none
  | m :: ms =>
    match reconcileBlocks toolUseId result m.blocks with
    | .replaced blocks => some ({ m with content := .blocks blocks } :: ms)
    | .alreadyFinal => some (m :: ms)
    | .notFound => (reconcileMessages toolUseId result ms).map (m :: ·)

/-- The block of a result. -/
def ApprovedResult.block (result : ApprovedResult) : ContentBlock :=
  .toolResult result.toolUseId (result.toolName.getD "") result.content result.isError
    result.status none

/-- `reconcile_tool_result`: a result that is not found goes into the last message. -/
def reconcileToolResult (toolUseId : String) (result : ApprovedResult) (ms : List Message) :
    List Message :=
  (reconcileMessages toolUseId result ms).getD
    (ms.dropLast ++ (ms.getLast?.map fun m => m.extend [result.block]).toList)

/-- The messages at the front are removed until the estimate is within a bound. -/
def trimTokens (estimate : List Message → ℕ) (maxTokens : ℕ) : List Message → List Message
  | [] => []
  | m :: ms => if estimate (m :: ms) ≤ maxTokens then m :: ms else trimTokens estimate maxTokens ms

/-- The session of a cron job within the configured size. -/
def pruneCron (maxMessages maxTokens : Option ℕ) (ms : List Message) : List Message :=
  let ms := maxMessages.elim ms fun n => ms.drop (ms.length - n)
  maxTokens.elim ms fun n => trimTokens (estimateTokenCount "" []) n ms

/-- The last message of the assistant is removed, as after a `[SILENT]` cron job. -/
def stripLastAssistant (ms : List Message) : List Message :=
  (ms.reverse.eraseP fun m => m.role = .assistant).reverse

/-- The loop has not failed. -/
def LoopEnd.isOk : LoopEnd → Bool
  | .failed _ => false
  | _ => true

/-- What happens to a stored session. A turn may be that of a silent cron job, whose stripped session
is stored or not. -/
inductive SessionOp
  | turn (cfg : LoopConfig) (start : TurnStart) (rounds : ℕ → Round)
      (silentCron stripStored : Bool)
  | reset
  | inject (contents : List String) (now : ℤ)
  | compact (driver : Summarizer) (keepRecent : ℕ)
  | prune (maxMessages maxTokens : Option ℕ)
  | reconcile (toolUseId : String) (result : ApprovedResult)

/-- A session: what is stored, and the requests of all its turns. -/
structure Life where
  store : List Message
  requests : List (List Message)

/-- A session that has not been used. -/
def Life.new : Life := ⟨[], []⟩

/-- What a turn stores last. -/
def storedAfter (cfg : LoopConfig) (start : TurnStart) (rounds : ℕ → Round)
    (silentCron stripStored : Bool) (store : List Message) : List Message :=
  let (s, ended) := runAgentLoop cfg store start rounds
  let session := s.histories.session
  if silentCron && ended.isOk && stripStored && session.any (fun m => m.role = .assistant) then
    stripLastAssistant session
  else s.saved.getLast?.getD store

/-- What happens to a session. -/
def step (life : Life) : SessionOp → Life
  | .turn cfg start rounds silentCron stripStored =>
    ⟨storedAfter cfg start rounds silentCron stripStored life.store,
      life.requests ++ (runAgentLoop cfg life.store start rounds).1.requests⟩
  | .reset => { life with store := [] }
  | .inject contents now =>
    { life with store := life.store ++ contents.map fun content => Message.system content now }
  | .compact driver keepRecent =>
    { life with store :=
        validateAndRepair (compactSession driver life.store keepRecent).keptMessages }
  | .prune maxMessages maxTokens => { life with store := pruneCron maxMessages maxTokens life.store }
  | .reconcile toolUseId result =>
    { life with store := reconcileToolResult toolUseId result life.store }

section Kernel

variable {ms : List Message}

end Kernel

/-! ## A whole life -/

section Life

variable {P : List Message → Prop} {life : Life}

/-- The contract of the requests, and what is stored. -/
structure Life.Keeps (P : List Message → Prop) (life : Life) : Prop where
  requests : ∀ r ∈ life.requests, P r
  store : Storable life.store

end Life

end LibreFang.Agent
