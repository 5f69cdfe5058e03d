import LibreFang.Agent.Staged
import LibreFang.Context.Compressor
import LibreFang.Context.Overflow
import LibreFang.Context.Guard

/-!
# What a model is asked

Before each request the working copy is made to fit the window of the model: by the engine of the
agent, or, without one, by a summary of the middle and what overflow recovery leaves.

* `Window`: what the steps are given; `engineCompacted`, `engineAssembled`: the default engine.
* **`Contract.assembled`**: the assembled copy meets the contract if the copy before did.
-/

namespace LibreFang.Agent

open Session Context

/-! ## The steps -/

/-- The window of a model, and what is in it besides the messages. -/
structure Window where
  systemPrompt : String
  tools : List ToolDefinition
  ctxWindow : UInt64

/-- What summarizers answer before a request, and the times they are asked. -/
structure Summaries where
  compaction : Summarizer
  compression : ℕ → Summarizer
  compressedAt : ℕ → ℤ
  now : ℤ

variable (w : Window) (s : Summaries)

/-- The estimate of the tokens of the messages. -/
def Window.estimate (ms : List Message) : ℕ := estimateTokenCount w.systemPrompt w.tools ms

/-- What overflow recovery is given. -/
def Window.host (now : ℤ) : Host := .ofWindow w.systemPrompt w.tools w.ctxWindow.toNat now

/-- What the compressor is given. -/
def Window.request : Request :=
  ⟨w.systemPrompt, w.tools, w.ctxWindow, s.compression, s.compressedAt⟩

/-- `recover_from_overflow`; no slice of it panics. -/
def recovered (ms : List Message) : List Message × RecoveryStage :=
  (recoverFromOverflow (w.host s.now) ms).getD (ms, .none)

/-- `apply_context_guard`; no slice of it panics. -/
def guarded (ms : List Message) : List Message :=
  ((applyContextGuard (.ofTokens w.ctxWindow.toNat) ms).map Prod.fst).getD ms

/-- `ContextEngine::should_compress`. -/
def engineShouldCompress (currentTokens maxTokens : ℕ) : Bool :=
  decide (maxTokens ≠ 0) && decide (maxTokens * 4 / 5 ≤ currentTokens)

/-- The summary in front of what a compaction keeps. -/
def compactionSummary (summary : String) : Message :=
  ⟨.user, .text ("[Context compaction summary] Earlier conversation turns were summarised to " ++
    "preserve context space. Summary of removed messages: " ++ summary), false, none⟩

/-- `DefaultContextEngine::compact`, when the engine asks for it, and the summary in front. -/
def engineCompacted (keepRecent lastPromptTokens : ℕ) (ms : List Message) : List Message :=
  if engineShouldCompress lastPromptTokens w.ctxWindow.toNat then
    let result := compactSession s.compaction ms keepRecent
    (if result.summary = "" then [] else [compactionSummary result.summary]) ++ result.keptMessages
  else ms

/-- `DefaultContextEngine::assemble`. -/
def engineAssembled (ms : List Message) : List Message :=
  let (left, recovery) := recovered w s ms
  guarded w (if recovery = .none then left else validateAndRepair left)

/-- The hard trim, after which a history is repaired and starts with the user. -/
def hardTrimmed (ms : List Message) : List Message :=
  let (left, recovery) := recovered w s ms
  if recovery = .none then left else started (validateAndRepair left)

/-- The soft compression of the working copy, if there was one. -/
def softCompressed (ms : List Message) : Option (List Message) :=
  let compression := compressIfNeeded .default (w.request s) ms
  if compression.events = [] then none
  else some (started (validateAndRepair compression.messages))

/-- The steps without an engine. A soft compression replaces the session too. -/
def inlineAssembled (h : Histories) : Histories :=
  match softCompressed w s h.messages with
  | some compressed =>
    let trimmed := if (w.host s.now).threshold70 < w.estimate compressed then
      hardTrimmed w s compressed else compressed
    ⟨compressed, guarded w trimmed⟩
  | none => ⟨h.session, guarded w (hardTrimmed w s h.messages)⟩

/-- The histories when a request is made; `engine` is `keep_recent` of the engine. -/
def assembled (engine : Option ℕ) (lastPromptTokens : ℕ) (h : Histories) : Histories :=
  match engine with
  | some keepRecent =>
    ⟨h.session, engineAssembled w s (engineCompacted w s keepRecent lastPromptTokens h.messages)⟩
  | none => inlineAssembled w s h

/-! ## Nothing panics -/

section Total

theorem exists_truncateTo (content : List Char) (cap : ℕ) :
    ∃ out, truncateTo content cap = some out := by
  by_cases hcap : content.length ≤ cap
  · exact ⟨_, truncateEnds_of_le hcap _ _ _⟩
  · exact ⟨_, truncateEnds_eq (Nat.lt_of_not_le hcap) _ _ _⟩

theorem exists_compactPass (cap : ℕ) (enough : ℕ → Bool) (totalChars : ℕ)
    (contents : List (List Char)) :
    ∃ pass, compactPass cap enough totalChars contents = some pass := by
  induction contents generalizing totalChars with
  | nil => exact ⟨_, rfl⟩
  | cons content contents ih =>
    rw [compactPass]
    split_ifs
    · obtain ⟨pass, hpass⟩ := ih totalChars
      exact ⟨_, by rw [hpass, Option.map_some]⟩
    · obtain ⟨out, hout⟩ := exists_truncateTo content cap
      obtain ⟨pass, hpass⟩ := ih (totalChars - content.length + out.length)
      exact ⟨_, by rw [hout, Option.bind_some, hpass, Option.map_some]⟩

theorem exists_applyContextGuard (budget : ContextBudget) (ms : List Message) :
    ∃ out count, applyContextGuard budget ms = some (out, count) ∧
      (out = ms ∨ ∃ contents, out = putContents ms contents) := by
  unfold applyContextGuard
  dsimp only
  split_ifs
  · exact ⟨ms, 0, rfl, .inl rfl⟩
  · obtain ⟨first, hfirst⟩ := exists_compactPass budget.singleResultMax (fun _ => false)
      (totalLength (toolContents ms)) (toolContents ms)
    obtain ⟨second, hsecond⟩ := exists_compactPass compactTarget
      (fun total => decide (total ≤ budget.totalToolHeadroomChars)) first.totalChars first.contents
    refine ⟨putContents ms second.contents, first.compacted + second.compacted, ?_,
      .inr ⟨_, rfl⟩⟩
    rw [hfirst, Option.bind_some, hsecond, Option.map_some]

end Total

/-! ## What a provider asks of a history -/

/-- A property of histories that a repair brings about, and that rewritten contents and servable
messages behind them keep. -/
structure Contract (P : List Message → Prop) : Prop where
  wellPlaced : ∀ {ms}, P ms → WellPlaced ms
  repaired : ∀ {ms}, WellPlaced ms → P (validateAndRepair ms)
  relabel : ∀ {ms ms'}, P ms → List.Forall₂ Relabel ms ms' → P ms'
  append : ∀ {a b}, P a → Servable b → P (a ++ b)

/-- Pairs, in a session whose calls and results are where a repair expects them. -/
structure Storable (ms : List Message) : Prop where
  placed : WellPlaced ms
  paired : Paired ms

section Contract

variable {P : List Message → Prop} {ms : List Message}

theorem Contract.started (hP : Contract P) (h : P ms) : P (started ms) :=
  started_induction (fun _ => hP.wellPlaced) (fun _ => hP.repaired) h

theorem Contract.grown (hP : Contract P) {ms' : List Message} (h : P ms) (hg : Grown True ms ms') :
    P ms' := by
  obtain ⟨base, added, hbase, hadded, rfl⟩ := hg
  exact hP.append (hP.relabel h hbase) (hadded trivial)

/-! ## What the steps keep -/

theorem relabel_of_hideBlock {m m' : Message} (h : hideContents m' = hideContents m) :
    Relabel m m' := by
  have huse : ∀ b, (hideBlock b).useId? = b.useId? := fun b => by cases b <;> rfl
  have hresult : ∀ b, (hideBlock b).resultId? = b.resultId? := fun b => by cases b <;> rfl
  have hm := relabel_mapBlocks huse hresult m
  have hm' := relabel_mapBlocks huse hresult m'
  have h : m'.mapBlocks (List.map hideBlock) = m.mapBlocks (List.map hideBlock) := h
  rw [h] at hm'
  exact ⟨hm'.role.symm.trans hm.role, hm'.uses.symm.trans hm.uses,
    hm'.results.symm.trans hm.results⟩

theorem relabel_guarded (w : Window) (ms : List Message) :
    List.Forall₂ Relabel ms (guarded w ms) := by
  obtain ⟨out, count, hguard, hout⟩ := exists_applyContextGuard (.ofTokens w.ctxWindow.toNat) ms
  rw [guarded, hguard, Option.map_some, Option.getD_some]
  rcases hout with rfl | ⟨contents, rfl⟩
  · exact forall₂_relabel_refl _
  · have hframe := map_hideContents_putContents ms contents
    have hlen : ms.length = (putContents ms contents).length := by
      have := congrArg List.length hframe
      rw [List.length_map, List.length_map] at this
      exact this.symm
    refine List.forall₂_iff_get.mpr ⟨hlen, fun i h₁ h₂ => relabel_of_hideBlock ?_⟩
    have hget := congrArg (fun l => l[i]?) hframe
    simp only [List.getElem?_map, List.getElem?_eq_getElem h₁, List.getElem?_eq_getElem h₂,
      Option.map_some, Option.some.injEq] at hget
    exact hget

theorem wellPlaced_of_text {m : Message} (huses : toolUseIds m = []) (hresults : toolResultIds m = [])
    (h : WellPlaced ms) : WellPlaced (m :: ms) :=
  List.forall_mem_cons.mpr ⟨⟨fun hne => absurd huses hne, fun hne => absurd hresults hne⟩, h⟩

theorem relabel_truncateResults {m m' : Message} (h : truncateResults m = some m') :
    Relabel m m' := by
  obtain ⟨role, content, pinned, timestamp⟩ := m
  cases content with
  | text text =>
    obtain rfl := Option.some.inj h
    exact Relabel.refl _
  | blocks blocks =>
    obtain ⟨out, hout, rfl⟩ := Option.map_eq_some_iff.mp h
    have hblock : ∀ b b', truncateBlock b = some b' →
        b'.useId? = b.useId? ∧ b'.resultId? = b.resultId? := by
      intro b b' hb
      cases b with
      | toolResult =>
        obtain ⟨_, -, rfl⟩ := Option.map_eq_some_iff.mp hb
        exact ⟨rfl, rfl⟩
      | text | image | imageFile | toolUse | thinking | unknown =>
        obtain rfl := Option.some.inj hb
        exact ⟨rfl, rfl⟩
    have hids : ∀ f : ContentBlock → Option String,
        (∀ b b', truncateBlock b = some b' → f b' = f b) → out.filterMap f = blocks.filterMap f := by
      intro f hf
      clear h
      induction blocks generalizing out with
      | nil =>
        obtain rfl := Option.some.inj hout
        rfl
      | cons b blocks ih =>
        rw [List.mapM_cons] at hout
        obtain ⟨b', hb, hout⟩ := Option.bind_eq_some_iff.mp hout
        obtain ⟨rest, hrest, hout⟩ := Option.bind_eq_some_iff.mp hout
        obtain rfl := Option.some.inj hout
        rw [List.filterMap_cons, List.filterMap_cons, hf b b' hb, ih rest hrest]
    exact ⟨rfl, hids _ fun b b' hb => (hblock b b' hb).1, hids _ fun b b' hb => (hblock b b' hb).2⟩

theorem relabel_mapM_truncateResults {ms' : List Message} (h : ms.mapM truncateResults = some ms') :
    List.Forall₂ Relabel ms ms' := by
  induction ms generalizing ms' with
  | nil =>
    obtain rfl := Option.some.inj h
    exact List.Forall₂.nil
  | cons m ms ih =>
    rw [List.mapM_cons] at h
    obtain ⟨m', hm, h⟩ := Option.bind_eq_some_iff.mp h
    obtain ⟨rest, hrest, h⟩ := Option.bind_eq_some_iff.mp h
    obtain rfl := Option.some.inj h
    exact List.Forall₂.cons (relabel_truncateResults hm) (ih hrest)

variable {stage : RecoveryStage} {left : List Message}

theorem ne_none_of_stageOne {host : Host}
    (h : stageOne host ms = (left, some stage)) : stage ≠ .none := by
  unfold stageOne at h
  dsimp only at h
  split_ifs at h
  · obtain ⟨-, rfl⟩ := h
    exact RecoveryStage.noConfusion
  all_goals cases h

theorem ne_none_of_stageTwo {host : Host}
    (h : stageTwo host ms = (left, some stage)) : stage ≠ .none := by
  unfold stageTwo at h
  dsimp only at h
  split_ifs at h
  all_goals cases h
  all_goals exact RecoveryStage.noConfusion

theorem ne_none_of_stageThree {host : Host}
    (h : stageThree host ms = some (left, stage)) : stage ≠ .none := by
  obtain ⟨out, -, h⟩ := Option.map_eq_some_iff.mp h
  obtain ⟨-, rfl⟩ := Prod.mk.inj h
  split_ifs
  all_goals exact RecoveryStage.noConfusion

theorem recovered_cases (w : Window) (s : Summaries) (ms : List Message) :
    recovered w s ms = (ms, .none) ∨
      (recovered w s ms).2 ≠ .none ∧ (WellPlaced ms → WellPlaced (recovered w s ms).1) := by
  obtain ⟨out, stage, kept, marker, hout, hkept, -, hmarker, hleft⟩ :=
    recoverFromOverflow_survives (w.host s.now) ms
  have hrecovered : recovered w s ms = (out, stage) := by rw [recovered, hout, Option.getD_some]
  have hplaced : WellPlaced ms → WellPlaced out := by
    intro h
    have hmarked : WellPlaced (marker ++ kept) := by
      have hkept := wellPlaced_of_subset h hkept.subset
      rcases hmarker with rfl | ⟨removed, rfl⟩
      · exact hkept
      · exact wellPlaced_of_text rfl rfl hkept
    rcases hleft with rfl | hmap
    · exact hmarked
    · exact wellPlaced_of_relabel (relabel_mapM_truncateResults hmap) hmarked
  rw [hrecovered]
  by_cases hstage : stage = .none
  · -- only the first test ends without a stage
    left
    subst hstage
    unfold recoverFromOverflow at hout
    split_ifs at hout
    · rw [(Prod.mk.inj (Option.some.inj hout)).1]
    · rcases hone : stageOne (w.host s.now) ms with ⟨left, _ | stage⟩
      · rw [hone] at hout
        dsimp only at hout
        rcases htwo : stageTwo (w.host s.now) left with ⟨left', _ | stage⟩
        · rw [htwo] at hout
          exact absurd rfl (ne_none_of_stageThree hout)
        · rw [htwo] at hout
          cases hout
          exact absurd rfl (ne_none_of_stageTwo htwo)
      · rw [hone] at hout
        cases hout
        exact absurd rfl (ne_none_of_stageOne hone)
  · exact .inr ⟨hstage, hplaced⟩

theorem Contract.hardTrimmed (hP : Contract P) (w : Window) (s : Summaries) (h : P ms) :
    P (hardTrimmed w s ms) := by
  unfold Agent.hardTrimmed
  rcases recovered_cases w s ms with heq | ⟨hne, hplaced⟩
  · rw [heq]
    dsimp only
    rw [if_pos rfl]
    exact h
  · dsimp only
    rw [if_neg hne]
    exact hP.started (hP.repaired (hplaced (hP.wellPlaced h)))

theorem wellPlaced_compressLoop (cfg : CompressionConfig) (req : Request) (iteration left : ℕ)
    (h : WellPlaced ms) : WellPlaced (compressLoop cfg req iteration left ms).messages := by
  induction left generalizing iteration ms with
  | zero => exact h
  | succ left ih =>
    rw [compressLoop]
    split_ifs
    · exact h
    · exact h
    · unfold compressOnce
      split_ifs
      · exact h
      · dsimp only
        split_ifs
        · exact h
        · refine ih _ (List.forall_mem_append.mpr ⟨?_, ?_⟩)
          · exact wellPlaced_of_subset h (List.take_subset _ _)
          · exact wellPlaced_of_text rfl rfl (wellPlaced_of_subset h (List.drop_subset _ _))

theorem Contract.softCompressed (hP : Contract P) {w : Window} {s : Summaries}
    {compressed : List Message} (h : WellPlaced ms)
    (hsoft : softCompressed w s ms = some compressed) : P compressed := by
  unfold Agent.softCompressed at hsoft
  dsimp only at hsoft
  split_ifs at hsoft
  obtain rfl := Option.some.inj hsoft
  exact hP.started (hP.repaired (wellPlaced_compressLoop _ _ _ _ h))

theorem exists_engineCompacted (w : Window) (s : Summaries) (keepRecent lastPromptTokens : ℕ)
    (ms : List Message) :
    ∃ added n, Servable added ∧ engineCompacted w s keepRecent lastPromptTokens ms =
      added ++ ms.drop n := by
  unfold engineCompacted
  split_ifs with hshould
  · have hkept : ∃ n, (compactSession s.compaction ms keepRecent).keptMessages = ms.drop n := by
      rw [keptMessages_compactSession, compactionSplit]
      split_ifs
      · exact ⟨0, List.drop_zero.symm⟩
      · exact ⟨_, rfl⟩
    obtain ⟨n, hn⟩ := hkept
    dsimp only
    split_ifs
    · exact ⟨[], n, servable_nil, by rw [hn]⟩
    · exact ⟨_, n, servable_singleton rfl rfl, by rw [hn]⟩
  · exact ⟨[], 0, servable_nil, by rw [List.drop_zero, List.nil_append]⟩

theorem Contract.engineAssembled (hP : Contract P) (w : Window) (s : Summaries) (h : P ms) :
    P (engineAssembled w s ms) := by
  have hleft : P (if (recovered w s ms).2 = .none then (recovered w s ms).1
      else validateAndRepair (recovered w s ms).1) := by
    rcases recovered_cases w s ms with heq | ⟨hne, hplaced⟩
    · rw [heq, if_pos rfl]
      exact h
    · rw [if_neg hne]
      exact hP.repaired (hplaced (hP.wellPlaced h))
  exact hP.relabel hleft (relabel_guarded w _)

/-- **The working copy meets the contract when a request is made.** A compaction by the engine cuts
the history anywhere, so the contract has to allow that. -/
theorem Contract.assembled (hP : Contract P) (w : Window) (s : Summaries) {engine : Option ℕ}
    (hcut : engine ≠ none → ∀ a b n, Servable a → P b → P (a ++ b.drop n)) (lastPromptTokens : ℕ)
    {h : Histories} (hms : P h.messages) :
    P (assembled w s engine lastPromptTokens h).messages := by
  cases engine with
  | some keepRecent =>
    obtain ⟨added, n, hadded, heq⟩ :=
      exists_engineCompacted w s keepRecent lastPromptTokens h.messages
    refine hP.engineAssembled w s ?_
    rw [heq]
    exact hcut (Option.some_ne_none _) added h.messages n hadded hms
  | none =>
    unfold Agent.assembled inlineAssembled
    cases hsoft : Agent.softCompressed w s h.messages with
    | none => exact hP.relabel (hP.hardTrimmed w s hms) (relabel_guarded w _)
    | some compressed =>
      have hcompressed := hP.softCompressed (hP.wellPlaced hms) hsoft
      refine hP.relabel ?_ (relabel_guarded w _)
      split_ifs
      · exact hP.hardTrimmed w s hcompressed
      · exact hcompressed

theorem Contract.assembled_session (hP : Contract P) (w : Window) (s : Summaries)
    (engine : Option ℕ) (lastPromptTokens : ℕ) {h : Histories} (hplaced : WellPlaced h.messages)
    (hsession : P h.session) : P (Agent.assembled w s engine lastPromptTokens h).session := by
  cases engine with
  | some keepRecent => exact hsession
  | none =>
    unfold Agent.assembled inlineAssembled
    cases hsoft : Agent.softCompressed w s h.messages with
    | none => exact hsession
    | some compressed => exact hP.softCompressed hplaced hsoft

theorem assembled_session_of_engine (w : Window) (s : Summaries) {engine : Option ℕ}
    (hengine : engine ≠ none) (lastPromptTokens : ℕ) (h : Histories) :
    (assembled w s engine lastPromptTokens h).session = h.session := by
  cases engine with
  | some keepRecent => rfl
  | none => exact absurd rfl hengine

end Contract

end LibreFang.Agent
