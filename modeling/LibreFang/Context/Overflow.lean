import LibreFang.Context.Truncate
import LibreFang.Session.Message

/-!
# Recovery from an overflow of the context

When the messages of a conversation take too many tokens, old messages are dropped, except pinned
ones, and in the end long tool results are truncated.

* `estimateTokenCount`: the tokens that messages are estimated to take.
* `stageOne`, `stageTwo`, `stageThree`, **`recoverFromOverflow`**: the stages of the recovery.
* **`suffix_drain_iff`**: when the last messages survive; `recent`: which messages survive then.
* **`recoverFromOverflow_keeps_iff`**: when a recovery keeps what its stages promise.
-/

namespace LibreFang.Context

open Session Slices

/-! ## Estimated tokens -/

/-- `is_cjk`. -/
def isCjk (c : Char) : Bool :=
  [(0x4E00, 0x9FFF), (0x3400, 0x4DBF), (0xF900, 0xFAFF), (0x2E80, 0x2EFF), (0x3000, 0x303F),
    (0x3040, 0x309F), (0x30A0, 0x30FF), (0xAC00, 0xD7AF), (0x20000, 0x2A6DF)].any
    fun range : ℕ × ℕ => range.1 ≤ c.toNat && c.toNat ≤ range.2

/-- `char_token_weight`, in quarters of a token. -/
def charTokenWeight (c : Char) : ℕ := if isCjk c then 6 else 1

/-- `estimate_str_tokens`: whole tokens, rounded up. -/
def estimateStrTokens (s : String) : ℕ := ((s.toList.map charTokenWeight).sum + 3) / 4

/-- `estimate_message_tokens`. -/
def estimateMessageTokens (msg : Message) : ℕ :=
  match msg.content with
  | .text s => estimateStrTokens s
  | .blocks blocks => (blocks.map fun
      | .text text _ => estimateStrTokens text
      | .toolResult _ _ content _ _ _ => estimateStrTokens content
      | .thinking thinking _ => estimateStrTokens thinking
      | .toolUse id name input _ =>
        estimateStrTokens name + estimateStrTokens id + estimateStrTokens input.text
      | .image _ data => byteLen data.toList / 4 + 85
      | .imageFile _ _ => 85
      | .unknown => 0).sum

/-- `ToolDefinition`. -/
structure ToolDefinition where
  name : String
  description : String
  inputSchema : Json

/-- `estimate_token_count`, with a system prompt and tools. -/
def estimateTokenCount (systemPrompt : String) (tools : List ToolDefinition)
    (messages : List Message) : ℕ :=
  estimateStrTokens systemPrompt + (messages.map fun msg => estimateMessageTokens msg + 4).sum +
    (tools.map fun tool => estimateStrTokens tool.name + estimateStrTokens tool.description +
      estimateStrTokens tool.inputSchema.text).sum

/-! ## The stages -/

/-- `RecoveryStage`. -/
inductive RecoveryStage
  | none
  | autoCompaction (removed : ℕ)
  | overflowCompaction (removed : ℕ)
  | toolResultTruncation (truncated : ℕ)
  | finalError
  deriving DecidableEq, Repr

/-- The messages looked at until enough are found that are not pinned. -/
def scanned : ℕ → List Message → ℕ
  | 0, _ => 0
  | _ + 1, [] => 0
  | target + 1, msg :: messages =>
    1 + if msg.pinned then scanned (target + 1) messages else scanned target messages

/-- `drain_unpinned_from_front`: what is left, and how many messages are removed. -/
def drainUnpinnedFromFront (messages : List Message) (target : ℕ) : List Message × ℕ :=
  let front := messages.take (scanned target messages)
  (front.filter (·.pinned) ++ messages.drop (scanned target messages),
    front.countP fun msg => !msg.pinned)

/-- The message at the front of a conversation that lost its beginning. -/
def summaryMessage (now : ℤ) (removed : ℕ) : Message :=
  ⟨.user, .text (s!"[System: {removed} earlier messages were removed due to context overflow. " ++
    "The conversation continues from here. Use /compact for smarter summarization.]"),
    false, some now⟩

/-- The thresholds of a context window, the estimate of what messages take, and the time. -/
structure Host where
  threshold70 : ℕ
  threshold90 : ℕ
  estimateTokens : List Message → ℕ
  now : ℤ

variable (host : Host)

/-- Stage 1, and its outcome if it is enough. -/
def stageOne (messages : List Message) : List Message × Option RecoveryStage :=
  if host.estimateTokens messages ≤ host.threshold90 then
    let keep := min 10 messages.length
    let targetRemove := messages.length - keep
    if 0 < targetRemove then
      let (left, removed) := drainUnpinnedFromFront messages targetRemove
      (left, if host.estimateTokens left ≤ host.threshold70 then some (.autoCompaction removed)
        else .none)
    else (messages, .none)
  else (messages, .none)

/-- Stage 2, and its outcome if it is enough. -/
def stageTwo (messages : List Message) : List Message × Option RecoveryStage :=
  let keep := min 4 messages.length
  let targetRemove := messages.length - keep
  if 0 < targetRemove then
    let (left, removed) := drainUnpinnedFromFront messages targetRemove
    let marked := if 0 < removed then summaryMessage host.now removed :: left else left
    (marked, if host.estimateTokens marked ≤ host.threshold90 then
        some (.overflowCompaction removed) else .none)
  else (messages, .none)

/-- Stage 3 on a block. -/
def truncateBlock : ContentBlock → Option ContentBlock
  | .toolResult id name content isError status approval =>
    (overflowTruncate content.toList).map fun out =>
      .toolResult id name (String.ofList out) isError status approval
  | block => some block

/-- Stage 3 on a message. -/
def truncateResults (msg : Message) : Option Message :=
  match msg.content with
  | .text _ => some msg
  | .blocks blocks =>
    (blocks.mapM truncateBlock).map fun blocks => { msg with content := .blocks blocks }

/-- A tool result that stage 3 truncates. -/
def isLongResult : ContentBlock → Bool
  | .toolResult _ _ content _ _ _ => toolTruncationLimit < content.toList.length
  | _ => false

/-- Stage 3 and 4; no slice panics unless there is no result. -/
def stageThree (messages : List Message) : Option (List Message × RecoveryStage) :=
  (messages.mapM truncateResults).map fun out =>
    let truncated := (messages.flatMap Message.blocks).countP isLongResult
    (out, if 0 < truncated ∧ host.estimateTokens out ≤ host.threshold90 then
      .toolResultTruncation truncated else .finalError)

/-- `recover_from_overflow`. -/
def recoverFromOverflow (messages : List Message) : Option (List Message × RecoveryStage) :=
  if host.estimateTokens messages ≤ host.threshold70 then some (messages, .none)
  else
    match stageOne host messages with
    | (left, some stage) => some (left, stage)
    | (left, .none) =>
      match stageTwo host left with
      | (left, some stage) => some (left, stage)
      | (left, .none) => stageThree host left

/-- The surroundings of a recovery, in exact arithmetic. -/
def Host.ofWindow (systemPrompt : String) (tools : List ToolDefinition) (contextWindow : ℕ)
    (now : ℤ) : Host :=
  ⟨contextWindow * 70 / 100, contextWindow * 90 / 100, estimateTokenCount systemPrompt tools, now⟩

/-! ## What is left of a list of messages -/

section Drain

variable {a b messages : List Message} {target keep : ℕ}

/-- The messages that are not pinned. -/
def unpinned (messages : List Message) : ℕ := messages.countP fun msg => !msg.pinned

theorem scanned_append (target : ℕ) (a b : List Message) :
    scanned target (a ++ b) =
      if target ≤ unpinned a then scanned target a
      else a.length + scanned (target - unpinned a) b := by
  induction a generalizing target with
  | nil =>
    cases target with
    | zero => simp [scanned]
    | succ target => simp [unpinned]
  | cons msg a ih =>
    cases target with
    | zero => simp [scanned]
    | succ target =>
      unfold unpinned at ih ⊢
      rw [List.cons_append, scanned, scanned, List.countP_cons, List.length_cons]
      cases msg.pinned with
      | true =>
        rw [if_pos rfl, if_pos rfl, ih]
        simp only [Bool.not_true, Bool.false_eq_true, if_false, Nat.add_zero]
        split_ifs <;> omega
      | false =>
        rw [if_neg Bool.false_ne_true, if_neg Bool.false_ne_true, ih]
        simp only [Bool.not_false, if_true, Nat.add_le_add_iff_right, Nat.add_sub_add_right]
        split_ifs <;> omega

theorem scanned_of_unpinned (h : ∀ msg ∈ a, msg.pinned = false) : scanned a.length a = a.length := by
  induction a with
  | nil => rfl
  | cons msg a ih =>
    rw [List.forall_mem_cons] at h
    rw [List.length_cons, scanned, h.1, if_neg Bool.false_ne_true, ih h.2, Nat.add_comm]

theorem filter_pinned_of_unpinned (h : ∀ msg ∈ a, msg.pinned = false) : a.filter (·.pinned) = [] :=
  List.filter_eq_nil_iff.mpr fun msg hmsg => Bool.eq_false_iff.mp (h msg hmsg)

theorem pinned_of_scanned (htarget : 0 < target)
    (h : ∀ msg ∈ b.take (scanned target b), msg.pinned = true) : ∀ msg ∈ b, msg.pinned = true := by
  induction b with
  | nil => exact fun msg hmsg => absurd hmsg List.not_mem_nil
  | cons first b ih =>
    obtain ⟨t, rfl⟩ := Nat.exists_eq_add_of_lt htarget
    rw [Nat.zero_add, scanned, Nat.add_comm 1, List.take_succ_cons, List.forall_mem_cons] at h
    have hfirst := h.1
    rw [hfirst, if_pos rfl] at h
    exact List.forall_mem_cons.mpr ⟨hfirst, ih (by rw [Nat.zero_add]; exact h.2)⟩

theorem drain_of_unpinned (h : ∀ msg ∈ a, msg.pinned = false) (b : List Message) :
    (drainUnpinnedFromFront (a ++ b) a.length).1 = b := by
  have hscanned : scanned a.length (a ++ b) = a.length := by
    rw [scanned_append, if_pos, scanned_of_unpinned h]
    exact (List.countP_eq_length.mpr fun msg hmsg => by rw [h msg hmsg]; rfl).ge
  unfold drainUnpinnedFromFront
  simp only
  rw [hscanned, List.take_left, List.drop_left, filter_pinned_of_unpinned h, List.nil_append]

theorem exists_drain_of_pinned (h : ∃ msg ∈ a, msg.pinned = true) (b : List Message) :
    ∃ more, 0 < more ∧ (drainUnpinnedFromFront (a ++ b) a.length).1 =
      a.filter (·.pinned) ++ (b.take (scanned more b)).filter (·.pinned) ++
        b.drop (scanned more b) := by
  have hlt : unpinned a < a.length := by
    refine lt_of_le_of_ne List.countP_le_length fun heq => ?_
    obtain ⟨msg, hmsg, hpinned⟩ := h
    have := List.countP_eq_length.mp heq msg hmsg
    rw [hpinned] at this
    cases this
  refine ⟨a.length - unpinned a, Nat.sub_pos_of_lt hlt, ?_⟩
  unfold drainUnpinnedFromFront
  simp only
  rw [scanned_append, if_neg (Nat.not_le_of_lt hlt), List.take_length_add_append,
    List.drop_length_add_append, List.filter_append]

theorem drain_sublist (messages : List Message) (target : ℕ) :
    (drainUnpinnedFromFront messages target).1.Sublist messages := by
  unfold drainUnpinnedFromFront
  conv_rhs => rw [← List.take_append_drop (scanned target messages) messages]
  exact List.Sublist.append List.filter_sublist (List.Sublist.refl _)

theorem filter_pinned_drain (messages : List Message) (target : ℕ) :
    (drainUnpinnedFromFront messages target).1.filter (·.pinned) = messages.filter (·.pinned) := by
  unfold drainUnpinnedFromFront
  simp only
  rw [List.filter_append, List.filter_filter]
  simp only [Bool.and_self]
  rw [← List.filter_append, List.take_append_drop]

/-! ## The last messages -/

/-- The last messages, a number of them. -/
def lastMessages (keep : ℕ) (messages : List Message) : List Message :=
  messages.drop (messages.length - keep)

/-- What is left when messages are removed down to a number. -/
def drained (keep : ℕ) (messages : List Message) : List Message :=
  (drainUnpinnedFromFront messages (messages.length - keep)).1

/-- No message before the last ones is pinned, or the last ones are all pinned. -/
def Spared (keep : ℕ) (messages : List Message) : Prop :=
  (∀ msg ∈ messages.take (messages.length - keep), msg.pinned = false) ∨
    ∀ msg ∈ lastMessages keep messages, msg.pinned = true

/-- The last messages, or the pinned ones if there are some before. -/
def recent (keep : ℕ) (messages : List Message) : List Message :=
  if ∀ msg ∈ messages.take (messages.length - keep), msg.pinned = false then
    lastMessages keep messages
  else messages.filter (·.pinned)

theorem length_front (keep : ℕ) (messages : List Message) :
    (messages.take (messages.length - keep)).length = messages.length - keep :=
  List.length_take_of_le (Nat.sub_le _ _)

theorem drained_eq (keep : ℕ) (messages : List Message) :
    drained keep messages =
      (drainUnpinnedFromFront
        (messages.take (messages.length - keep) ++ lastMessages keep messages)
        (messages.take (messages.length - keep)).length).1 := by
  rw [drained, length_front, lastMessages, List.take_append_drop]

theorem exists_pinned_of_not {front : List Message}
    (h : ¬ ∀ msg ∈ front, msg.pinned = false) : ∃ msg ∈ front, msg.pinned = true := by
  push Not at h
  obtain ⟨msg, hmsg, hpinned⟩ := h
  exact ⟨msg, hmsg, Bool.eq_true_of_not_eq_false hpinned⟩

theorem exists_drained_of_pinned
    (h : ¬ ∀ msg ∈ messages.take (messages.length - keep), msg.pinned = false) :
    ∃ more, 0 < more ∧ drained keep messages =
      (messages.take (messages.length - keep)).filter (·.pinned) ++
        ((lastMessages keep messages).take (scanned more (lastMessages keep messages))).filter
          (·.pinned) ++
        (lastMessages keep messages).drop (scanned more (lastMessages keep messages)) := by
  rw [drained_eq]
  exact exists_drain_of_pinned (exists_pinned_of_not h) _

theorem spared_of_suffix {marker : List Message} (hmarker : ∀ msg ∈ marker, msg.pinned = false)
    (h : lastMessages keep messages <:+ marker ++ drained keep messages) :
    Spared keep messages := by
  by_cases hfront : ∀ msg ∈ messages.take (messages.length - keep), msg.pinned = false
  · exact .inl hfront
  refine .inr ?_
  obtain ⟨first, hfirst, hpinned⟩ := exists_pinned_of_not hfront
  obtain ⟨more, hmore, heq⟩ := exists_drained_of_pinned hfront
  rw [heq] at h
  set front := messages.take (messages.length - keep)
  set last := lastMessages keep messages
  refine pinned_of_scanned hmore fun msg hmsg => ?_
  set gone := last.take (scanned more last)
  have hall : ∀ m ∈ front.filter (·.pinned) ++ gone.filter (·.pinned), m.pinned = true := by
    intro m hm
    rw [← List.filter_append] at hm
    exact (List.mem_filter.mp hm).2
  -- the scanned part ends what stands before the part that is left
  obtain ⟨t, ht⟩ := h
  have hcancel : t ++ gone = marker ++ (front.filter (·.pinned) ++ gone.filter (·.pinned)) := by
    refine @List.append_cancel_right _ _ (last.drop (scanned more last)) _ ?_
    rw [List.append_assoc, List.take_append_drop, ht]
    simp only [List.append_assoc]
  rcases List.append_eq_append_iff.mp hcancel with ⟨m', hmark, hgone⟩ | ⟨c, -, hpart⟩
  · have hunmarked : m'.filter (·.pinned) = [] := filter_pinned_of_unpinned fun m hm =>
      hmarker m (hmark ▸ List.mem_append_right t hm)
    have hpart := congrArg (List.filter (·.pinned)) hgone
    rw [List.filter_append, hunmarked, List.nil_append, List.filter_eq_self.mpr hall] at hpart
    have hnil := List.append_left_eq_self.mp hpart.symm
    exact absurd (List.mem_filter.mpr ⟨hfirst, hpinned⟩) (by rw [hnil]; exact List.not_mem_nil)
  · exact hall msg (hpart ▸ List.mem_append_right c hmsg)

theorem drained_eq_recent (h : Spared keep messages) :
    drained keep messages = recent keep messages := by
  unfold recent
  by_cases hfront : ∀ msg ∈ messages.take (messages.length - keep), msg.pinned = false
  · rw [if_pos hfront, drained_eq, drain_of_unpinned hfront]
  · have hlast := h.resolve_left hfront
    obtain ⟨more, -, heq⟩ := exists_drained_of_pinned hfront
    rw [if_neg hfront, heq, List.filter_eq_self.mpr fun msg hmsg =>
      hlast msg (List.mem_of_mem_take hmsg), List.append_assoc, List.take_append_drop,
      ← List.filter_eq_self.mpr hlast, ← List.filter_append, lastMessages, List.take_append_drop]

/-- **The last messages survive** exactly when none before them is pinned, or all of them are. -/
theorem suffix_drain_iff :
    lastMessages keep messages <:+ drained keep messages ↔ Spared keep messages := by
  constructor
  · exact fun h => @spared_of_suffix _ _ [] (by simp) h
  · intro h
    rw [drained_eq_recent h, recent]
    split_ifs with hfront
    · exact List.suffix_rfl
    · have hlast := h.resolve_left hfront
      rw [← List.filter_eq_self.mpr hlast]
      exact (List.drop_suffix _ _).filter _

theorem drained_of_le (h : messages.length ≤ keep) : drained keep messages = messages := by
  unfold drained drainUnpinnedFromFront
  simp only
  rw [Nat.sub_eq_zero_of_le h]
  simp [scanned]

theorem spared_four_iff (h : Spared 10 messages) :
    Spared 4 (drained 10 messages) ↔ Spared 4 messages := by
  have hsplit : messages.length - 4 =
      (messages.length - 10) + ((lastMessages 10 messages).length - 4) := by
    rw [lastMessages, List.length_drop]
    omega
  have hlast : lastMessages 4 messages =
      (lastMessages 10 messages).drop ((lastMessages 10 messages).length - 4) := by
    rw [lastMessages, hsplit, ← List.drop_drop]
    rfl
  rw [drained_eq_recent h, recent]
  split_ifs with hfront
  · unfold Spared
    rw [hlast]
    refine or_congr_left ?_
    rw [hsplit, List.take_add, List.forall_mem_append, and_iff_right hfront]
    exact Iff.rfl
  · have hpinned := h.resolve_left hfront
    refine iff_of_true (.inr fun msg hmsg => ?_) (.inr fun msg hmsg => ?_)
    · exact (List.mem_filter.mp (List.mem_of_mem_drop hmsg)).2
    · rw [hlast] at hmsg
      exact hpinned msg (List.mem_of_mem_drop hmsg)

end Drain

/-! ## The stages of a recovery -/

section Recovery

variable (messages : List Message)

theorem stageOne_fst :
    (stageOne host messages).1 =
      if host.estimateTokens messages ≤ host.threshold90 then drained 10 messages
      else messages := by
  have htarget : messages.length - min 10 messages.length = messages.length - 10 := by omega
  unfold stageOne
  by_cases h90 : host.estimateTokens messages ≤ host.threshold90
  · rw [if_pos h90, if_pos h90]
    simp only
    rw [htarget]
    by_cases hlong : 0 < messages.length - 10
    · rw [if_pos hlong]
      rfl
    · rw [if_neg hlong]
      exact (drained_of_le (show messages.length ≤ 10 by omega)).symm
  · rw [if_neg h90, if_neg h90]

theorem stageOne_snd :
    (stageOne host messages).2 = .none ↔
      ¬ (host.estimateTokens messages ≤ host.threshold90 ∧ 10 < messages.length ∧
        host.estimateTokens (drained 10 messages) ≤ host.threshold70) := by
  have htarget : messages.length - min 10 messages.length = messages.length - 10 := by omega
  unfold stageOne
  by_cases h90 : host.estimateTokens messages ≤ host.threshold90
  · rw [if_pos h90]
    simp only
    rw [htarget]
    by_cases hlong : 10 < messages.length
    · rw [if_pos (Nat.sub_pos_of_lt hlong)]
      by_cases h70 : host.estimateTokens (drained 10 messages) ≤ host.threshold70
      · simp only [drained] at h70
        simp [h70, h90, hlong, drained]
      · simp only [drained] at h70
        simp [h70, drained]
    · rw [if_neg (by omega)]
      simp [hlong]
  · simp [h90]

/-- Nothing, or the message that messages were removed. -/
def IsMarker (marker : List Message) : Prop :=
  marker = [] ∨ ∃ removed, marker = [summaryMessage host.now removed]

theorem IsMarker.unpinned {marker : List Message} (h : IsMarker host marker) :
    ∀ msg ∈ marker, msg.pinned = false := by
  rcases h with rfl | ⟨removed, rfl⟩
  · exact fun msg hmsg => absurd hmsg List.not_mem_nil
  · intro msg hmsg
    rw [List.mem_singleton.mp hmsg]
    rfl

theorem exists_stageTwo :
    ∃ marker, IsMarker host marker ∧ (stageTwo host messages).1 = marker ++ drained 4 messages := by
  have htarget : messages.length - min 4 messages.length = messages.length - 4 := by omega
  unfold stageTwo
  simp only
  rw [htarget]
  by_cases hlong : 0 < messages.length - 4
  · rw [if_pos hlong]
    by_cases hremoved : 0 < (drainUnpinnedFromFront messages (messages.length - 4)).2
    · rw [if_pos hremoved]
      exact ⟨[_], .inr ⟨_, rfl⟩, rfl⟩
    · rw [if_neg hremoved]
      exact ⟨[], .inl rfl, rfl⟩
  · rw [if_neg hlong]
    exact ⟨[], .inl rfl, (drained_of_le (show messages.length ≤ 4 by omega)).symm⟩

theorem suffix_stageTwo_iff :
    lastMessages 4 messages <:+ (stageTwo host messages).1 ↔ Spared 4 messages := by
  obtain ⟨marker, hmarker, heq⟩ := exists_stageTwo host messages
  rw [heq]
  constructor
  · exact spared_of_suffix hmarker.unpinned
  · exact fun h => (suffix_drain_iff.mpr h).trans (List.suffix_append _ _)

/-- A recovery starts. -/
def Overflows : Prop := host.threshold70 < host.estimateTokens messages

/-- **What a recovery promises**: no message is removed that is pinned, the others keep their order,
and each stage that is reached keeps the last messages of its input. -/
structure RecoveryKeeps : Prop where
  survives : ∃ out stage kept marker, recoverFromOverflow host messages = some (out, stage) ∧
    kept.Sublist messages ∧ kept.filter (·.pinned) = messages.filter (·.pinned) ∧
    IsMarker host marker ∧
    (out = marker ++ kept ∨ (marker ++ kept).mapM truncateResults = some out)
  ten : Overflows host messages → host.estimateTokens messages ≤ host.threshold90 →
    lastMessages 10 messages <:+ (stageOne host messages).1
  four : Overflows host messages → (stageOne host messages).2 = .none →
    lastMessages 4 (stageOne host messages).1 <:+ (stageTwo host (stageOne host messages).1).1

theorem exists_truncateBlock (block : ContentBlock) : ∃ out, truncateBlock block = some out := by
  cases block with
  | toolResult id name content isError status approval =>
    have htruncate : ∃ out, overflowTruncate content.toList = some out := by
      by_cases hlong : toolTruncationLimit < content.toList.length
      · exact ⟨_, overflowTruncate_eq hlong⟩
      · exact ⟨_, if_pos (Nat.le_of_not_lt hlong)⟩
    obtain ⟨out, hout⟩ := htruncate
    exact ⟨_, by rw [truncateBlock, hout, Option.map_some]⟩
  | text | image | imageFile | toolUse | thinking | unknown => exact ⟨_, rfl⟩

theorem exists_mapM {α β : Type} {f : α → Option β} (hf : ∀ a, ∃ b, f a = some b) (l : List α) :
    ∃ out, l.mapM f = some out := by
  induction l with
  | nil => exact ⟨[], rfl⟩
  | cons a l ih =>
    obtain ⟨b, hb⟩ := hf a
    obtain ⟨out, hout⟩ := ih
    exact ⟨b :: out, by rw [List.mapM_cons, hb, hout]; rfl⟩

theorem exists_truncateResults (msg : Message) : ∃ out, truncateResults msg = some out := by
  unfold truncateResults
  cases msg.content with
  | text s => exact ⟨msg, rfl⟩
  | blocks blocks =>
    obtain ⟨out, hout⟩ := exists_mapM exists_truncateBlock blocks
    exact ⟨_, by simp only; rw [hout, Option.map_some]⟩

theorem recoverFromOverflow_survives :
    ∃ out stage kept marker, recoverFromOverflow host messages = some (out, stage) ∧
      kept.Sublist messages ∧ kept.filter (·.pinned) = messages.filter (·.pinned) ∧
      IsMarker host marker ∧
      (out = marker ++ kept ∨ (marker ++ kept).mapM truncateResults = some out) := by
  have hdrained : ∀ keep ms, (drained keep ms).Sublist ms ∧
      (drained keep ms).filter (·.pinned) = ms.filter (·.pinned) := fun keep ms =>
    ⟨drain_sublist _ _, filter_pinned_drain _ _⟩
  have hone : (stageOne host messages).1.Sublist messages ∧
      (stageOne host messages).1.filter (·.pinned) = messages.filter (·.pinned) := by
    rw [stageOne_fst]
    split_ifs
    · exact hdrained 10 messages
    · exact ⟨List.Sublist.refl _, rfl⟩
  unfold recoverFromOverflow
  by_cases h70 : host.estimateTokens messages ≤ host.threshold70
  · rw [if_pos h70]
    exact ⟨messages, _, messages, [], rfl, List.Sublist.refl _, rfl, .inl rfl, .inl rfl⟩
  rw [if_neg h70]
  rcases hstage : stageOne host messages with ⟨left, _ | stage⟩
  · rw [hstage] at hone
    obtain ⟨marker, hmarker, htwo⟩ := exists_stageTwo host left
    have hleft := hdrained 4 left
    have hsublist := hleft.1.trans hone.1
    have hpinned := hleft.2.trans hone.2
    simp only
    rcases hstage' : stageTwo host left with ⟨left', _ | stage⟩
    · rw [hstage'] at htwo
      obtain ⟨out, hout⟩ := exists_mapM exists_truncateResults left'
      simp only [stageThree]
      rw [hout, Option.map_some]
      exact ⟨out, _, drained 4 left, marker, rfl, hsublist, hpinned, hmarker, .inr (htwo ▸ hout)⟩
    · rw [hstage'] at htwo
      exact ⟨left', stage, drained 4 left, marker, rfl, hsublist, hpinned, hmarker, .inl htwo⟩
  · rw [hstage] at hone
    exact ⟨left, stage, left, [], rfl, hone.1, hone.2, .inl rfl, .inl rfl⟩

/-- The first stage removes nothing, or leaves too much. -/
def SecondStage : Prop :=
  ¬ (host.estimateTokens messages ≤ host.threshold90 ∧ 10 < messages.length ∧
    host.estimateTokens (recent 10 messages) ≤ host.threshold70)

/-- **A recovery keeps its promises exactly when each stage it needs finds the last messages
spared**: no message before them is pinned, or they are all pinned. -/
theorem recoverFromOverflow_keeps_iff (host : Host) (messages : List Message) :
    RecoveryKeeps host messages ↔
      (Overflows host messages → host.estimateTokens messages ≤ host.threshold90 →
        Spared 10 messages) ∧
      (Overflows host messages → SecondStage host messages → Spared 4 messages) := by
  have hten (h90 : host.estimateTokens messages ≤ host.threshold90) :
      lastMessages 10 messages <:+ (stageOne host messages).1 ↔ Spared 10 messages := by
    rw [stageOne_fst, if_pos h90, suffix_drain_iff]
  -- once the first stage spares the last messages, the second one looks at the same messages
  have hfour (hspared : host.estimateTokens messages ≤ host.threshold90 → Spared 10 messages) :
      (Spared 4 (stageOne host messages).1 ↔ Spared 4 messages) ∧
        ((stageOne host messages).2 = .none ↔ SecondStage host messages) := by
    rw [stageOne_fst, stageOne_snd]
    by_cases h90 : host.estimateTokens messages ≤ host.threshold90
    · rw [if_pos h90, SecondStage, drained_eq_recent (hspared h90), ← drained_eq_recent (hspared h90)]
      exact ⟨spared_four_iff (hspared h90), Iff.rfl⟩
    · rw [if_neg h90]
      refine ⟨Iff.rfl, iff_of_true (fun h => h90 h.1) (fun h => h90 h.1)⟩
  constructor
  · intro h
    refine ⟨fun hover h90 => (hten h90).mp (h.ten hover h90), fun hover hsecond => ?_⟩
    obtain ⟨hspared, hreached⟩ := hfour fun h90 => (hten h90).mp (h.ten hover h90)
    exact hspared.mp ((suffix_stageTwo_iff host _).mp (h.four hover (hreached.mpr hsecond)))
  · rintro ⟨hfirst, hsecond⟩
    refine ⟨recoverFromOverflow_survives host messages, fun hover h90 => ?_, fun hover hnone => ?_⟩
    · exact (hten h90).mpr (hfirst hover h90)
    · obtain ⟨hspared, hreached⟩ := hfour (hfirst hover)
      exact (suffix_stageTwo_iff host _).mpr
        (hspared.mpr (hsecond hover (hreached.mp hnone)))

end Recovery

/-- Eleven messages after a pinned one. -/
def pinnedFirst : List Message :=
  ⟨.user, .text "rules", true, none⟩ ::
    (List.range 11).map fun i => ⟨.user, .text (toString i), false, none⟩

/-- The pinned message counts for the ten that stay, so one of the last ten goes. -/
theorem pinnedFirst_not_kept :
    ¬ ∀ (systemPrompt : String) (tools : List ToolDefinition) (contextWindow : ℕ) (now : ℤ)
      (messages : List Message),
      RecoveryKeeps (.ofWindow systemPrompt tools contextWindow now) messages := by
  intro h
  have hkeeps := h "" [] 80 0 pinnedFirst
  have hten := hkeeps.ten (by unfold Overflows; decide +kernel) (by decide +kernel)
  exact absurd hten (by decide +kernel)

end LibreFang.Context
