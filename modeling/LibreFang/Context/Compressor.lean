import LibreFang.Context.Overflow
import LibreFang.Lib.Floats
import LibreFang.Session.Compactor

/-!
# Compression of the context

When the messages of a conversation take too many tokens, those between the first and the most
recent ones are replaced by a summary.

* `headEnd`, `tailStart`: where the summarized part begins and ends; `compressOnce`: one pass.
* **`exchanges_compressed`**: a pass leaves whole exchanges.
* **`moved_calls`**: results that leave the recent messages are summarized with their calls.
-/

namespace LibreFang.Context

open Floats Session

/-! ## Configuration -/

/-- `CompressionConfig`. -/
structure CompressionConfig where
  thresholdRatio : F64
  protectHead : UInt64
  keepRecent : UInt64
  maxIterations : UInt32

/-- `CompressionConfig::default`. -/
def CompressionConfig.default : CompressionConfig := ⟨nearest (4 / 5), 3, 10, 3⟩

/-- `CompressionEvent`. -/
structure CompressionEvent where
  beforeTokens : ℕ
  afterTokens : ℕ
  beforeCount : ℕ
  afterCount : ℕ
  iteration : ℕ
  usedFallback : Bool
  deriving DecidableEq, Repr

/-- What a compression is given; the summarizer and the time depend on the iteration. -/
structure Request where
  systemPrompt : String
  tools : List ToolDefinition
  contextWindow : UInt64
  driver : ℕ → Summarizer
  now : ℕ → ℤ

/-- `estimate_token_count`, as the compressor calls it. -/
def Request.estimate (req : Request) (messages : List Message) : ℕ :=
  estimateTokenCount req.systemPrompt req.tools messages

/-- `SUMMARY_PREFIX`. -/
def summaryPrefix : String :=
  "[CONTEXT COMPRESSION SUMMARY] Earlier conversation turns have " ++
    "been summarised to preserve context space. The state described below reflects work " ++
    "already completed — do NOT repeat it. Continue from where the conversation left off, " ++
    "responding only to the most recent user message that appears AFTER this summary."

/-- `should_compress`. -/
def shouldCompress (cfg : CompressionConfig) (req : Request) (messages : List Message) : Bool :=
  let threshold := ((nearest req.contextWindow.toNat).mul cfg.thresholdRatio).toU64
  threshold ≤ req.estimate messages

/-! ## A pass -/

/-- `msg_is_tool_result_delivery`. -/
def msgIsToolResultDelivery (msg : Message) : Bool :=
  msg.role == .user && msg.blocks.any fun b => b.resultId?.isSome

/-- `msg_has_tool_use`. -/
def msgHasToolUse (msg : Message) : Bool := msg.blocks.any fun b => b.useId?.isSome

/-- The end of the head: a call at its end takes its results with it. -/
def headEnd (cfg : CompressionConfig) (messages : List Message) : ℕ :=
  let nominal := min cfg.protectHead.toNat messages.length
  if 0 < nominal ∧ nominal < messages.length ∧
      (messages[nominal - 1]?.any fun lastHead =>
        lastHead.role == .assistant && msgHasToolUse lastHead)
  then min (nominal + 1) messages.length
  else nominal

/-- The start of the recent messages. -/
def nominalTailStart (cfg : CompressionConfig) (messages : List Message) : ℕ :=
  if cfg.keepRecent.toNat < messages.length then messages.length - cfg.keepRecent.toNat
  else messages.length

/-- The start of the tail, behind the results at the start of the recent messages. -/
def tailStart (cfg : CompressionConfig) (messages : List Message) : ℕ :=
  let nominal := nominalTailStart cfg messages
  nominal + ((messages.drop nominal).takeWhile msgIsToolResultDelivery).length

/-- The messages kept in front. -/
def head (cfg : CompressionConfig) (messages : List Message) : List Message :=
  messages.take (headEnd cfg messages)

/-- The messages that are summarized. -/
def middle (cfg : CompressionConfig) (messages : List Message) : List Message :=
  (messages.take (tailStart cfg messages)).drop (headEnd cfg messages)

/-- The messages kept behind. -/
def tail (cfg : CompressionConfig) (messages : List Message) : List Message :=
  messages.drop (tailStart cfg messages)

/-- The role of the summary. -/
def summaryRole (head tail : List Message) : Role :=
  if (head.getLast?.elim .user Message.role) = .user ∧ (tail.head?.elim .user Message.role) = .user
  then .assistant else .user

/-- The summary of a middle part. -/
def summaryMsg (role : Role) (middle : List Message) (summary : String) (now : ℤ) : Message :=
  ⟨role, .text (summaryPrefix ++ "\n\n" ++ summary), middle.any (·.pinned), some now⟩

/-- `compress_once`; the summarizer always has a result. -/
def compressOnce (cfg : CompressionConfig) (driver : Summarizer) (now : ℤ)
    (messages : List Message) : Except String (List Message × Bool) :=
  if tailStart cfg messages ≤ headEnd cfg messages then .error "No middle section to compress"
  else
    let result := compactSession driver (middle cfg messages) 0
    let role := summaryRole (head cfg messages) (tail cfg messages)
    .ok (head cfg messages ++ summaryMsg role (middle cfg messages) result.summary now ::
      tail cfg messages, result.usedFallback)

/-- The messages and events of a compression; as history, the messages of each pass. -/
structure Compression where
  messages : List Message
  events : List CompressionEvent
  entered : List (List Message)

/-- `min_for_compress`; the sum of the release build wraps around. -/
def minForCompress (cfg : CompressionConfig) : ℕ := (cfg.protectHead + cfg.keepRecent + 2).toNat

/-- The iterations that are left. -/
def compressLoop (cfg : CompressionConfig) (req : Request) :
    ℕ → ℕ → List Message → Compression
  | _, 0, current => ⟨current, [], []⟩
  | iteration, left + 1, current =>
    if shouldCompress cfg req current = false then ⟨current, [], []⟩
    else if current.length ≤ minForCompress cfg then ⟨current, [], []⟩
    else
      match compressOnce cfg (req.driver iteration) (req.now iteration) current with
      | .error _ => ⟨current, [], [current]⟩
      | .ok (compressed, usedFallback) =>
        if req.estimate current ≤ req.estimate compressed then ⟨current, [], [current]⟩
        else
          let rest := compressLoop cfg req (iteration + 1) left compressed
          ⟨rest.messages, ⟨req.estimate current, req.estimate compressed, current.length,
            compressed.length, iteration, usedFallback⟩ :: rest.events, current :: rest.entered⟩

/-- `compress_if_needed`. -/
def compressIfNeeded (cfg : CompressionConfig) (req : Request) (messages : List Message) :
    Compression :=
  compressLoop cfg req 0 cfg.maxIterations.toNat messages

/-! ## Where a pass cuts -/

section Cuts

variable {cfg : CompressionConfig} {messages : List Message}

theorem isToolResultDelivery_of_result (h : Exchanges messages) {i : ℕ} {m : Message}
    (hm : messages[i]? = some m) {x : String} (hx : x ∈ toolResultIds m) :
    msgIsToolResultDelivery m = true := by
  obtain ⟨b, hb, hbx⟩ := mem_toolResultIds.mp hx
  unfold msgIsToolResultDelivery
  rw [h.isUser_of_result hm hx, Bool.and_eq_true, List.any_eq_true]
  exact ⟨rfl, b, hb, Option.isSome_iff_exists.mpr ⟨x, hbx⟩⟩

variable (cfg messages) in
theorem headEnd_bounds : min cfg.protectHead.toNat messages.length ≤ headEnd cfg messages ∧
    headEnd cfg messages ≤ min cfg.protectHead.toNat messages.length + 1 ∧
    headEnd cfg messages ≤ messages.length := by
  unfold headEnd
  dsimp only
  split_ifs with h
  · omega
  · omega

variable (cfg messages) in
theorem nominalTailStart_le : nominalTailStart cfg messages ≤ messages.length := by
  unfold nominalTailStart
  split_ifs <;> omega

variable (cfg messages) in
theorem tailStart_bounds : nominalTailStart cfg messages ≤ tailStart cfg messages ∧
    tailStart cfg messages ≤ messages.length := by
  have hwhile := (List.takeWhile_prefix (l := messages.drop (nominalTailStart cfg messages))
    msgIsToolResultDelivery).length_le
  rw [List.length_drop] at hwhile
  have hnominal := nominalTailStart_le cfg messages
  unfold tailStart
  dsimp only
  omega

theorem closed_headEnd (h : Exchanges messages) (hlt : headEnd cfg messages < messages.length)
    (j : ℕ) (m : Message) (hj : headEnd cfg messages = j + 1) (hm : messages[j]? = some m) :
    idsNeeded m = [] := by
  unfold headEnd at hlt hj
  dsimp only at hlt hj
  split_ifs at hlt hj with hcall
  · -- the last message of the head answers a call, so it is of the user
    obtain ⟨hpos, -, hlast⟩ := hcall
    obtain ⟨lastHead, hlastHead, hcall⟩ := (Option.any_eq_true ..).mp hlast
    rw [Bool.and_eq_true, beq_iff_eq] at hcall
    obtain ⟨x, hx⟩ := List.exists_mem_of_ne_nil _ (messageHasToolUse_iff.mp hcall.2)
    have hanswer := h.answered _ lastHead hlastHead x (mem_idsNeeded.mpr ⟨hcall.1, hx⟩)
    rw [show min cfg.protectHead.toNat messages.length - 1 + 1 = j by omega, hm] at hanswer
    obtain ⟨n, hn, hrole, -⟩ := mem_adjacentResults.mp hanswer
    obtain rfl := Option.some.inj hn
    exact idsNeeded_of_role_ne (by rw [hrole]; decide)
  · by_contra hne
    refine hcall ⟨by omega, hlt, ?_⟩
    rw [hj, Nat.add_sub_cancel, hm, Option.any_some]
    have hneeded := mt closes_exchange_iff.mp hne
    rwa [Bool.not_eq_true', Bool.not_eq_false] at hneeded

theorem not_of_getElem?_takeWhile {α : Type} {p : α → Bool} {l : List α} {x : α}
    (h : l[(l.takeWhile p).length]? = some x) : p x = false := by
  induction l with
  | nil => cases h
  | cons y l ih =>
    rw [List.takeWhile_cons] at h
    split_ifs at h with hy
    · exact ih h
    · obtain rfl : y = x := Option.some.inj h
      exact Bool.eq_false_of_not_eq_true hy

theorem open_tailStart (h : Exchanges messages) (m : Message)
    (hm : messages[tailStart cfg messages]? = some m) : toolResultIds m = [] := by
  by_contra hne
  obtain ⟨x, hx⟩ := List.exists_mem_of_ne_nil _ hne
  have hdelivery : msgIsToolResultDelivery m = true := isToolResultDelivery_of_result h hm hx
  unfold tailStart at hm
  dsimp only at hm
  rw [← List.getElem?_drop] at hm
  rw [not_of_getElem?_takeWhile hm] at hdelivery
  cases hdelivery

/-- **A pass leaves whole exchanges.** -/
theorem exchanges_compressed (h : Exchanges messages)
    (hcuts : headEnd cfg messages < tailStart cfg messages) {summary : Message}
    (huses : toolUseIds summary = []) (hresults : toolResultIds summary = []) :
    Exchanges (head cfg messages ++ summary :: tail cfg messages) := by
  have hlt : headEnd cfg messages < messages.length := hcuts.trans_le (tailStart_bounds cfg messages).2
  have hhead : Exchanges (head cfg messages) := h.take (closed_headEnd h hlt)
  have htail : Exchanges (tail cfg messages) := h.drop_of_no_results (open_tailStart h)
  exact hhead.append ((exchanges_singleton huses hresults).append htail)

/-- The results at the start of the recent messages. -/
def moved (cfg : CompressionConfig) (messages : List Message) : List Message :=
  (messages.drop (nominalTailStart cfg messages)).takeWhile msgIsToolResultDelivery

theorem head_append_middle_append_tail (hcuts : headEnd cfg messages < tailStart cfg messages) :
    head cfg messages ++ middle cfg messages ++ tail cfg messages = messages := by
  have hhead : (messages.take (tailStart cfg messages)).take (headEnd cfg messages) =
      head cfg messages := by
    rw [List.take_take, min_eq_left hcuts.le]
    rfl
  unfold middle tail
  rw [← hhead, List.take_append_drop, List.take_append_drop]

theorem moved_append_tail :
    moved cfg messages ++ tail cfg messages = messages.drop (nominalTailStart cfg messages) := by
  have hmoved := List.prefix_iff_eq_append.mp (List.takeWhile_prefix
    (l := messages.drop (nominalTailStart cfg messages)) msgIsToolResultDelivery)
  rw [List.drop_drop] at hmoved
  exact hmoved

/-- **Results that leave the recent messages are summarized with their calls.** -/
theorem moved_calls (h : Exchanges messages)
    (hgap : headEnd cfg messages < nominalTailStart cfg messages) {m : Message}
    (hm : m ∈ moved cfg messages) {x : String} (hx : x ∈ toolResultIds m) :
    x ∈ calls (middle cfg messages) := by
  obtain ⟨k, hk⟩ := List.mem_iff_getElem?.mp hm
  have hlt : nominalTailStart cfg messages + k < tailStart cfg messages :=
    Nat.add_lt_add_left (List.getElem?_eq_some_iff.mp hk).1 _
  have hmessage : messages[nominalTailStart cfg messages + k]? = some m := by
    rw [← List.getElem?_drop, ← moved_append_tail]
    exact List.getElem?_append_left (List.getElem?_eq_some_iff.mp hk).1 ▸ hk
  obtain ⟨j, p, hj, hp, hxp⟩ := h.preceded _ m hmessage x hx trivial
  have hmem : p ∈ middle cfg messages := by
    refine List.mem_of_getElem? (i := j - headEnd cfg messages) ?_
    unfold middle
    rw [List.getElem?_drop, Nat.add_sub_cancel' (by omega), List.getElem?_take_of_lt (by omega)]
    exact hp
  exact List.mem_flatMap.mpr ⟨p, hmem, hxp⟩

end Cuts

end LibreFang.Context
