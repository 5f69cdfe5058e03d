import Mathlib.Data.List.Nodup
import Mathlib.Data.List.Pairwise
import LibreFang.Session.Trim

/-!
# Where compaction splits a history

The older part of a history is handed to a summarizer, the recent part is kept.

* `adjustSplitForToolPair`: the split moves behind the result that answers the message before it.
* `compactionSplit`, `compactSession`: what is handed over and what is kept.
* **`apart_iff`**: a split is between no call and its result exactly when no call is open.
* **`compactSession_clean_iff`**: when the split of a compaction is.
-/

namespace LibreFang.Session

variable {ms head tail : List Message}

/-! ## The split -/

/-- `extract_first_tool_use_id`. -/
def extractFirstToolUseId (msg : Message) : Option String := (toolUseIds msg).head?

/-- `is_tool_result_delivery`. -/
def isToolResultDelivery (msg : Message) : Bool :=
  msg.role == .user && messageIsOnlyToolResults msg

/-- The message delivers the result of a call, and only results. -/
def deliversResult (toolUseId : String) (msg : Message) : Bool :=
  isToolResultDelivery msg && (toolResultIds msg).contains toolUseId

/-- `tail_has_matching_result`. -/
def tailHasMatchingResult (messages : List Message) (fromIdx : ℕ) (toolUseId : String) : Bool :=
  (messages.drop fromIdx).any (deliversResult toolUseId)

/-- `adjust_split_for_tool_pair`. -/
def adjustSplitForToolPair (messages : List Message) (splitAt keepRecent : ℕ) : ℕ :=
  if splitAt = 0 then splitAt
  else
    match messages[splitAt - 1]? with
    | none => splitAt
    | some headEnd =>
      if headEnd.role ≠ .assistant ∨ messageHasToolUse headEnd = false then splitAt
      else
        match extractFirstToolUseId headEnd with
        | none => splitAt
        | some toolUseId =>
          if tailHasMatchingResult messages splitAt toolUseId = false then splitAt
          else
            -- the loop ends at the last message; indices past it match nothing
            match (List.range' splitAt keepRecent).find? fun i =>
                (messages[i]?).any (deliversResult toolUseId) with
            | some i => i + 1
            | none => splitAt

/-- What a compaction hands to the summarizer, and what it keeps. -/
def compactionSplit (messages : List Message) (keepRecent : ℕ) : List Message × List Message :=
  if messages.length ≤ keepRecent then ([], messages)
  else
    let splitAt := adjustSplitForToolPair messages (messages.length - keepRecent) keepRecent
    (messages.take splitAt, messages.drop splitAt)

/-- The two ways of summarizing with a model, and the number of chunks of the second. -/
structure Summarizer where
  summarizeMessages : List Message → Except String String
  summarizeInChunks : List Message → Except String String
  numChunks : List Message → ℕ

/-- `CompactionResult`. -/
structure CompactionResult where
  summary : String
  keptMessages : List Message
  compactedCount : ℕ
  chunksUsed : ℕ
  usedFallback : Bool

/-- `compact_session`. -/
def compactSession (driver : Summarizer) (messages : List Message) (keepRecent : ℕ) :
    CompactionResult :=
  if messages.length ≤ keepRecent then ⟨"", messages, 0, 0, false⟩
  else
    let (toCompact, kept) := compactionSplit messages keepRecent
    match driver.summarizeMessages toCompact with
    | .ok summary => ⟨summary, kept, toCompact.length, 1, false⟩
    | .error _ =>
      match driver.summarizeInChunks toCompact with
      | .ok summary => ⟨summary, kept, toCompact.length, max (driver.numChunks toCompact) 1, false⟩
      | .error _ =>
        ⟨s!"[Session compacted: {toCompact.length} messages removed. Recent {kept.length} " ++
            "messages preserved. Summarization was unavailable.]",
          kept, toCompact.length, 0, true⟩

theorem compactionSplit_append (messages : List Message) (keepRecent : ℕ) :
    (compactionSplit messages keepRecent).1 ++ (compactionSplit messages keepRecent).2 =
      messages := by
  unfold compactionSplit
  split_ifs
  · rfl
  · exact List.take_append_drop _ _

theorem keptMessages_compactSession (driver : Summarizer) (messages : List Message)
    (keepRecent : ℕ) :
    (compactSession driver messages keepRecent).keptMessages =
      (compactionSplit messages keepRecent).2 := by
  unfold compactSession
  by_cases h : messages.length ≤ keepRecent
  · rw [if_pos h, compactionSplit, if_pos h]
  · rw [if_neg h]
    simp only
    cases driver.summarizeMessages (compactionSplit messages keepRecent).1 with
    | ok summary => rfl
    | error _ => cases driver.summarizeInChunks (compactionSplit messages keepRecent).1 <;> rfl

/-! ## Calls and their results -/

/-- A message of the user. -/
def isUser (m : Message) : Bool := m.role == .user

/-- The results in the next message of the user. -/
def nextResults (rest : List Message) : List String := (rest.find? isUser).elim [] toolResultIds

/-- The contract: the calls of an assistant message are answered in the next message of the user,
each result comes after an assistant message with its call, and ids are unique. -/
structure ToolAdjacency (ms : List Message) : Prop where
  answered : ∀ (i : ℕ) (hi : i < ms.length), ∀ x ∈ idsNeeded ms[i],
    x ∈ nextResults (ms.drop (i + 1))
  preceded : ∀ (i : ℕ) (hi : i < ms.length), ∀ x ∈ toolResultIds ms[i], x ∈ calls (ms.take i)
  uses : (collectToolUseIds ms).Nodup
  results : (ms.flatMap toolResultIds).Nodup

/-- No call of the first part has its result in the second one. -/
def Apart (head tail : List Message) : Prop :=
  ∀ x ∈ head.flatMap toolUseIds, x ∉ tail.flatMap toolResultIds

/-- The messages since the last one of the user, from the last. -/
def openTurn (head : List Message) : List Message := head.reverse.takeWhile fun m => !isUser m

theorem mem_takeWhile_iff {α : Type*} {p : α → Bool} {l : List α} {x : α} :
    x ∈ l.takeWhile p ↔ ∃ a b, l = a ++ x :: b ∧ p x = true ∧ ∀ y ∈ a, p y = true := by
  constructor
  · intro h
    obtain ⟨a, b, hab⟩ := List.mem_iff_append.mp h
    have hall : ∀ y ∈ a ++ x :: b, p y = true := fun y hy =>
      List.mem_takeWhile_imp (hab ▸ hy)
    refine ⟨a, b ++ l.dropWhile p, ?_, hall x (by simp), fun y hy => hall y (by simp [hy])⟩
    rw [← List.cons_append, ← List.append_assoc, ← hab, List.takeWhile_append_dropWhile]
  · rintro ⟨a, b, rfl, hx, ha⟩
    rw [List.takeWhile_append_of_pos ha, List.takeWhile_cons_of_pos hx]
    exact List.mem_append_right _ List.mem_cons_self

variable {m : Message}

theorem mem_openTurn_iff :
    m ∈ openTurn head ↔
      ∃ a b, head = a ++ m :: b ∧ isUser m = false ∧ ∀ n ∈ b, isUser n = false := by
  unfold openTurn
  rw [mem_takeWhile_iff]
  constructor
  · rintro ⟨a, b, hab, hm, ha⟩
    refine ⟨b.reverse, a.reverse, ?_, (Bool.not_eq_true' _).mp hm, fun n hn => ?_⟩
    · rw [← head.reverse_reverse, hab, List.reverse_append, List.reverse_cons, List.append_assoc]
      rfl
    · exact (Bool.not_eq_true' _).mp (ha n (List.mem_reverse.mp hn))
  · rintro ⟨a, b, rfl, hm, hb⟩
    refine ⟨b.reverse, a.reverse, ?_, (Bool.not_eq_true' _).mpr hm, fun n hn => ?_⟩
    · rw [List.reverse_append, List.reverse_cons, List.append_assoc]
      rfl
    · exact (Bool.not_eq_true' _).mpr (hb n (List.mem_reverse.mp hn))

theorem not_isUser_of_idsNeeded {x : String} (h : x ∈ idsNeeded m) : isUser m = false := by
  unfold isUser
  rw [(mem_idsNeeded.mp h).1]
  rfl

theorem eq_of_mem_flatMap {α β : Type*} {f : α → List β} {l : List α} (h : (l.flatMap f).Nodup)
    {a b : α} (ha : a ∈ l) (hb : b ∈ l) {x : β} (hxa : x ∈ f a) (hxb : x ∈ f b) : a = b := by
  by_contra hne
  have hpairwise := (List.nodup_flatMap.mp h).2
  have hsymm : Std.Symm (Function.onFun List.Disjoint f) := ⟨fun _ _ hd _ hb ha => hd ha hb⟩
  exact hpairwise.forall ha hb hne hxa hxb

theorem find?_append_of_none {b rest : List Message} (hb : ∀ n ∈ b, isUser n = false) :
    (b ++ rest).find? isUser = rest.find? isUser := by
  have hnone : b.find? isUser = none :=
    List.find?_eq_none.mpr fun n hn => Bool.eq_false_iff.mp (hb n hn)
  rw [List.find?_append, hnone, Option.none_or]

theorem mem_nextResults {rest : List Message} {x : String} :
    x ∈ nextResults rest ↔ ∃ u, rest.find? isUser = some u ∧ x ∈ toolResultIds u := by
  unfold nextResults
  cases rest.find? isUser with
  | none => simp
  | some u => simp

theorem ToolAdjacency.answered_append {a b : List Message}
    (h : ToolAdjacency (a ++ m :: b)) {x : String} (hx : x ∈ idsNeeded m) : x ∈ nextResults b := by
  have hi : a.length < (a ++ m :: b).length := by
    rw [List.length_append, List.length_cons]
    omega
  have hanswered := h.answered a.length hi x
  rw [List.getElem_append_right le_rfl] at hanswered
  simp only [Nat.sub_self, List.getElem_cons_zero] at hanswered
  have hdrop : (a ++ m :: b).drop (a.length + 1) = b := by
    rw [← List.drop_drop, List.drop_left]
    rfl
  rw [hdrop] at hanswered
  exact hanswered hx

/-- **A split is between no call and its result exactly when no call is open.** -/
theorem apart_iff (h : ToolAdjacency (head ++ tail)) :
    Apart head tail ↔ ∀ m ∈ openTurn head, idsNeeded m = [] := by
  have huses : (head.flatMap toolUseIds ++ tail.flatMap toolUseIds).Nodup := by
    rw [← List.flatMap_append]
    exact h.uses
  have hresults : (head.flatMap toolResultIds ++ tail.flatMap toolResultIds).Nodup := by
    rw [← List.flatMap_append]
    exact h.results
  constructor
  · intro hapart m hm
    by_contra hne
    obtain ⟨x, hx⟩ := List.exists_mem_of_ne_nil _ hne
    obtain ⟨a, b, rfl, -, hb⟩ := mem_openTurn_iff.mp hm
    rw [List.append_assoc, List.cons_append] at h
    obtain ⟨u, hu, hxu⟩ := mem_nextResults.mp (h.answered_append hx)
    rw [find?_append_of_none hb] at hu
    refine hapart x ?_ (List.mem_flatMap.mpr ⟨u, List.mem_of_find?_eq_some hu, hxu⟩)
    exact List.mem_flatMap.mpr ⟨m, by simp, (mem_idsNeeded.mp hx).2⟩
  · intro hopen x hx hxt
    obtain ⟨u, hu, hxu⟩ := List.mem_flatMap.mp hxt
    obtain ⟨i, hi, rfl⟩ := List.getElem_of_mem hu
    have hlt : head.length + i < (head ++ tail).length := by
      rw [List.length_append]
      omega
    have hcall := h.preceded (head.length + i) hlt x (by
      rw [List.getElem_append_right (Nat.le_add_right _ _)]
      simpa using hxu)
    rw [List.take_length_add_append, calls, List.flatMap_append, List.mem_append] at hcall
    have hhead : x ∈ head.flatMap idsNeeded := by
      refine hcall.resolve_right fun ht => ?_
      obtain ⟨m, hm, hxm⟩ := List.mem_flatMap.mp ht
      have hxt : x ∈ tail.flatMap toolUseIds :=
        List.mem_flatMap.mpr ⟨m, List.mem_of_mem_take hm, (mem_idsNeeded.mp hxm).2⟩
      exact List.disjoint_of_nodup_append huses hx hxt
    obtain ⟨m, hm, hxm⟩ := List.mem_flatMap.mp hhead
    obtain ⟨a, b, rfl⟩ := List.mem_iff_append.mp hm
    by_cases hb : ∀ n ∈ b, isUser n = false
    · have hturn : m ∈ openTurn (a ++ m :: b) :=
        mem_openTurn_iff.mpr ⟨a, b, rfl, not_isUser_of_idsNeeded hxm, hb⟩
      rw [hopen m hturn] at hxm
      cases hxm
    · -- the answer stands before the split, and would stand behind it a second time
      rw [List.append_assoc, List.cons_append] at h
      obtain ⟨v, hv, hxv⟩ := mem_nextResults.mp (h.answered_append hxm)
      have hvb : v ∈ b := by
        rw [List.find?_append] at hv
        cases hf : b.find? isUser with
        | none =>
          exact absurd (fun n hn => Bool.eq_false_iff.mpr (List.find?_eq_none.mp hf n hn)) hb
        | some w =>
          rw [hf, Option.some_or] at hv
          exact Option.some.inj hv ▸ List.mem_of_find?_eq_some hf
      refine List.disjoint_of_nodup_append hresults ?_ hxt
      exact List.mem_flatMap.mpr ⟨v, by simp [hvb], hxv⟩

/-! ## The adjusted split -/

/-- The split before it is adjusted. -/
def splitPoint (messages : List Message) (keepRecent : ℕ) : ℕ := messages.length - keepRecent

/-- No call is open at the split, or the message before the split has calls and the next message of
the user delivers results and nothing else. -/
def SplitsCleanly (messages : List Message) (keepRecent : ℕ) : Prop :=
  (∀ m ∈ openTurn (messages.take (splitPoint messages keepRecent)), idsNeeded m = []) ∨
    (∃ m ∈ (messages.take (splitPoint messages keepRecent)).getLast?, idsNeeded m ≠ []) ∧
      ∃ u ∈ (messages.drop (splitPoint messages keepRecent)).find? isUser,
        messageIsOnlyToolResults u = true

theorem idsNeeded_eq_nil_iff :
    idsNeeded m = [] ↔ m.role ≠ .assistant ∨ messageHasToolUse m = false := by
  rw [← closes_exchange_iff, Bool.not_eq_true', Bool.and_eq_false_iff, beq_eq_false_iff_ne]

theorem deliversResult_iff {x : String} :
    deliversResult x m = true ↔
      isUser m = true ∧ messageIsOnlyToolResults m = true ∧ x ∈ toolResultIds m := by
  unfold deliversResult isToolResultDelivery isUser
  rw [Bool.and_eq_true, Bool.and_eq_true, List.contains_iff_mem, and_assoc]

theorem find?_delivery (messages : List Message) (splitAt n : ℕ) (x : String)
    (hn : messages.length ≤ splitAt + n) :
    (∃ i m, (List.range' splitAt n).find? (fun i => (messages[i]?).any (deliversResult x)) =
        some i ∧ messages[i]? = some m ∧ splitAt ≤ i ∧ deliversResult x m = true) ∨
      tailHasMatchingResult messages splitAt x = false := by
  cases hf : (List.range' splitAt n).find? fun i => (messages[i]?).any (deliversResult x) with
  | some i =>
    obtain ⟨hp, hmem, -⟩ := List.find?_range'_eq_some.mp hf
    obtain ⟨m, hm, hd⟩ := Option.any_eq_true _ _ |>.mp hp
    exact .inl ⟨i, m, rfl, hm, (List.mem_range'_1.mp hmem).1, hd⟩
  | none =>
    refine .inr (List.any_eq_false.mpr fun m hm hd => ?_)
    obtain ⟨k, hk⟩ := List.mem_iff_getElem?.mp hm
    rw [List.getElem?_drop] at hk
    have hlt := (List.getElem?_eq_some_iff.mp hk).1
    refine List.find?_eq_none.mp hf (splitAt + k) (List.mem_range'_1.mpr (by omega)) ?_
    rw [hk]
    exact hd

theorem getLast?_take_of_le {α : Type*} {l : List α} {n : ℕ} (hzero : n ≠ 0) (hn : n ≤ l.length) :
    (l.take n).getLast? = l[n - 1]? := by
  rw [List.getLast?_take, if_neg hzero, List.getElem?_eq_getElem (by omega), Option.some_or]

section Adjust

variable {messages : List Message} {splitAt keepRecent : ℕ} (hle : splitAt ≤ messages.length)

include hle

theorem adjustSplit_of_idsNeeded (h : ∀ m ∈ (messages.take splitAt).getLast?, idsNeeded m = []) :
    adjustSplitForToolPair messages splitAt keepRecent = splitAt := by
  unfold adjustSplitForToolPair
  by_cases hzero : splitAt = 0
  · rw [if_pos hzero]
  rw [if_neg hzero]
  rw [getLast?_take_of_le hzero hle] at h
  cases hm : messages[splitAt - 1]? with
  | none => rfl
  | some m =>
    simp only
    rw [if_pos (idsNeeded_eq_nil_iff.mp (h m hm))]

theorem adjustSplit_of_call (hm : (messages.take splitAt).getLast? = some m)
    (hcall : idsNeeded m ≠ []) (hlen : messages.length ≤ splitAt + keepRecent) :
    ∃ x ∈ idsNeeded m,
      (∃ i u, adjustSplitForToolPair messages splitAt keepRecent = i + 1 ∧
        messages[i]? = some u ∧ splitAt ≤ i ∧ deliversResult x u = true) ∨
      adjustSplitForToolPair messages splitAt keepRecent = splitAt ∧
        tailHasMatchingResult messages splitAt x = false := by
  have hzero : splitAt ≠ 0 := by
    rintro rfl
    cases hm
  rw [getLast?_take_of_le hzero hle] at hm
  obtain ⟨x, hx⟩ : ∃ x, (toolUseIds m).head? = some x := by
    obtain ⟨y, hy⟩ := List.exists_mem_of_ne_nil _ hcall
    exact ⟨_, List.head?_eq_some_head (List.ne_nil_of_mem (mem_idsNeeded.mp hy).2)⟩
  have hneeded : x ∈ idsNeeded m := by
    obtain ⟨y, hy⟩ := List.exists_mem_of_ne_nil _ hcall
    exact mem_idsNeeded.mpr ⟨(mem_idsNeeded.mp hy).1, List.mem_of_head? hx⟩
  have hadjust : adjustSplitForToolPair messages splitAt keepRecent =
      if tailHasMatchingResult messages splitAt x = false then splitAt
      else ((List.range' splitAt keepRecent).find? fun i =>
        (messages[i]?).any (deliversResult x)).elim splitAt (· + 1) := by
    unfold adjustSplitForToolPair extractFirstToolUseId
    rw [if_neg hzero, hm]
    simp only
    rw [if_neg (idsNeeded_eq_nil_iff.not.mp hcall), hx]
    simp only
    refine if_congr Iff.rfl rfl ?_
    cases (List.range' splitAt keepRecent).find? fun i => (messages[i]?).any (deliversResult x) with
    | none => rfl
    | some i => rfl
  refine ⟨x, hneeded, ?_⟩
  by_cases htail : tailHasMatchingResult messages splitAt x = false
  · exact .inr ⟨hadjust.trans (if_pos htail), htail⟩
  · obtain ⟨i, u, hf, hu, hi, hd⟩ :=
      (find?_delivery messages splitAt keepRecent x hlen).resolve_right htail
    refine .inl ⟨i, u, ?_, hu, hi, hd⟩
    rw [hadjust, if_neg htail, hf]
    rfl

end Adjust

/-! ## Clean splits -/

theorem openTurn_of_isUser {a : List Message} {u : Message} (hu : isUser u = true) :
    openTurn (a ++ [u]) = [] := by
  unfold openTurn
  rw [List.reverse_append, List.reverse_singleton, List.singleton_append,
    List.takeWhile_cons_of_neg]
  rw [hu]
  exact Bool.false_ne_true

theorem mem_openTurn_of_getLast? (hm : head.getLast? = some m)
    (hcall : idsNeeded m ≠ []) : m ∈ openTurn head := by
  obtain ⟨a, rfl⟩ := List.getLast?_eq_some_iff.mp hm
  obtain ⟨x, hx⟩ := List.exists_mem_of_ne_nil _ hcall
  exact mem_openTurn_iff.mpr ⟨a, [], rfl, not_isUser_of_idsNeeded hx, by simp⟩

theorem apart_adjustSplit_iff (h : ToolAdjacency ms) {splitAt keepRecent : ℕ}
    (hle : splitAt ≤ ms.length) (hlen : ms.length ≤ splitAt + keepRecent) :
    Apart (ms.take (adjustSplitForToolPair ms splitAt keepRecent))
        (ms.drop (adjustSplitForToolPair ms splitAt keepRecent)) ↔
      (∀ m ∈ openTurn (ms.take splitAt), idsNeeded m = []) ∨
        (∃ m ∈ (ms.take splitAt).getLast?, idsNeeded m ≠ []) ∧
          ∃ u ∈ (ms.drop splitAt).find? isUser, messageIsOnlyToolResults u = true := by
  have happend : ∀ n, ToolAdjacency (ms.take n ++ ms.drop n) := fun n => by
    rwa [List.take_append_drop]
  by_cases hcall : ∃ m ∈ (ms.take splitAt).getLast?, idsNeeded m ≠ []
  · obtain ⟨m, hm, hne⟩ := hcall
    obtain ⟨x, hx, hcase⟩ := adjustSplit_of_call hle hm hne hlen
    have hopen : ¬ ∀ m ∈ openTurn (ms.take splitAt), idsNeeded m = [] := fun hall =>
      hne (hall m (mem_openTurn_of_getLast? hm hne))
    obtain ⟨a, ha⟩ := List.getLast?_eq_some_iff.mp hm
    obtain ⟨u, hu, hxu⟩ : ∃ u, (ms.drop splitAt).find? isUser = some u ∧ x ∈ toolResultIds u := by
      have hap := happend splitAt
      rw [ha, List.append_assoc, List.singleton_append] at hap
      exact mem_nextResults.mp (hap.answered_append hx)
    have hmem := List.mem_of_find?_eq_some hu
    rcases hcase with ⟨i, v, hadjust, hv, hi, hd⟩ | ⟨hadjust, hnone⟩
    · obtain ⟨huser, honly, hxv⟩ := deliversResult_iff.mp hd
      have huv : u = v := eq_of_mem_flatMap h.results (List.mem_of_mem_drop hmem)
        (List.mem_of_getElem? hv) hxu hxv
      rw [hadjust, apart_iff (happend _), List.take_add_one, hv]
      simp only [Option.toList_some]
      rw [openTurn_of_isUser huser]
      refine iff_of_true (by simp) (.inr ⟨⟨m, hm, hne⟩, u, hu, ?_⟩)
      rw [huv]
      exact honly
    · rw [hadjust, apart_iff (happend _)]
      refine iff_of_false hopen (not_or.mpr ⟨hopen, ?_⟩)
      rintro ⟨-, w, hw, honly⟩
      obtain rfl := Option.some.inj (hu.symm.trans hw)
      refine List.any_eq_false.mp hnone u hmem ?_
      exact deliversResult_iff.mpr ⟨List.find?_some hu, honly, hxu⟩
  · have hnil : ∀ m ∈ (ms.take splitAt).getLast?, idsNeeded m = [] := fun m hm => by
      by_contra hne
      exact hcall ⟨m, hm, hne⟩
    rw [adjustSplit_of_idsNeeded hle hnil, apart_iff (happend _), or_iff_left]
    exact fun hboth => hcall hboth.1

/-- **What is handed to the summarizer and what is kept make up the history, and no call is parted
from its result exactly when the split meets the condition.** -/
theorem compactSession_clean_iff (driver : Summarizer) (h : ToolAdjacency ms) (keepRecent : ℕ) :
    ((compactionSplit ms keepRecent).1 ++ (compactSession driver ms keepRecent).keptMessages = ms ∧
      Apart (compactionSplit ms keepRecent).1
        (compactSession driver ms keepRecent).keptMessages) ↔
    SplitsCleanly ms keepRecent := by
  rw [keptMessages_compactSession, and_iff_right (compactionSplit_append ms keepRecent)]
  unfold compactionSplit SplitsCleanly splitPoint
  by_cases hlen : ms.length ≤ keepRecent
  · rw [if_pos hlen, Nat.sub_eq_zero_of_le hlen, List.take_zero]
    refine iff_of_true ?_ (.inl fun m hm => by cases hm)
    intro x hx
    cases hx
  · rw [if_neg hlen]
    exact apart_adjustSplit_iff h (Nat.sub_le _ _) (by omega)

/-! ## Splits of two histories -/

/-- A question, a call, its answer together with `rest`, and a reply. -/
def answeredCall (rest : List ContentBlock) : List Message :=
  [⟨.user, .text "q", false, none⟩,
    ⟨.assistant, .blocks [.toolUse "call_1" "read" ⟨"\x7b\x7d"⟩ none], false, none⟩,
    ⟨.user, .blocks (rest ++ [.toolResult "call_1" "read" "ok" false .completed none]), false, none⟩,
    ⟨.assistant, .text "a", false, none⟩]

/-- A summarizer that never answers. -/
def silent : Summarizer := ⟨fun _ => .error "", fun _ => .error "", fun _ => 0⟩

theorem toolAdjacency_answeredCall : ToolAdjacency (answeredCall []) where
  answered := by decide +kernel
  preceded := by decide +kernel
  uses := by decide +kernel
  results := by decide +kernel

theorem compactSession_clean_answeredCall :
    ((compactionSplit (answeredCall []) 2).1 ++
        (compactSession silent (answeredCall []) 2).keptMessages = answeredCall [] ∧
      Apart (compactionSplit (answeredCall []) 2).1
        (compactSession silent (answeredCall []) 2).keptMessages) ↔
    SplitsCleanly (answeredCall []) 2 :=
  compactSession_clean_iff silent toolAdjacency_answeredCall 2

/-- The answer also says something in words: the call is summarized and its result kept. -/
theorem mixedAnswer_not_apart :
    ¬ ∀ (driver : Summarizer) (ms : List Message) (keepRecent : ℕ), ToolAdjacency ms →
      (compactionSplit ms keepRecent).1 ++ (compactSession driver ms keepRecent).keptMessages = ms ∧
        Apart (compactionSplit ms keepRecent).1
          (compactSession driver ms keepRecent).keptMessages := by
  intro hall
  have hadjacent : ToolAdjacency (answeredCall [.text "and then?" none]) :=
    ⟨by decide +kernel, by decide +kernel, by decide +kernel, by decide +kernel⟩
  refine (hall silent _ 2 hadjacent).2 "call_1" ?_ ?_
  · decide +kernel
  · decide +kernel

end LibreFang.Session
