import LibreFang.Session.Dedup

/-!
# The pairing contract of the repaired history

The passes after deduplication, and the contract of the whole repair.

* **`validateAndRepair_answers`**: every call of the output is answered by the next message.
-/

namespace LibreFang.Session

variable {ms : List Message}

/-! ## Phase 2e -/

theorem not_isEmptyOrBlank {m : Message} {x : String} (h : x ∈ toolUseIds m) :
    isEmptyOrBlankContent m.content = false := by
  obtain ⟨b, hb, hbx⟩ := mem_toolUseIds.mp h
  obtain ⟨role, content, pinned, timestamp⟩ := m
  cases content with
  | text s => simp [Message.blocks] at hb
  | blocks bs =>
    have hb : b ∈ bs := hb
    simp only [isEmptyOrBlankContent, Bool.or_eq_false_iff, List.isEmpty_eq_false_iff,
      List.all_eq_false]
    refine ⟨List.ne_nil_of_mem hb, b, hb, ?_⟩
    cases b <;> simp_all [ContentBlock.useId?]

/-- **Phase 2e keeps the pairs.** -/
theorem paired_removeAborted (h : Paired ms) : Paired (removeAbortedAssistantMessages ms) := by
  refine paired_filter _ h (fun m _ hne => ?_) (fun m _ hrole _ => ?_)
  · obtain ⟨x, hx⟩ := List.exists_mem_of_ne_nil _ hne
    simp [not_isEmptyOrBlank (mem_idsNeeded.mp hx).2]
  · simp [hrole]

/-! ## Phase 3 -/

theorem toolUseIds_of_no_toolUse {m : Message} (h : messageHasToolUse m = false) :
    toolUseIds m = [] := by
  refine List.filterMap_eq_nil_iff.mpr fun b hb => ?_
  simpa using List.any_eq_false.mp h b hb

theorem mergeable_toolUse {last m : Message} (h : mergeable last m = true) :
    toolUseIds last = [] ∧ toolUseIds m = [] := by
  simp only [mergeable, Bool.and_eq_true, Bool.not_eq_true'] at h
  exact ⟨toolUseIds_of_no_toolUse h.1.1.1.2, toolUseIds_of_no_toolUse h.1.2⟩

theorem rewrite_mergeContent {last m : Message} (h : mergeable last m = true) :
    Rewrite last (mergeContent last m) := by
  refine rewrite_extend last ?_
  rw [filterMap_contentToBlocks _ _ fun _ _ => rfl]
  exact (mergeable_toolUse h).2

/-- **Phase 3 keeps the pairs**, and its first message is a rewriting of the first. -/
theorem paired_mergeLoop (last : Message) (h : Paired (last :: ms)) :
    Paired (mergeLoop last ms).1 ∧ ∃ m, (mergeLoop last ms).1.head? = some m ∧ Rewrite last m := by
  induction ms generalizing last with
  | nil => exact ⟨h, last, rfl, Rewrite.refl last⟩
  | cons m ms ih =>
    obtain ⟨hlast, hrest⟩ := paired_cons.mp h
    simp only [mergeLoop]
    split_ifs with hm
    · have hr := rewrite_mergeContent hm
      have hnil : idsNeeded (mergeContent last m) = [] := by
        rw [hr.idsNeeded, idsNeeded, (mergeable_toolUse hm).1, ite_self]
      obtain ⟨hp, n, hn, hnr⟩ := ih (mergeContent last m)
        (paired_cons.mpr ⟨by simp [hnil], (paired_cons.mp hrest).2⟩)
      exact ⟨hp, n, hn, hr.trans hnr⟩
    · obtain ⟨hp, n, hn, hnr⟩ := ih m hrest
      refine ⟨paired_cons.mpr ⟨fun x hx => ?_, hp⟩, last, rfl, Rewrite.refl last⟩
      obtain ⟨n', hn', hrole, hxn⟩ := mem_adjacentResults.mp (hlast x hx)
      obtain rfl : m = n' := by simpa using hn'
      exact mem_adjacentResults.mpr ⟨n, hn, hnr.role.trans hrole, hnr.results hxn⟩

theorem paired_mergeConsecutive (h : Paired ms) : Paired (mergeConsecutive ms).1 := by
  cases ms with
  | nil => exact paired_nil
  | cons m ms => exact (paired_mergeLoop m h).1

/-! ## Coalescing -/

section Coalesce

variable {β : Type} {g : ContentBlock → Option β} (hg : ∀ s pm, g (.text s pm) = none)

include hg in
theorem filterMap_coalesceLoop (out bs : List ContentBlock) :
    (coalesceLoop out bs).filterMap g = out.reverse.filterMap g ++ bs.filterMap g := by
  fun_induction coalesceLoop out bs with
  | case1 out => simp
  | case2 existing pm out t pm' bs ih => rw [ih]; simp [hg]
  | case3 out b bs _ ih =>
    rw [ih, List.reverse_cons, List.filterMap_append, List.append_assoc, ← List.filterMap_append]
    rfl

include hg in
theorem filterMap_coalesce (bs : List ContentBlock) :
    (coalesceAdjacentTextBlocks bs).filterMap g = bs.filterMap g := by
  unfold coalesceAdjacentTextBlocks
  split_ifs
  · rfl
  · rw [filterMap_coalesceLoop hg]
    simp

end Coalesce

theorem rewrite_coalesce (m : Message) : Rewrite m (m.mapBlocks coalesceAdjacentTextBlocks) where
  role := mapBlocks_role _ _
  uses := by
    unfold toolUseIds
    rw [mapBlocks_blocks _ _ rfl, filterMap_coalesce fun _ _ => rfl]
  results := by
    unfold toolResultIds
    rw [mapBlocks_blocks _ _ rfl, filterMap_coalesce fun _ _ => rfl]
    exact List.Subset.refl _

theorem paired_coalesce (h : Paired ms) :
    Paired (ms.map (Message.mapBlocks coalesceAdjacentTextBlocks)) := by
  refine paired_of_forall₂ ?_ h
  rw [List.forall₂_map_right_iff]
  exact List.forall₂_same.mpr fun m _ => rewrite_coalesce m

/-! ## The whole repair -/

theorem validateAndRepair_eq (ms : List Message) :
    validateAndRepair ms =
      (mergeConsecutive (removeAbortedAssistantMessages (deduplicateToolResults
        (insertSyntheticResults (reorderToolResults (enforceAdjacentToolResultPairs
          (rescueMisplacedToolResults (dropOrphans (collectToolUseIds ms) ms).1).1).1).1).1).1)).1.map
        (Message.mapBlocks coalesceAdjacentTextBlocks) := by
  unfold validateAndRepair validateAndRepairWithStats
  with_reducible rfl

theorem paired_validateAndRepair (h : WellPlaced ms) : Paired (validateAndRepair ms) := by
  rw [validateAndRepair_eq]
  have hrescue := resultsInUser_rescue (wellPlaced_dropOrphans (collectToolUseIds ms) h)
  generalize (rescueMisplacedToolResults (dropOrphans (collectToolUseIds ms) ms).1).1 = rescued at *
  have hpaired := paired_enforce rescued
  have huser := resultsInUser_enforce hrescue
  generalize (enforceAdjacentToolResultPairs rescued).1 = paired at *
  have hreorder := paired_reorder hpaired
  rw [insertSynthetic_of_paired hreorder]
  have hdedup := paired_deduplicate hreorder (follows_reorder hpaired huser)
  exact paired_coalesce (paired_mergeConsecutive (paired_removeAborted hdedup))

/-- **The pairing contract**: every call of an assistant message of the output is answered by
the message after it, which is a user message. -/
theorem validateAndRepair_answers (h : WellPlaced ms) (i : ℕ) (m : Message)
    (hi : (validateAndRepair ms)[i]? = some m) (hm : m.role = .assistant) (x : String)
    (hx : x ∈ toolUseIds m) :
    ∃ n : Message, (validateAndRepair ms)[i + 1]? = some n ∧ n.role = .user ∧
      x ∈ toolResultIds n :=
  mem_adjacentResults.mp (paired_validateAndRepair h i m hi x (mem_idsNeeded.mpr ⟨hm, hx⟩))

/-- A turn whose call was never answered. -/
def interruptedTurn : Message :=
  ⟨.assistant, .blocks [.toolUse "call_1" "read" ⟨"{}"⟩ none], false, none⟩

theorem interruptedTurn_answered :
    ∃ n : Message, (validateAndRepair [interruptedTurn])[1]? = some n ∧ n.role = .user ∧
      "call_1" ∈ toolResultIds n :=
  validateAndRepair_answers (by decide) 0 interruptedTurn (by decide) rfl "call_1" (by decide)

end LibreFang.Session
