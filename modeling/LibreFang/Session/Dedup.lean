import LibreFang.Session.Reorder

/-!
# Answering and deduplicating

On paired calls phase 2c has nothing to do, and phase 2d drops no result a call needs.

* `mem_dedupBlocks`: which results one `retain` keeps; `getElem?_dedupMessages` runs it over the
  history.
* **`paired_deduplicate`**: phase 2d keeps the pairs.
-/

namespace LibreFang.Session

variable {ms : List Message}

/-! ## Phase 2c -/

theorem orphanedUses_of_paired (h : Paired ms) {m : Message} (hm : m ∈ ms) :
    orphanedUses ((ms.filter fun m => m.role = .user).flatMap toolResultIds) m = [] := by
  refine List.filter_eq_nil_iff.mpr fun x hx => ?_
  obtain ⟨i, hi⟩ := List.mem_iff_getElem?.mp hm
  obtain ⟨n, hn, hrole, hxn⟩ := mem_adjacentResults.mp (h i m hi x hx)
  have hmem : n ∈ ms.filter fun m => m.role = .user :=
    List.mem_filter.mpr ⟨List.mem_of_getElem? hn, decide_eq_true hrole⟩
  simp only [decide_eq_true_eq, not_not]
  exact List.mem_flatMap.mpr ⟨n, hmem, hxn⟩

/-- **On paired calls phase 2c inserts nothing.** -/
theorem insertSynthetic_of_paired (h : Paired ms) : (insertSyntheticResults ms).1 = ms := by
  unfold insertSyntheticResults
  simp only
  rw [if_pos]
  refine List.isEmpty_iff.mpr (List.filterMap_eq_nil_iff.mpr fun p hp => ?_)
  have hm : p.1 ∈ ms := List.mem_of_getElem? (List.mem_zipIdx_iff_getElem?.mp hp)
  simp only [orphanedUses_of_paired h hm, List.isEmpty_nil, if_true]

/-! ## Phase 2d -/

section KeptStatus

variable {id : String} {rs : List (String × ToolExecutionStatus)} {s : ToolExecutionStatus}

theorem mem_of_keptStatus (h : keptStatus id rs = some s) : (id, s) ∈ rs := by
  induction rs using List.reverseRecOn generalizing s with
  | nil => cases h
  | append_singleton rs r ih =>
    simp only [keptStatus, List.foldl_append, List.foldl_cons, List.foldl_nil] at h ih ⊢
    rw [List.mem_append, List.mem_singleton]
    split_ifs at h with hr
    · subst hr
      split at h
      · exact Or.inr (by rw [← Option.some.inj h])
      · rename_i k hk
        split_ifs at h
        · exact Or.inr (by rw [← Option.some.inj h])
        · exact Or.inl (ih (by rw [hk, h]))
    · exact Or.inl (ih h)

theorem keptStatus_isSome (h : (id, s) ∈ rs) : ∃ k, keptStatus id rs = some k := by
  induction rs using List.reverseRecOn with
  | nil => simp at h
  | append_singleton rs r ih =>
    simp only [keptStatus, List.foldl_append, List.foldl_cons, List.foldl_nil] at ih ⊢
    rcases List.mem_append.mp h with h | h
    · obtain ⟨k, hk⟩ := ih h
      simp only [hk]
      split_ifs
      · exact ⟨_, rfl⟩
      · exact ⟨_, rfl⟩
      · exact ⟨_, rfl⟩
    · obtain rfl := List.mem_singleton.mp h
      rw [if_pos rfl]
      split
      · exact ⟨_, rfl⟩
      · split_ifs
        · exact ⟨_, rfl⟩
        · exact ⟨_, rfl⟩

end KeptStatus

variable {x : String}

theorem result?_eq_some {b : ContentBlock} :
    b.resultId? = some x ↔ ∃ s, b.result? = some (x, s) := by
  cases b <;> simp [ContentBlock.resultId?, ContentBlock.result?]

theorem resultId?_of_result? {b : ContentBlock}
    (h : b.result? = some (x, s)) : b.resultId? = some x := result?_eq_some.mpr ⟨s, h⟩

section DedupBlocks

variable (collision : String → Bool) (kept : String → Option ToolExecutionStatus)

theorem dedupBlocks_uses (seen : List String) (bs : List ContentBlock) :
    (dedupBlocks collision kept seen bs).1.filterMap ContentBlock.useId? =
      bs.filterMap ContentBlock.useId? := by
  induction bs generalizing seen with
  | nil => rfl
  | cons b bs ih =>
    simp only [dedupBlocks]
    cases hb : b.result? with
    | none => simp only [List.filterMap_cons, ih]
    | some r =>
      have hu : b.useId? = none := useId?_of_resultId? (resultId?_of_result? hb)
      simp only
      split_ifs <;> simp only [List.filterMap_cons, hu, ih]

theorem mem_seen_dedupBlocks {seen : List String} {bs : List ContentBlock}
    (h : x ∈ (dedupBlocks collision kept seen bs).2) :
    x ∈ seen ∨ x ∈ bs.filterMap ContentBlock.resultId? := by
  induction bs generalizing seen with
  | nil => exact Or.inl h
  | cons b bs ih =>
    have hlater : x ∈ bs.filterMap ContentBlock.resultId? →
        x ∈ (b :: bs).filterMap ContentBlock.resultId? := fun hx => by
      obtain ⟨c, hc, hcx⟩ := List.mem_filterMap.mp hx
      exact List.mem_filterMap.mpr ⟨c, List.mem_cons_of_mem _ hc, hcx⟩
    simp only [dedupBlocks] at h
    cases hb : b.result? with
    | none =>
      rw [hb] at h
      exact (ih h).imp_right hlater
    | some r =>
      rw [hb] at h
      simp only at h
      split_ifs at h
      · exact (ih h).imp_right hlater
      · exact (ih h).imp_right hlater
      · rcases ih h with h | h
        · rcases List.mem_cons.mp h with h | h
          · refine Or.inr (List.mem_filterMap.mpr ⟨b, List.mem_cons_self, ?_⟩)
            rw [h]
            exact resultId?_of_result? hb
          · exact Or.inl h
        · exact Or.inr (hlater h)

/-- **A result stays** for an id with several calls, and for an id not seen before whose kept
status occurs among the blocks. -/
theorem mem_dedupBlocks {seen : List String} {bs : List ContentBlock}
    (hx : collision x = true ∧ x ∈ bs.filterMap ContentBlock.resultId? ∨
      x ∉ seen ∧ ∃ b ∈ bs, ∃ s, b.result? = some (x, s) ∧ kept x = some s) :
    x ∈ (dedupBlocks collision kept seen bs).1.filterMap ContentBlock.resultId? := by
  induction bs generalizing seen with
  | nil => simp at hx
  | cons b bs ih =>
    have hkeep : ∀ l : List ContentBlock, b.resultId? = some x ∨ x ∈ l.filterMap ContentBlock.resultId? →
        x ∈ (b :: l).filterMap ContentBlock.resultId? := by
      rintro l (h | h)
      · exact List.mem_filterMap.mpr ⟨b, List.mem_cons_self, h⟩
      · obtain ⟨c, hc, hcx⟩ := List.mem_filterMap.mp h
        exact List.mem_filterMap.mpr ⟨c, List.mem_cons_of_mem _ hc, hcx⟩
    simp only [dedupBlocks]
    cases hb : b.result? with
    | none =>
      have hb' : b.resultId? = none := by
        by_contra hne
        obtain ⟨y, hy⟩ := Option.ne_none_iff_exists'.mp hne
        obtain ⟨s, hs⟩ := result?_eq_some.mp hy
        rw [hb] at hs
        cases hs
      refine hkeep _ (Or.inr (ih ?_))
      rcases hx with ⟨hc, hx⟩ | ⟨hs, c, hc, s, hcs, hk⟩
      · rw [List.filterMap_cons_none hb'] at hx
        exact Or.inl ⟨hc, hx⟩
      · rcases List.mem_cons.mp hc with rfl | hc
        · rw [hb] at hcs
          cases hcs
        · exact Or.inr ⟨hs, c, hc, s, hcs, hk⟩
    | some r =>
      obtain ⟨y, status⟩ := r
      have hby := resultId?_of_result? hb
      simp only
      by_cases hxy : x = y
      · subst hxy
        split_ifs with hcol hdrop
        · exact hkeep _ (Or.inl hby)
        · -- dropped: the block that carries the kept status comes later
          rcases hx with ⟨hc, -⟩ | ⟨hs, c, hc, s, hcs, hk⟩
          · exact absurd hc hcol
          · refine ih (Or.inr ⟨hs, ?_⟩)
            rcases List.mem_cons.mp hc with rfl | hc
            · obtain rfl : status = s := by simpa [hb] using hcs
              rcases hdrop with hdrop | hdrop
              · exact absurd hdrop hs
              · exact absurd (by rw [hk]; rfl) hdrop
            · exact ⟨c, hc, s, hcs, hk⟩
        · exact hkeep _ (Or.inl hby)
      · have hrest : ∀ seen', (x ∉ seen → x ∉ seen') →
            x ∈ (dedupBlocks collision kept seen' bs).1.filterMap ContentBlock.resultId? := by
          intro seen' hseen
          refine ih (hx.imp ?_ ?_)
          · rintro ⟨hc, hx⟩
            rw [List.filterMap_cons_some hby] at hx
            exact ⟨hc, (List.mem_cons.mp hx).resolve_left hxy⟩
          · rintro ⟨hs, c, hc, s, hcs, hk⟩
            refine ⟨hseen hs, c, ?_, s, hcs, hk⟩
            rcases List.mem_cons.mp hc with rfl | hc
            · rw [hb] at hcs
              exact absurd (by simpa using congrArg (Option.map Prod.fst) hcs) (Ne.symm hxy)
            · exact hc
        split_ifs
        · exact hkeep _ (Or.inr (hrest _ id))
        · exact hrest _ id
        · exact hkeep _ (Or.inr (hrest _ fun hs h => (List.mem_cons.mp h).elim hxy hs))

end DedupBlocks

section DedupMessages

variable (collision : String → Bool) (kept : String → Option ToolExecutionStatus)

/-- A message after its `retain`, with the ids seen before it. -/
def dedupedMessage (seen : List String) (m : Message) : Message :=
  m.mapBlocks fun _ => (dedupBlocks collision kept seen m.blocks).1

variable {collision kept}

theorem dedupedMessage_blocks (seen : List String) (m : Message) :
    (dedupedMessage collision kept seen m).blocks =
      (dedupBlocks collision kept seen m.blocks).1 := by
  obtain ⟨role, content, pinned, timestamp⟩ := m
  cases content with
  | text s => simp [dedupedMessage, Message.mapBlocks, Message.blocks, dedupBlocks]
  | blocks bs => rfl

@[simp] theorem idsNeeded_dedupedMessage (seen : List String) (m : Message) :
    idsNeeded (dedupedMessage collision kept seen m) = idsNeeded m := by
  refine idsNeeded_congr (mapBlocks_role _ _) ?_
  unfold toolUseIds
  rw [dedupedMessage_blocks, dedupBlocks_uses]

variable (collision kept)

/-- **The messages in order**: the ids seen before a message come from the messages before it. -/
theorem getElem?_dedupMessages (ms : List Message) (seen : List String) (i : ℕ) :
    ∃ s, (dedupMessages collision kept seen ms)[i]? =
        ms[i]?.map (dedupedMessage collision kept s) ∧
      ∀ x ∈ s, x ∈ seen ∨ ∃ (j : ℕ) (n : Message), j < i ∧ ms[j]? = some n ∧ x ∈ toolResultIds n := by
  induction ms generalizing seen i with
  | nil => exact ⟨seen, rfl, fun x hx => Or.inl hx⟩
  | cons m ms ih =>
    cases i with
    | zero => exact ⟨seen, rfl, fun x hx => Or.inl hx⟩
    | succ i =>
      obtain ⟨s, hs, hseen⟩ := ih (dedupBlocks collision kept seen m.blocks).2 i
      refine ⟨s, by simpa [dedupMessages] using hs, fun x hx => ?_⟩
      rcases hseen x hx with h | ⟨j, n, hj, hn, hxn⟩
      · rcases mem_seen_dedupBlocks collision kept h with h | h
        · exact Or.inl h
        · exact Or.inr ⟨0, m, Nat.succ_pos i, rfl, h⟩
      · exact Or.inr ⟨j + 1, n, by omega, by simpa using hn, hxn⟩

end DedupMessages

/-- The test of phase 2d: the id belongs to several calls. -/
def isCollision (ms : List Message) (x : String) : Bool := decide (1 < toolUseTurnCount ms x)

/-- The results of the history, in order. -/
def results (ms : List Message) : List (String × ToolExecutionStatus) :=
  ms.flatMap fun m => m.blocks.filterMap ContentBlock.result?

/-- The statuses phase 2d keeps. -/
def keptStatuses (ms : List Message) (x : String) : Option ToolExecutionStatus :=
  keptStatus x ((results ms).filter fun r => !isCollision ms r.1)

theorem deduplicate_eq (ms : List Message) :
    (deduplicateToolResults ms).1 =
      (dedupMessages (isCollision ms) (keptStatuses ms) [] ms).filter Message.nonEmpty := rfl

theorem calledOnce_of_not_collision (h : isCollision ms x = false)
    (hx : x ∈ calls ms) : CalledOnce ms x := by
  have hle : ¬1 < (calls ms).count x := of_decide_eq_false h
  have hpos : 0 < (calls ms).count x := List.count_pos_iff.mpr hx
  unfold CalledOnce
  omega

theorem index_of_result (h : Follows (CalledOnce ms) ms) (hc : CalledOnce ms x)
    {i j : ℕ} {m n : Message} (hi : ms[i]? = some m) (hx : x ∈ idsNeeded m)
    (hj : ms[j]? = some n) (hn : x ∈ toolResultIds n) : j = i + 1 := by
  obtain ⟨k, p, rfl, hp, hxp⟩ := h j n hj x hn hc
  rw [index_unique hc.le hp hxp hi hx]

theorem exists_keptStatus (h : isCollision ms x = false) {m : Message} (hm : m ∈ ms)
    (hx : x ∈ toolResultIds m) : ∃ s, keptStatuses ms x = some s := by
  obtain ⟨b, hb, hbx⟩ := mem_toolResultIds.mp hx
  obtain ⟨s, hs⟩ := result?_eq_some.mp hbx
  refine keptStatus_isSome (s := s) (List.mem_filter.mpr ⟨?_, by simp [h]⟩)
  exact List.mem_flatMap.mpr ⟨m, hm, List.mem_filterMap.mpr ⟨b, hb, hs⟩⟩

theorem exists_block_of_keptStatus
    (h : keptStatuses ms x = some s) :
    ∃ (i : ℕ) (m : Message), ms[i]? = some m ∧ ∃ b ∈ m.blocks, b.result? = some (x, s) := by
  obtain ⟨m, hm, hb⟩ := List.mem_flatMap.mp (List.mem_of_mem_filter (mem_of_keptStatus h))
  obtain ⟨i, hi⟩ := List.mem_iff_getElem?.mp hm
  exact ⟨i, m, hi, List.mem_filterMap.mp hb⟩

theorem paired_dedupMessages (h : Paired ms) (hf : Follows (CalledOnce ms) ms) :
    Paired (dedupMessages (isCollision ms) (keptStatuses ms) [] ms) := by
  intro i m' hi x hx
  obtain ⟨s, hs, -⟩ := getElem?_dedupMessages (isCollision ms) (keptStatuses ms) ms [] i
  rw [hs, Option.map_eq_some_iff] at hi
  obtain ⟨m, hm, rfl⟩ := hi
  rw [idsNeeded_dedupedMessage] at hx
  obtain ⟨n, hn, hrole, hxn⟩ := mem_adjacentResults.mp (h i m hm x hx)
  obtain ⟨t, ht, hseen⟩ :=
    getElem?_dedupMessages (isCollision ms) (keptStatuses ms) ms [] (i + 1)
  rw [ht, hn, Option.map_some]
  refine mem_adjacentResults.mpr ⟨_, rfl, (mapBlocks_role _ _).trans hrole, ?_⟩
  unfold toolResultIds
  rw [dedupedMessage_blocks]
  refine mem_dedupBlocks _ _ ?_
  cases hcol : isCollision ms x with
  | true => exact Or.inl ⟨rfl, hxn⟩
  | false =>
    have hc : CalledOnce ms x := calledOnce_of_not_collision hcol (mem_calls_of_getElem? hm hx)
    refine Or.inr ⟨fun hxt => ?_, ?_⟩
    · rcases hseen x hxt with h | ⟨j, p, hj, hp, hxp⟩
      · simp at h
      · have := index_of_result hf hc hm hx hp hxp
        omega
    · obtain ⟨st, hst⟩ := exists_keptStatus hcol (List.mem_of_getElem? hn) hxn
      obtain ⟨j, p, hp, b, hb, hbx⟩ := exists_block_of_keptStatus hst
      have hxp : x ∈ toolResultIds p := mem_toolResultIds.mpr ⟨b, hb, resultId?_of_result? hbx⟩
      obtain rfl : j = i + 1 := index_of_result hf hc hm hx hp hxp
      obtain rfl : n = p := by simpa [hn] using hp
      exact ⟨b, hb, st, hbx, hst⟩

/-- **Phase 2d keeps the pairs.** -/
theorem paired_deduplicate (h : Paired ms) (hf : Follows (CalledOnce ms) ms) :
    Paired (deduplicateToolResults ms).1 := by
  rw [deduplicate_eq]
  exact paired_filter _ (paired_dedupMessages h hf)
    (fun _ _ hne => let ⟨_, hx⟩ := List.exists_mem_of_ne_nil _ hne; nonEmpty_of_idsNeeded hx)
    (fun _ _ _ hne => let ⟨_, hx⟩ := List.exists_mem_of_ne_nil _ hne; nonEmpty_of_toolResult hx)

end LibreFang.Session
