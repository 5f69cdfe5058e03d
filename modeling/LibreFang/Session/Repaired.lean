import Mathlib.Data.List.Flatten
import LibreFang.Session.Normal

/-!
# A repaired history is normal

What each pass leaves behind, carried through the passes after it.

* `AnswersOnly U`: the results of the history answer ids in `U`.
* `Shrink`: a message that lost some of its results and nothing else.
* **`normal_validateAndRepair`**: the output of the repair is normal.
* **`validateAndRepair_idempotent`**, **`validateAndRepair_no_stray`**: what follows from it.
-/

namespace LibreFang.Session

variable {ms : List Message} {U : String → Prop}

/-! ## The calls of a history -/

/-- The id called by a block under a role. -/
def calledId (rb : Role × ContentBlock) : Option String :=
  if rb.1 = .assistant then rb.2.useId? else none

theorem calls_eq_select (ms : List Message) :
    calls ms = (select significant ms).filterMap calledId := by
  induction ms with
  | nil => rfl
  | cons m ms ih =>
    rw [calls_cons, select_cons, List.filterMap_append, ← ih]
    congr 1
    have hskip : ∀ rb : Role × ContentBlock, significant rb = false → calledId rb = none := by
      rintro ⟨r, b⟩ h
      cases b <;> simp_all [significant, calledId, ContentBlock.useId?]
    have hsel : ((roleBlocks m).filter significant).filterMap calledId =
        (roleBlocks m).filterMap calledId := by
      rw [List.filterMap_filter]
      refine List.filterMap_congr fun rb _ => ?_
      cases h : significant rb with
      | true => rfl
      | false => simp [hskip rb h]
    rw [hsel, roleBlocks, List.filterMap_map]
    unfold idsNeeded
    split_ifs with hrole
    · rw [toolUseIds, ← filterMap_contentToBlocks m _ fun _ _ => rfl]
      exact List.filterMap_congr fun b _ => by simp [calledId, hrole]
    · symm
      exact List.filterMap_eq_nil_iff.mpr fun b _ => by simp [calledId, hrole]

variable {ms' : List Message}

theorem calls_of_select (h : select significant ms' = select significant ms) :
    calls ms' = calls ms := by rw [calls_eq_select, calls_eq_select, h]

theorem isCollision_congr (h : calls ms' = calls ms) : isCollision ms' = isCollision ms := by
  funext x
  show decide (1 < (calls ms').count x) = decide (1 < (calls ms).count x)
  rw [h]

/-! ## What the results answer -/

/-- The results of the history answer ids in `U`. -/
def AnswersOnly (U : String → Prop) (ms : List Message) : Prop :=
  ∀ m ∈ ms, ∀ x ∈ toolResultIds m, U x

theorem answersOnly_filter (h : AnswersOnly U ms) (p : Message → Bool) :
    AnswersOnly U (ms.filter p) := fun m hm => h m (List.mem_of_mem_filter hm)

theorem answersOnly_map {f : Message → Message}
    (hf : ∀ m ∈ ms, toolResultIds (f m) ⊆ toolResultIds m) (h : AnswersOnly U ms) :
    AnswersOnly U (ms.map f) := by
  intro m' hm' x hx
  obtain ⟨m, hm, rfl⟩ := List.mem_map.mp hm'
  exact h m hm x (hf m hm hx)

theorem answersOnly_placeResults (h : AnswersOnly U ms) (pos : ℕ) {bs : List ContentBlock}
    (hb : ∀ x ∈ bs.filterMap ContentBlock.resultId?, U x) : AnswersOnly U (placeResults ms pos bs) := by
  intro n hn x hx
  rcases placeResults_shape ms pos bs with ⟨l₁, m, l₂, rfl, -, -, he⟩ | ⟨l₁, l₂, rfl, he⟩
  · rw [he] at hn
    rcases List.mem_append.mp hn with hn | hn
    · exact h n (List.mem_append_left _ hn) x hx
    · rcases List.mem_cons.mp hn with rfl | hn
      · rw [toolResultIds_extend, List.mem_append] at hx
        exact hx.elim (h m (by simp) x) (hb x)
      · exact h n (by simp [hn]) x hx
  · rw [he] at hn
    rcases List.mem_append.mp hn with hn | hn
    · exact h n (List.mem_append_left _ hn) x hx
    · rcases List.mem_cons.mp hn with rfl | hn
      · exact hb x hx
      · exact h n (List.mem_append_right _ hn) x hx

theorem calls_of_wellPlaced (h : WellPlaced ms) : calls ms = collectToolUseIds ms := by
  unfold calls collectToolUseIds
  refine List.flatMap_congr fun m hm => ?_
  unfold idsNeeded
  split_ifs with hrole
  · rfl
  · symm
    by_contra hne
    exact hrole ((h m hm).1 hne)

theorem answersOnly_dropOrphans (ids : List String) (ms : List Message) :
    AnswersOnly (· ∈ ids) (dropOrphans ids ms).1 := by
  refine answersOnly_filter (fun m' hm' x hx => ?_) _
  obtain ⟨m, -, rfl⟩ := List.mem_map.mp hm'
  obtain ⟨b, hb, hbx⟩ := mem_toolResultIds.mp hx
  rw [filter_blocks] at hb
  have hkeep := (List.mem_filter.mp hb).2
  cases b <;> simp_all [keepBlock, ContentBlock.resultId?]

theorem toolResultIds_stripResults_subset (m : Message) :
    toolResultIds (stripResults m) ⊆ toolResultIds m := by
  unfold stripResults
  split_ifs
  · exact toolResultIds_filter_subset _
  · exact List.Subset.refl _

theorem answersOnly_rescue (h : AnswersOnly U ms) :
    AnswersOnly U (rescueMisplacedToolResults ms).1 := by
  unfold rescueMisplacedToolResults
  simp only
  split_ifs
  · exact h
  · refine answersOnly_filter ?_ _
    have hrescue : ∀ r ∈ toRescue ms, ∀ x ∈ r.2.filterMap ContentBlock.resultId?, U x := by
      intro r hr x hx
      obtain ⟨⟨m, i⟩, hm, hr⟩ := List.mem_filterMap.mp hr
      simp only at hr
      split_ifs at hr
      obtain rfl := Option.some.inj hr
      obtain ⟨b, hb, hbx⟩ := List.mem_filterMap.mp hx
      simp only [misplacedIn] at hb
      split_ifs at hb
      · exact h m (List.mem_of_getElem? (List.mem_zipIdx_iff_getElem?.mp hm)) x
          (mem_toolResultIds.mpr ⟨b, List.mem_of_mem_filter hb, hbx⟩)
      · simp at hb
    generalize toRescue ms = l at hrescue
    induction l with
    | nil => exact answersOnly_map (fun m _ => toolResultIds_stripResults_subset m) h
    | cons r l ih =>
      exact answersOnly_placeResults (ih fun r hr => hrescue r (List.mem_cons_of_mem _ hr)) _
        (hrescue r List.mem_cons_self)

theorem answersOnly_enforce (h : AnswersOnly U ms) (hc : ∀ x ∈ calls ms, U x) :
    AnswersOnly U (enforceAdjacentToolResultPairs ms).1 := by
  have hmissing : ∀ {m : Message} {next : Option Message}, (∀ x ∈ idsNeeded m, U x) →
      ∀ x ∈ missingIds m next, U x := fun hm x hx => hm x (List.mem_of_mem_filter hx)
  have hcons : ∀ {m : Message} {ms : List Message}, (∀ x ∈ toolResultIds m, U x) →
      AnswersOnly U ms → AnswersOnly U (m :: ms) := fun hm hms n hn =>
    (List.mem_cons.mp hn).elim (fun h => h ▸ hm) (hms n)
  fun_induction enforceAdjacentToolResultPairs ms with
  | case1 => exact h
  | case2 m missing hmiss => exact h
  | case3 m missing hmiss =>
    refine hcons (h m List.mem_cons_self) (hcons ?_ fun n hn => by simp at hn)
    rw [toolResultIds_resultMessage, filterMap_syntheticResult_resultId]
    exact hmissing fun x hx => hc x (by simp [hx])
  | case4 m next rest missing hmiss r ih =>
    exact hcons (h m List.mem_cons_self) (ih (fun n hn => h n (List.mem_cons_of_mem _ hn))
      fun x hx => hc x (by rw [calls_cons]; exact List.mem_append_right _ hx))
  | case5 m next rest missing hmiss hrole r ih =>
    refine hcons (h m List.mem_cons_self) (hcons (fun x hx => ?_)
      (ih (fun n hn => h n (by simp [hn])) fun x hx => hc x (by simp [hx])))
    rw [toolResultIds_extend, filterMap_syntheticResult_resultId, List.mem_append] at hx
    exact hx.elim (h next (by simp) x) (hmissing (fun y hy => hc y (by simp [hy])) x)
  | case6 m next rest missing hmiss hrole r ih =>
    refine hcons (h m List.mem_cons_self) (hcons (fun x hx => ?_)
      (ih (fun n hn => h n (List.mem_cons_of_mem _ hn))
        fun x hx => hc x (by rw [calls_cons]; exact List.mem_append_right _ hx)))
    rw [toolResultIds_resultMessage, filterMap_syntheticResult_resultId] at hx
    exact hmissing (fun y hy => hc y (by simp [hy])) x hx

theorem answersOnly_reorder (h : AnswersOnly U ms) (hc : ∀ x ∈ calls ms, U x) :
    AnswersOnly U (reorderToolResults ms).1 := by
  rw [reorder_eq]
  split_ifs
  · exact h
  · have hkept : AnswersOnly U (keptMessages ms) := by
      refine answersOnly_filter (fun m' hm' x hx => ?_) _
      obtain ⟨i, hi⟩ := List.mem_iff_getElem?.mp hm'
      rw [getElem?_stripMisplaced, Option.map_eq_some_iff] at hi
      obtain ⟨m, hm, rfl⟩ := hi
      exact h m (List.mem_of_getElem? hm) x (mem_toolResultIds_removeMisplaced.mp hx).1
    generalize (List.range ms.length).filter _ = targets
    induction targets with
    | nil => exact hkept
    | cons t targets ih =>
      rw [List.foldr_cons, placeAt]
      split
      · refine answersOnly_placeResults ih _ fun x hx => ?_
        obtain ⟨b, hb, hbx⟩ := List.mem_filterMap.mp hx
        obtain ⟨y, hy, hyt⟩ := mem_movedTo hb
        obtain rfl : x = y := by simpa [hbx] using hy
        obtain ⟨-, m, hm, hxm⟩ := toolUseIndex_eq_some.mp hyt
        exact hc x (mem_calls_of_getElem? hm hxm)
      · exact ih

theorem resultsInUser_reorder (h : ResultsInUser ms) : ResultsInUser (reorderToolResults ms).1 := by
  rw [reorder_eq]
  split_ifs
  · exact h
  · have hkept : ResultsInUser (keptMessages ms) := by
      refine resultsInUser_filter (fun m' hm' hr => ?_) _
      obtain ⟨i, hi⟩ := List.mem_iff_getElem?.mp hm'
      rw [getElem?_stripMisplaced, Option.map_eq_some_iff] at hi
      obtain ⟨m, hm, rfl⟩ := hi
      rw [removeMisplaced_role]
      obtain ⟨x, hx⟩ := List.exists_mem_of_ne_nil _ hr
      exact h m (List.mem_of_getElem? hm)
        (List.ne_nil_of_mem (mem_toolResultIds_removeMisplaced.mp hx).1)
    generalize (List.range ms.length).filter _ = targets
    induction targets with
    | nil => exact hkept
    | cons t targets ih =>
      rw [List.foldr_cons, placeAt]
      split
      · exact resultsInUser_placeResults ih _ _
      · exact ih

/-! ## Messages that lose results -/

/-- A message that lost some of its results: same role, same calls. -/
structure Shrink (m m' : Message) : Prop where
  role : m'.role = m.role
  uses : toolUseIds m' = toolUseIds m
  results : toolResultIds m' ⊆ toolResultIds m

theorem Shrink.idsNeeded {m m' : Message} (h : Shrink m m') : idsNeeded m' = idsNeeded m :=
  idsNeeded_congr h.role h.uses

section Shrinking

variable {ms' : List Message}

theorem followsFrom_of_shrink (h : List.Forall₂ Shrink ms ms') {prev prev' : Option Message}
    (hp : prev'.map idsNeeded = prev.map idsNeeded) (hf : FollowsFrom U prev ms) :
    FollowsFrom U prev' ms' := by
  induction h generalizing prev prev' with
  | nil => trivial
  | @cons m m' ms ms' hm _ ih =>
    refine ⟨fun x hx hU => ?_, ih (by simp [hm.idsNeeded]) hf.2⟩
    obtain ⟨p, rfl, hxp⟩ := hf.1 x (hm.results hx) hU
    obtain ⟨p', rfl, hp'⟩ := Option.map_eq_some_iff.mp hp
    exact ⟨p', rfl, hp' ▸ hxp⟩

theorem follows_of_shrink (h : List.Forall₂ Shrink ms ms') (hf : Follows U ms) : Follows U ms' := by
  rw [follows_iff_from] at hf ⊢
  exact followsFrom_of_shrink h rfl hf

theorem resultsInUser_of_shrink (h : List.Forall₂ Shrink ms ms') (hr : ResultsInUser ms) :
    ResultsInUser ms' := by
  induction h with
  | nil => exact hr
  | cons hm _ ih =>
    intro n hn hne
    rcases List.mem_cons.mp hn with rfl | hn
    · exact hm.role.trans (hr _ List.mem_cons_self (ne_nil_of_subset hm.results hne))
    · exact ih (fun n hn => hr n (List.mem_cons_of_mem _ hn)) n hn hne

theorem answersOnly_of_shrink (h : List.Forall₂ Shrink ms ms') (ha : AnswersOnly U ms) :
    AnswersOnly U ms' := by
  induction h with
  | nil => exact ha
  | cons hm _ ih =>
    intro n hn x hx
    rcases List.mem_cons.mp hn with rfl | hn
    · exact ha _ List.mem_cons_self x (hm.results hx)
    · exact ih (fun n hn => ha n (List.mem_cons_of_mem _ hn)) n hn x hx

end Shrinking

/-! ## Phase 2d leaves one result for each id -/

section Dedup

variable (collision : String → Bool) (kept : String → Option ToolExecutionStatus)

theorem dedupBlocks_sublist (seen : List String) (bs : List ContentBlock) :
    (dedupBlocks collision kept seen bs).1.Sublist bs := by
  induction bs generalizing seen with
  | nil => exact List.Sublist.refl []
  | cons b bs ih =>
    simp only [dedupBlocks]
    cases b.result? with
    | none => exact (ih seen).cons_cons b
    | some r =>
      simp only
      split_ifs
      · exact (ih seen).cons_cons b
      · exact (ih seen).cons b
      · exact (ih _).cons_cons b

theorem dedupBlocks_seen (seen : List String) (bs : List ContentBlock) :
    (dedupBlocks collision kept seen bs).2 =
      (freshIds collision (dedupBlocks collision kept seen bs).1).reverse ++ seen := by
  induction bs generalizing seen with
  | nil => rfl
  | cons b bs ih =>
    simp only [dedupBlocks]
    cases hb : b.result? with
    | none =>
      simp only
      rw [freshIds_cons, freshIds_of_result?_none hb, List.nil_append, ih]
    | some r =>
      obtain ⟨x, s⟩ := r
      simp only
      split_ifs with hc hdrop
      · rw [freshIds_cons, freshIds_of_result? hb, if_pos hc, List.nil_append, ih]
      · exact ih seen
      · rw [freshIds_cons, freshIds_of_result? hb, if_neg hc, ih (x :: seen)]
        simp

theorem nodup_dedupBlocks {seen : List String} (hs : seen.Nodup) (bs : List ContentBlock) :
    (dedupBlocks collision kept seen bs).2.Nodup := by
  induction bs generalizing seen with
  | nil => exact hs
  | cons b bs ih =>
    simp only [dedupBlocks]
    cases b.result? with
    | none => exact ih hs
    | some r =>
      simp only
      split_ifs with hc hdrop
      · exact ih hs
      · exact ih hs
      · exact ih (List.nodup_cons.mpr ⟨fun h => hdrop (Or.inl h), hs⟩)

theorem nodup_dedupMessages {seen : List String} (hs : seen.Nodup) (ms : List Message) :
    ((freshIds collision ((dedupMessages collision kept seen ms).flatMap Message.blocks)).reverse ++
      seen).Nodup := by
  induction ms generalizing seen with
  | nil => exact hs
  | cons m ms ih =>
    have hblocks : (dedupedMessage collision kept seen m).blocks =
        (dedupBlocks collision kept seen m.blocks).1 := dedupedMessage_blocks seen m
    show ((freshIds collision ((dedupedMessage collision kept seen m :: _).flatMap _)).reverse ++
      seen).Nodup
    rw [List.flatMap_cons, freshIds_append, List.reverse_append, List.append_assoc, hblocks,
      ← dedupBlocks_seen]
    exact ih (nodup_dedupBlocks collision kept hs m.blocks)

theorem shrink_dedupMessages (seen : List String) (ms : List Message) :
    List.Forall₂ Shrink ms (dedupMessages collision kept seen ms) := by
  induction ms generalizing seen with
  | nil => exact .nil
  | cons m ms ih =>
    refine .cons (b := dedupedMessage collision kept seen m) ⟨mapBlocks_role _ _, ?_, ?_⟩ (ih _)
    · unfold toolUseIds
      rw [dedupedMessage_blocks, dedupBlocks_uses]
    · unfold toolResultIds
      rw [dedupedMessage_blocks]
      exact ((dedupBlocks_sublist collision kept seen m.blocks).filterMap _).subset

end Dedup

theorem freshIds_flatMap (collision : String → Bool) (ms : List Message) :
    freshIds collision (ms.flatMap Message.blocks) =
      ((stream ms).filterMap fun rb => rb.2.resultId?).filter fun x => !collision x := by
  unfold freshIds
  congr 1
  induction ms with
  | nil => rfl
  | cons m ms ih =>
    rw [List.flatMap_cons, List.filterMap_append, ih, stream_cons, List.filterMap_append]
    congr 1
    rw [← filterMap_contentToBlocks m _ fun _ _ => rfl, roleBlocks, List.filterMap_map]
    rfl

theorem freshIds_sublist (collision : String → Bool) (h : ms'.Sublist ms) :
    (freshIds collision (ms'.flatMap Message.blocks)).Sublist
      (freshIds collision (ms.flatMap Message.blocks)) :=
  ((h.flatMap _).filterMap _).filter _

/-! ## Phase 3 -/

theorem mergeLoop_forall {P : Message → Prop}
    (hm : ∀ last m, mergeable last m = true → P last → P m → P (mergeContent last m))
    {last : Message} (h : ∀ n ∈ last :: ms, P n) : ∀ n ∈ (mergeLoop last ms).1, P n := by
  induction ms generalizing last with
  | nil => exact h
  | cons m ms ih =>
    have hlast := h last List.mem_cons_self
    have hrest : ∀ n ∈ m :: ms, P n := fun n hn => h n (List.mem_cons_of_mem _ hn)
    simp only [mergeLoop]
    split_ifs with hmerge
    · refine ih fun n hn => ?_
      rcases List.mem_cons.mp hn with rfl | hn
      · exact hm last m hmerge hlast (hrest m List.mem_cons_self)
      · exact hrest n (List.mem_cons_of_mem _ hn)
    · intro n hn
      rcases List.mem_cons.mp hn with rfl | hn
      · exact hlast
      · exact ih hrest n hn

theorem mergeConsecutive_forall {P : Message → Prop}
    (hm : ∀ last m, mergeable last m = true → P last → P m → P (mergeContent last m))
    (h : ∀ n ∈ ms, P n) : ∀ n ∈ (mergeConsecutive ms).1, P n := by
  cases ms with
  | nil => exact h
  | cons m ms => exact mergeLoop_forall hm h

theorem mergeable_iff {last m : Message} :
    mergeable last m = true ↔ last.role = m.role ∧ messageHasToolUse last = false ∧
      messageIsOnlyToolResults m = false ∧ messageHasToolUse m = false ∧
        messageIsOnlyToolResults last = false := by
  simp [mergeable, and_assoc]

theorem messageHasToolUse_eq (m : Message) :
    messageHasToolUse m = (contentToBlocks m.content).any fun b => b.useId?.isSome := by
  obtain ⟨role, content, pinned, timestamp⟩ := m
  cases content <;> rfl

theorem messageIsOnlyToolResults_eq (m : Message) :
    messageIsOnlyToolResults m = (!(contentToBlocks m.content).isEmpty &&
      (contentToBlocks m.content).all fun b => b.resultId?.isSome) := by
  obtain ⟨role, content, pinned, timestamp⟩ := m
  cases content <;> rfl

theorem mergeable_mergeContent {last m : Message} (h : mergeable last m = true) (a : Message) :
    mergeable a (mergeContent last m) = mergeable a last := by
  obtain ⟨-, huse, honly, huse', honly'⟩ := mergeable_iff.mp h
  have hblocks : contentToBlocks (mergeContent last m).content =
      contentToBlocks last.content ++ contentToBlocks m.content := rfl
  have hu : messageHasToolUse (mergeContent last m) = false := by
    rw [messageHasToolUse_eq] at huse huse' ⊢
    rw [hblocks, List.any_append, huse, huse']
    rfl
  have ho : messageIsOnlyToolResults (mergeContent last m) = false := by
    rw [messageIsOnlyToolResults_eq] at honly honly' ⊢
    rw [hblocks, List.all_append]
    revert honly honly'
    cases contentToBlocks last.content <;> cases contentToBlocks m.content <;> simp_all
  unfold mergeable
  rw [hu, ho, huse, honly']
  rfl

/-- **After phase 3 no two neighbours merge.** -/
theorem apart_mergeLoop (last : Message) (ms : List Message) :
    (mergeLoop last ms).1.IsChain (fun a b => mergeable a b = false) ∧
      ∃ m, (mergeLoop last ms).1.head? = some m ∧ ∀ a, mergeable a m = mergeable a last := by
  induction ms generalizing last with
  | nil => exact ⟨List.isChain_singleton last, last, rfl, fun _ => rfl⟩
  | cons m ms ih =>
    simp only [mergeLoop]
    split_ifs with hm
    · obtain ⟨hchain, n, hn, hhead⟩ := ih (mergeContent last m)
      exact ⟨hchain, n, hn, fun a => (hhead a).trans (mergeable_mergeContent hm a)⟩
    · obtain ⟨hchain, n, hn, hhead⟩ := ih m
      refine ⟨?_, last, rfl, fun _ => rfl⟩
      refine List.isChain_cons.mpr ⟨fun b hb => ?_, hchain⟩
      obtain rfl : n = b := by simpa [hn] using hb
      rw [hhead last]
      exact Bool.not_eq_true _ ▸ hm

theorem apart_mergeConsecutive (ms : List Message) :
    (mergeConsecutive ms).1.IsChain fun a b => mergeable a b = false := by
  cases ms with
  | nil => exact List.isChain_nil
  | cons m ms => exact (apart_mergeLoop m ms).1

theorem toolResultIds_mergeContent (last m : Message) :
    toolResultIds (mergeContent last m) = toolResultIds last ++ toolResultIds m := by
  rw [mergeContent, toolResultIds_extend, filterMap_contentToBlocks _ _ fun _ _ => rfl]
  rfl

theorem followsFrom_mergeLoop {last : Message} {prev : Option Message}
    (h : FollowsFrom U prev (last :: ms)) : FollowsFrom U prev (mergeLoop last ms).1 := by
  induction ms generalizing last prev with
  | nil => exact h
  | cons m ms ih =>
    obtain ⟨hlast, hm, hms⟩ := h
    simp only [mergeLoop]
    split_ifs with hmerge
    · obtain ⟨hnil, hnil'⟩ := mergeable_toolUse hmerge
      have hcalls : ∀ n : Message, toolUseIds n = [] → idsNeeded n = [] := fun n hn => by
        rw [idsNeeded, hn, ite_self]
      refine ih ⟨fun x hx hU => ?_, followsFrom_of_idsNeeded_nil (hcalls m hnil') _ hms⟩
      rw [toolResultIds_mergeContent, List.mem_append] at hx
      rcases hx with hx | hx
      · exact hlast x hx hU
      · -- the message before a merged one calls nothing
        obtain ⟨p, hp, hxp⟩ := hm x hx hU
        obtain rfl : last = p := by simpa using hp
        simp [hcalls last hnil] at hxp
    · exact ⟨hlast, ih ⟨hm, hms⟩⟩

theorem follows_mergeConsecutive (h : Follows U ms) : Follows U (mergeConsecutive ms).1 := by
  rw [follows_iff_from] at h ⊢
  cases ms with
  | nil => exact h
  | cons m ms => exact followsFrom_mergeLoop h

/-! ## The last pass -/

theorem isBlank_eq (s : String) : isBlank s = s.toList.all Text.isWhitespace := by
  have hiff : ∀ l : List Char, Text.trim l = [] ↔ ∀ c ∈ l, Text.isWhitespace c = true := by
    intro l
    unfold Text.trim Text.trimEnd Text.trimStart
    rw [List.rdropWhile_eq_nil_iff]
    constructor
    · intro h c hc
      by_contra hne
      have hdrop : l.dropWhile Text.isWhitespace ≠ [] := fun hnil =>
        hne (List.dropWhile_eq_nil_iff.mp hnil c hc)
      have hhead := List.head_dropWhile_not Text.isWhitespace hdrop
      rw [h _ (List.head_mem hdrop)] at hhead
      cases hhead
    · exact fun h c hc => h c ((List.dropWhile_sublist _).subset hc)
  rw [Bool.eq_iff_iff, isBlank, List.isEmpty_iff, hiff, List.all_eq_true]

theorem isBlank_append (s t : String) : isBlank (s ++ t) = (isBlank s && isBlank t) := by
  simp only [isBlank_eq, String.toList_append, List.all_append]

theorem isEmptyOrBlankContent_eq (c : MessageContent) :
    isEmptyOrBlankContent c = (contentToBlocks c).all blankBlock := by
  cases c with
  | text s => simp [isEmptyOrBlankContent, contentToBlocks, blankBlock]
  | blocks bs =>
    cases bs with
    | nil => rfl
    | cons b bs =>
      unfold isEmptyOrBlankContent
      simp only [List.isEmpty_cons, Bool.false_or]
      rfl

theorem all_blank_coalesceLoop (out bs : List ContentBlock) :
    (coalesceLoop out bs).all blankBlock = (out.all blankBlock && bs.all blankBlock) := by
  fun_induction coalesceLoop out bs with
  | case1 out => simp
  | case2 existing pm out t pm' bs ih =>
    have hsep : isBlank "\n\n" = true := by decide
    rw [ih]
    simp only [List.all_cons, blankBlock, isBlank_append, hsep, Bool.and_true]
    ac_rfl
  | case3 out b bs _ ih =>
    rw [ih]
    simp only [List.all_cons]
    ac_rfl

theorem all_blank_coalesce (bs : List ContentBlock) :
    (coalesceAdjacentTextBlocks bs).all blankBlock = bs.all blankBlock := by
  unfold coalesceAdjacentTextBlocks
  split_ifs
  · rfl
  · exact all_blank_coalesceLoop [] bs

theorem coalesceLoop_isEmpty (out bs : List ContentBlock) :
    (coalesceLoop out bs).isEmpty = (out.isEmpty && bs.isEmpty) := by
  fun_induction coalesceLoop out bs with
  | case1 out => simp
  | case2 existing pm out t pm' bs ih => simp [ih]
  | case3 out b bs _ ih => simp [ih]

theorem coalesce_isEmpty (bs : List ContentBlock) :
    (coalesceAdjacentTextBlocks bs).isEmpty = bs.isEmpty := by
  unfold coalesceAdjacentTextBlocks
  split_ifs
  · rfl
  · simp [coalesceLoop_isEmpty]

theorem all_results_coalesceLoop (out bs : List ContentBlock) :
    (coalesceLoop out bs).all (fun b => b.resultId?.isSome) =
      (out.all (fun b => b.resultId?.isSome) && bs.all fun b => b.resultId?.isSome) := by
  fun_induction coalesceLoop out bs with
  | case1 out => simp
  | case2 existing pm out t pm' bs ih =>
    rw [ih]
    simp [ContentBlock.resultId?]
  | case3 out b bs _ ih =>
    rw [ih]
    simp only [List.all_cons]
    ac_rfl

theorem all_results_coalesce (bs : List ContentBlock) :
    (coalesceAdjacentTextBlocks bs).all (fun b => b.resultId?.isSome) =
      bs.all fun b => b.resultId?.isSome := by
  unfold coalesceAdjacentTextBlocks
  split_ifs
  · rfl
  · exact all_results_coalesceLoop [] bs

theorem messageHasToolUse_coalesce (m : Message) :
    messageHasToolUse (m.mapBlocks coalesceAdjacentTextBlocks) = messageHasToolUse m := by
  have hany : ∀ bs : List ContentBlock, (bs.any fun b => b.useId?.isSome) =
      !(bs.filter fun b => b.useId?.isSome).isEmpty := by
    intro bs
    induction bs with
    | nil => rfl
    | cons b bs ih => cases h : b.useId?.isSome <;> simp [h, ih]
  rw [messageHasToolUse_eq, messageHasToolUse_eq, contentToBlocks_coalesce, hany, hany,
    filter_coalesce fun _ _ => rfl]

theorem messageIsOnlyToolResults_coalesce (m : Message) :
    messageIsOnlyToolResults (m.mapBlocks coalesceAdjacentTextBlocks) =
      messageIsOnlyToolResults m := by
  rw [messageIsOnlyToolResults_eq, messageIsOnlyToolResults_eq, contentToBlocks_coalesce,
    coalesce_isEmpty, all_results_coalesce]

theorem mergeable_coalesce (a b : Message) :
    mergeable (a.mapBlocks coalesceAdjacentTextBlocks) (b.mapBlocks coalesceAdjacentTextBlocks) =
      mergeable a b := by
  simp only [mergeable, mapBlocks_role, messageHasToolUse_coalesce,
    messageIsOnlyToolResults_coalesce]

/-- **Coalescing leaves no two texts next to each other.** -/
theorem coalesced_coalesceLoop {out : List ContentBlock} (bs : List ContentBlock)
    (h : out.IsChain fun a b => bothTexts b a = false) :
    (coalesceLoop out bs).IsChain fun a b => bothTexts a b = false := by
  fun_induction coalesceLoop out bs with
  | case1 out => exact List.isChain_reverse.mpr h
  | case2 existing pm out t pm' bs ih =>
    refine ih ?_
    rw [List.isChain_cons] at h ⊢
    exact h
  | case3 out b bs hnot ih =>
    refine ih (List.isChain_cons.mpr ⟨fun a ha => ?_, h⟩)
    cases out with
    | nil => simp at ha
    | cons c out =>
      obtain rfl : c = a := by simpa using ha
      by_contra hboth
      simp only [bothTexts, Bool.not_eq_false, Bool.and_eq_true, Option.isSome_iff_exists] at hboth
      obtain ⟨⟨s, hs⟩, t, ht⟩ := hboth
      cases c with
      | text s' pm =>
        cases b with
        | text t' pm' => exact hnot s' pm out t' pm' rfl rfl
        | _ => simp [ContentBlock.text?] at ht
      | _ => simp [ContentBlock.text?] at hs

theorem coalesced_coalesce (bs : List ContentBlock) :
    (coalesceAdjacentTextBlocks bs).IsChain fun a b => bothTexts a b = false := by
  unfold coalesceAdjacentTextBlocks
  split_ifs with h
  · match bs, h with
    | [], _ => exact List.isChain_nil
    | [b], _ => exact List.isChain_singleton b
  · exact coalesced_coalesceLoop bs List.isChain_nil

theorem shrink_coalesce (m : Message) : Shrink m (m.mapBlocks coalesceAdjacentTextBlocks) where
  role := mapBlocks_role _ _
  uses := (rewrite_coalesce m).uses
  results := by
    unfold toolResultIds
    rw [mapBlocks_blocks _ _ rfl, filterMap_coalesce fun _ _ => rfl]
    exact List.Subset.refl _

/-! ## From pass to pass -/

/-- The calls are `called`, and the results answer them: each in a user message, behind its call
when there is only one. -/
structure Ordered (called : List String) (ms : List Message) : Prop where
  calls : calls ms = called
  inUser : ResultsInUser ms
  follows : Follows (fun x => called.count x = 1) ms
  answers : AnswersOnly (· ∈ called) ms

section Passes

variable {called : List String}

theorem Ordered.shrink (h : List.Forall₂ Shrink ms ms')
    (ho : Ordered called ms) : Ordered called ms' where
  calls := by
    rw [← ho.calls]
    clear ho
    induction h with
    | nil => rfl
    | cons hm _ ih => rw [calls_cons, calls_cons, hm.idsNeeded, ih]
  inUser := resultsInUser_of_shrink h ho.inUser
  follows := follows_of_shrink h ho.follows
  answers := answersOnly_of_shrink h ho.answers

theorem Ordered.filter {keep : Message → Bool}
    (hk : ∀ m ∈ ms, idsNeeded m ≠ [] → keep m = true) (ho : Ordered called ms) :
    Ordered called (ms.filter keep) where
  calls := (calls_filter keep hk).trans ho.calls
  inUser := resultsInUser_filter ho.inUser keep
  follows := follows_filter keep hk ho.follows
  answers := answersOnly_filter ho.answers keep

theorem ordered_reorder (h : WellPlaced ms) :
    Ordered (calls ms) (reorderToolResults (enforceAdjacentToolResultPairs
      (rescueMisplacedToolResults (dropOrphans (collectToolUseIds ms) ms).1).1).1).1 := by
  have hclean : AnswersOnly (· ∈ calls ms) (dropOrphans (collectToolUseIds ms) ms).1 := by
    rw [calls_of_wellPlaced h]
    exact answersOnly_dropOrphans _ ms
  have hrescue := resultsInUser_rescue (wellPlaced_dropOrphans (collectToolUseIds ms) h)
  have hsel := select_dropOrphans (collectToolUseIds ms) ms
  generalize (dropOrphans (collectToolUseIds ms) ms).1 = cleaned at *
  have hrescued := answersOnly_rescue hclean
  rw [← select_rescue] at hsel
  generalize (rescueMisplacedToolResults cleaned).1 = rescued at *
  have hpaired := paired_enforce rescued
  have huser := resultsInUser_enforce hrescue
  have henforced := answersOnly_enforce hrescued fun x hx => by rwa [calls_of_select hsel] at hx
  rw [← select_enforce] at hsel
  generalize (enforceAdjacentToolResultPairs rescued).1 = paired at *
  have hcalls : calls (reorderToolResults paired).1 = calls ms := by
    rw [calls_reorder hpaired, calls_of_select hsel]
  refine ⟨hcalls, resultsInUser_reorder huser, ?_, ?_⟩
  · have hf := follows_reorder hpaired huser
    unfold CalledOnce at hf
    rwa [hcalls] at hf
  · exact answersOnly_reorder henforced fun x hx => by rwa [calls_of_select hsel] at hx

theorem Ordered.deduplicate (ho : Ordered called ms) :
    Ordered called (deduplicateToolResults ms).1 :=
  (ho.shrink (shrink_dedupMessages (isCollision ms) (keptStatuses ms) [] ms)).filter fun _ _ hne =>
    let ⟨_, hx⟩ := List.exists_mem_of_ne_nil _ hne
    nonEmpty_of_idsNeeded hx

theorem Ordered.removeAborted (ho : Ordered called ms) :
    Ordered called (removeAbortedAssistantMessages ms) := by
  refine ho.filter fun m _ hne => ?_
  obtain ⟨x, hx⟩ := List.exists_mem_of_ne_nil _ hne
  simp [not_isEmptyOrBlank (mem_idsNeeded.mp hx).2]

theorem Ordered.mergeConsecutive (ho : Ordered called ms) :
    Ordered called (mergeConsecutive ms).1 where
  calls := by
    rw [← ho.calls]
    exact calls_of_select (by simp only [select, stream_mergeConsecutive])
  inUser := by
    refine mergeConsecutive_forall (P := fun m => toolResultIds m ≠ [] → m.role = .user) ?_ ho.inUser
    intro last m hm hlast hm' hne
    show last.role = .user
    rw [toolResultIds_mergeContent] at hne
    by_cases hl : toolResultIds last = []
    · rw [(mergeable_iff.mp hm).1]
      exact hm' fun hnil => hne (by rw [hl, hnil]; rfl)
    · exact hlast hl
  follows := follows_mergeConsecutive ho.follows
  answers := by
    refine mergeConsecutive_forall (P := fun m => ∀ x ∈ toolResultIds m, x ∈ called) ?_ ho.answers
    intro last m _ hlast hm x hx
    rw [toolResultIds_mergeContent, List.mem_append] at hx
    exact hx.elim (hlast x) (hm x)

theorem Ordered.coalesce (ho : Ordered called ms) :
    Ordered called (ms.map (Message.mapBlocks coalesceAdjacentTextBlocks)) :=
  ho.shrink (List.forall₂_map_right_iff.mpr (List.forall₂_same.mpr fun m _ => shrink_coalesce m))

end Passes

theorem nodup_deduplicate (ms : List Message) :
    (freshIds (isCollision ms) ((deduplicateToolResults ms).1.flatMap Message.blocks)).Nodup := by
  have hnodup := nodup_dedupMessages (isCollision ms) (keptStatuses ms) List.nodup_nil ms
  rw [List.append_nil, List.nodup_reverse] at hnodup
  exact hnodup.sublist (freshIds_sublist _ List.filter_sublist)

theorem freshIds_mergeConsecutive (collision : String → Bool) (ms : List Message) :
    freshIds collision ((mergeConsecutive ms).1.flatMap Message.blocks) =
      freshIds collision (ms.flatMap Message.blocks) := by
  rw [freshIds_flatMap, freshIds_flatMap, stream_mergeConsecutive]

theorem freshIds_coalesce (collision : String → Bool) (ms : List Message) :
    freshIds collision ((ms.map (Message.mapBlocks coalesceAdjacentTextBlocks)).flatMap
      Message.blocks) = freshIds collision (ms.flatMap Message.blocks) := by
  induction ms with
  | nil => rfl
  | cons m ms ih =>
    rw [List.map_cons, List.flatMap_cons, List.flatMap_cons, freshIds_append, freshIds_append, ih,
      mapBlocks_blocks _ _ rfl, freshIds, filterMap_coalesce fun _ _ => rfl]
    rfl

theorem nonEmpty_eq (m : Message) :
    m.nonEmpty = true ↔ m.content ≠ .text "" ∧ contentToBlocks m.content ≠ [] := by
  obtain ⟨role, content, pinned, timestamp⟩ := m
  cases content <;> simp [Message.nonEmpty, contentToBlocks]

theorem nonEmpty_mergeContent {last : Message} (h : last.nonEmpty = true) (m : Message) :
    (mergeContent last m).nonEmpty = true := by
  have hne := ((nonEmpty_eq last).mp h).2
  refine (nonEmpty_eq _).mpr ⟨MessageContent.noConfusion, fun he => hne ?_⟩
  have happ : contentToBlocks last.content ++ contentToBlocks m.content = [] := he
  exact (List.append_eq_nil_iff.mp happ).1

theorem nonEmpty_coalesce (m : Message) :
    (m.mapBlocks coalesceAdjacentTextBlocks).nonEmpty = m.nonEmpty := by
  obtain ⟨role, content, pinned, timestamp⟩ := m
  cases content with
  | text s => rfl
  | blocks bs =>
    show (!(coalesceAdjacentTextBlocks bs).isEmpty) = !bs.isEmpty
    rw [coalesce_isEmpty]

theorem visible_mergeContent {last m : Message} (h : isEmptyOrBlankContent last.content = false) :
    isEmptyOrBlankContent (mergeContent last m).content = false := by
  rw [isEmptyOrBlankContent_eq] at h ⊢
  show (contentToBlocks last.content ++ contentToBlocks m.content).all blankBlock = false
  rw [List.all_append, h, Bool.false_and]

/-! ## The whole repair -/

/-- **The output of the repair is normal.** -/
theorem normal_validateAndRepair (h : WellPlaced ms) : Normal (validateAndRepair ms) := by
  have hpaired := paired_validateAndRepair h
  have hordered := ordered_reorder h
  have hreordered : Paired (reorderToolResults (enforceAdjacentToolResultPairs
      (rescueMisplacedToolResults (dropOrphans (collectToolUseIds ms) ms).1).1).1).1 :=
    paired_reorder (paired_enforce _)
  rw [validateAndRepair_eq] at hpaired ⊢
  generalize (reorderToolResults _).1 = reordered at *
  rw [insertSynthetic_of_paired hreordered] at hpaired ⊢
  have hout := hordered.deduplicate.removeAborted.mergeConsecutive.coalesce
  have hcollision := isCollision_congr (hordered.calls.trans hout.calls.symm)
  have hsingle := nodup_deduplicate reordered
  have hnonEmpty : ∀ m ∈ (deduplicateToolResults reordered).1, m.nonEmpty = true :=
    fun m hm => (List.mem_filter.mp hm).2
  rw [hcollision] at hsingle
  generalize (deduplicateToolResults reordered).1 = deduped at *
  have hvisible : ∀ m ∈ removeAbortedAssistantMessages deduped, m.role = .assistant →
      isEmptyOrBlankContent m.content = false := by
    intro m hm hrole
    have hkeep := (List.mem_filter.mp hm).2
    simpa [hrole] using hkeep
  have hmerged : ∀ m ∈ (mergeConsecutive (removeAbortedAssistantMessages deduped)).1,
      m.nonEmpty = true ∧ (m.role = .assistant → isEmptyOrBlankContent m.content = false) := by
    refine mergeConsecutive_forall (fun last m hm hlast _ => ?_) fun m hm =>
      ⟨hnonEmpty m (List.mem_of_mem_filter hm), hvisible m hm⟩
    exact ⟨nonEmpty_mergeContent hlast.1 m, fun hrole => visible_mergeContent (hlast.2 hrole)⟩
  refine ⟨?_, ?_, hout.inUser, hpaired, ?_, ?_, ?_, ?_, ?_⟩
  · rw [hout.calls]
    exact hout.answers
  · intro m' hm'
    obtain ⟨m, hm, rfl⟩ := List.mem_map.mp hm'
    rw [nonEmpty_coalesce]
    exact (hmerged m hm).1
  · unfold CalledOnce
    rw [hout.calls]
    exact hout.follows
  · rw [freshIds_coalesce, freshIds_mergeConsecutive]
    exact hsingle.sublist (freshIds_sublist _ List.filter_sublist)
  · intro m' hm' hrole
    obtain ⟨m, hm, rfl⟩ := List.mem_map.mp hm'
    rw [mapBlocks_role] at hrole
    rw [isEmptyOrBlankContent_eq, contentToBlocks_coalesce, all_blank_coalesce,
      ← isEmptyOrBlankContent_eq]
    exact (hmerged m hm).2 hrole
  · rw [List.isChain_map]
    simp only [mergeable_coalesce]
    exact apart_mergeConsecutive _
  · intro m' hm'
    obtain ⟨m, -, rfl⟩ := List.mem_map.mp hm'
    rw [mapBlocks_blocks _ _ rfl]
    exact coalesced_coalesce _

/-- **The repair is idempotent**: a second pass changes nothing and counts nothing. -/
theorem validateAndRepair_idempotent (h : WellPlaced ms) :
    validateAndRepair (validateAndRepair ms) = validateAndRepair ms ∧
      (validateAndRepairWithStats (validateAndRepair ms)).2 = ⟨0, 0, 0, 0, 0, 0, 0, 0⟩ := by
  have hfixed := validateAndRepair_of_normal (normal_validateAndRepair h)
  constructor
  · show (validateAndRepairWithStats (validateAndRepair ms)).1 = _
    rw [hfixed]
  · rw [hfixed]

theorem validateAndRepair_idempotent_interruptedTurn :
    validateAndRepair (validateAndRepair [interruptedTurn]) = validateAndRepair [interruptedTurn] ∧
      (validateAndRepairWithStats (validateAndRepair [interruptedTurn])).2 =
        ⟨0, 0, 0, 0, 0, 0, 0, 0⟩ :=
  validateAndRepair_idempotent (by decide)

/-- **No stray result**: a result of the output sits in a user message and answers a call of the
output; when its id is called once, the message before it is the one that calls it. -/
theorem validateAndRepair_no_stray (h : WellPlaced ms) (i : ℕ) (m : Message)
    (hi : (validateAndRepair ms)[i]? = some m) (x : String) (hx : x ∈ toolResultIds m) :
    m.role = .user ∧ x ∈ calls (validateAndRepair ms) ∧
      (CalledOnce (validateAndRepair ms) x → ∃ j p, i = j + 1 ∧
        (validateAndRepair ms)[j]? = some p ∧ p.role = .assistant ∧ x ∈ toolUseIds p) := by
  have hnormal := normal_validateAndRepair h
  have hm : m ∈ validateAndRepair ms := List.mem_of_getElem? hi
  refine ⟨hnormal.inUser m hm (List.ne_nil_of_mem hx), hnormal.answers m hm x hx, fun hc => ?_⟩
  obtain ⟨j, p, hj, hp, hxp⟩ := hnormal.follows i m hi x hx hc
  exact ⟨j, p, hj, hp, mem_idsNeeded.mp hxp⟩

theorem validateAndRepair_no_stray_interruptedTurn :
    ∃ m, (validateAndRepair [interruptedTurn])[1]? = some m ∧ m.role = .user ∧
      "call_1" ∈ calls (validateAndRepair [interruptedTurn]) ∧
      (CalledOnce (validateAndRepair [interruptedTurn]) "call_1" → ∃ j p, 1 = j + 1 ∧
        (validateAndRepair [interruptedTurn])[j]? = some p ∧ p.role = .assistant ∧
        "call_1" ∈ toolUseIds p) :=
  ⟨resultMessage [syntheticResult "call_1"], by decide,
    validateAndRepair_no_stray (by decide) 1 _ (by decide) "call_1" (by decide)⟩

/-- Two turns that reuse an id, and a result before the first of them. -/
def reusedId : List Message :=
  let call : Message := ⟨.assistant, .blocks [.toolUse "call_1" "read" ⟨"\x7b\x7d"⟩ none], false, none⟩
  let result : Message :=
    ⟨.user, .blocks [.toolResult "call_1" "read" "ok" false .completed none], false, none⟩
  [result, call, result, call, result]

/-- A result of a reused id stays where it is, with no message before it. -/
theorem reusedId_stray : WellPlaced reusedId ∧
    ∃ m, (validateAndRepair reusedId)[0]? = some m ∧ "call_1" ∈ toolResultIds m ∧
      ¬∃ j p, 0 = j + 1 ∧ (validateAndRepair reusedId)[j]? = some p ∧ p.role = .assistant ∧
        "call_1" ∈ toolUseIds p :=
  ⟨by decide, _, rfl, by decide, fun ⟨_, _, hj, _⟩ => by cases hj⟩

end LibreFang.Session
