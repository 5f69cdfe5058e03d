import Mathlib.Data.List.Chain
import Mathlib.Data.List.Nodup
import LibreFang.Session.Content

/-!
# Histories with nothing to repair

The combined normal form of all passes: each pass leaves such a history alone.

* `FreshIds`: the ids of the results phase 2d looks at; they occur once each.
* `Normal`: the normal form, one field for each pass.
* **`validateAndRepair_of_normal`**: a normal history comes back as it is, with zero statistics.
-/

namespace LibreFang.Session

variable {ms : List Message}

/-- The result ids phase 2d deduplicates, in order. -/
def freshIds (collision : String → Bool) (bs : List ContentBlock) : List String :=
  (bs.filterMap ContentBlock.resultId?).filter fun x => !collision x

/-- Two texts next to each other. -/
def bothTexts (a b : ContentBlock) : Bool := a.text?.isSome && b.text?.isSome

/-- A block without visible content, as phase 2e reads it. -/
def blankBlock : ContentBlock → Bool
  | .text t _ => isBlank t
  | .unknown => true
  | _ => false

/-- A history no pass has anything to do on. -/
structure Normal (ms : List Message) : Prop where
  answers : ∀ m ∈ ms, ∀ x ∈ toolResultIds m, x ∈ calls ms
  nonEmpty : ∀ m ∈ ms, m.nonEmpty = true
  inUser : ResultsInUser ms
  paired : Paired ms
  follows : Follows (CalledOnce ms) ms
  single : (freshIds (isCollision ms) (ms.flatMap Message.blocks)).Nodup
  visible : ∀ m ∈ ms, m.role = .assistant → isEmptyOrBlankContent m.content = false
  unmerged : ms.IsChain fun last m => mergeable last m = false
  coalesced : ∀ m ∈ ms, m.blocks.IsChain fun a b => bothTexts a b = false

/-! ## Phases 2 to 2c -/

theorem mem_collectToolUseIds {x : String} (h : x ∈ calls ms) : x ∈ collectToolUseIds ms := by
  obtain ⟨m, hm, hx⟩ := List.mem_flatMap.mp h
  exact List.mem_flatMap.mpr ⟨m, hm, (mem_idsNeeded.mp hx).2⟩

theorem mapBlocks_eq_self {f : List ContentBlock → List ContentBlock} {m : Message}
    (h : f m.blocks = m.blocks) : m.mapBlocks f = m := by
  obtain ⟨role, content, pinned, timestamp⟩ := m
  cases content with
  | text s => rfl
  | blocks bs =>
    have h : f bs = bs := h
    simp only [Message.mapBlocks, h]

theorem dropOrphans_of_normal {ids : List String}
    (ha : ∀ m ∈ ms, ∀ x ∈ toolResultIds m, x ∈ ids) (he : ∀ m ∈ ms, m.nonEmpty = true) :
    dropOrphans ids ms = (ms, 0, 0) := by
  have hkeep : ∀ m ∈ ms, ∀ b ∈ m.blocks, keepBlock ids b = true := by
    intro m hm b hb
    cases b with
    | toolResult x n c e st a =>
      exact decide_eq_true (ha m hm x (mem_toolResultIds.mpr ⟨_, hb, rfl⟩))
    | _ => rfl
  have hmap : ms.map (Message.mapBlocks (List.filter (keepBlock ids))) = ms := by
    conv_rhs => rw [← List.map_id ms]
    exact List.map_congr_left fun m hm =>
      mapBlocks_eq_self (List.filter_eq_self.mpr (hkeep m hm))
  have hdropped : (ms.map fun m => (m.blocks.filter fun b => !keepBlock ids b).length).sum = 0 := by
    rw [List.sum_eq_zero_iff_forall_eq_nat]
    intro n hn
    obtain ⟨m, hm, rfl⟩ := List.mem_map.mp hn
    rw [List.length_eq_zero_iff, List.filter_eq_nil_iff]
    exact fun b hb => by simp [hkeep m hm b hb]
  have hempty : (ms.filter fun m => !m.nonEmpty).length = 0 := by
    rw [List.length_eq_zero_iff, List.filter_eq_nil_iff]
    exact fun m hm => by simp [he m hm]
  simp only [dropOrphans, hmap, hdropped, hempty, List.filter_eq_self.mpr he]

theorem rescue_of_normal (h : ResultsInUser ms) : rescueMisplacedToolResults ms = (ms, 0) := by
  have hnone : toRescue ms = [] := by
    refine List.filterMap_eq_nil_iff.mpr fun p hp => ?_
    have hm : p.1 ∈ ms := List.mem_of_getElem? (List.mem_zipIdx_iff_getElem?.mp hp)
    have hempty : misplacedIn p.1 = [] := by
      unfold misplacedIn
      split_ifs with hrole
      · apply toolResultIds_eq_nil_iff.mp
        by_contra hne
        simp [h p.1 hm hne] at hrole
      · rfl
    simp [hempty]
  simp only [rescueMisplacedToolResults, hnone, List.isEmpty_nil, if_true]

theorem missingIds_of_paired {m : Message} {next : Option Message}
    (h : ∀ x ∈ idsNeeded m, x ∈ adjacentResults next) : missingIds m next = [] :=
  List.filter_eq_nil_iff.mpr fun x hx => by simp [h x hx]

theorem enforce_of_paired (h : Paired ms) : enforceAdjacentToolResultPairs ms = (ms, 0) := by
  induction ms with
  | nil => rfl
  | cons m ms ih =>
    obtain ⟨hm, hms⟩ := paired_cons.mp h
    cases ms with
    | nil =>
      simp only [enforceAdjacentToolResultPairs]
      have hnone : missingIds m none = [] := missingIds_of_paired hm
      rw [if_pos (List.isEmpty_iff.mpr hnone)]
    | cons next rest =>
      simp only [enforceAdjacentToolResultPairs]
      have hnone : missingIds m (some next) = [] := missingIds_of_paired hm
      rw [if_pos (List.isEmpty_iff.mpr hnone), ih hms]

theorem reorder_of_follows (h : Follows (CalledOnce ms) ms) : reorderToolResults ms = (ms, 0) := by
  have hnone : misplaced ms = [] := by
    rw [List.eq_nil_iff_forall_not_mem]
    rintro ⟨i, b, t⟩ hmem
    obtain ⟨m, hm, -, hb, ht⟩ := mem_misplaced.mp hmem
    obtain ⟨x, hx, hxt, hne⟩ := misplacedTarget_eq_some.mp ht
    obtain ⟨hc, n, hn, hxn⟩ := toolUseIndex_eq_some.mp hxt
    obtain ⟨j, p, rfl, hp, hxp⟩ := h i m hm x (mem_toolResultIds.mpr ⟨b, hb, hx⟩) hc
    exact hne (by rw [index_unique hc.le hp hxp hn hxn])
  simp only [reorderToolResults, hnone, List.isEmpty_nil, if_true]

theorem insertSynthetic_eq_of_paired (h : Paired ms) : insertSyntheticResults ms = (ms, 0) := by
  unfold insertSyntheticResults
  simp only
  rw [if_pos]
  refine List.isEmpty_iff.mpr (List.filterMap_eq_nil_iff.mpr fun p hp => ?_)
  have hm : p.1 ∈ ms := List.mem_of_getElem? (List.mem_zipIdx_iff_getElem?.mp hp)
  simp only [orphanedUses_of_paired h hm, List.isEmpty_nil, if_true]

/-! ## Phase 2d -/

section Dedup

variable {collision : String → Bool} {kept : String → Option ToolExecutionStatus}

theorem freshIds_append (bs cs : List ContentBlock) :
    freshIds collision (bs ++ cs) = freshIds collision bs ++ freshIds collision cs := by
  simp only [freshIds, List.filterMap_append, List.filter_append]

theorem freshIds_cons (b : ContentBlock) (bs : List ContentBlock) :
    freshIds collision (b :: bs) = freshIds collision [b] ++ freshIds collision bs :=
  freshIds_append [b] bs

theorem freshIds_of_result? {b : ContentBlock} {x : String} {s : ToolExecutionStatus}
    (h : b.result? = some (x, s)) : freshIds collision [b] = if collision x then [] else [x] := by
  have hx := resultId?_of_result? h
  cases hc : collision x <;> simp [freshIds, hx, hc]

theorem freshIds_of_result?_none {b : ContentBlock} (h : b.result? = none) :
    freshIds collision [b] = [] := by
  cases b <;> simp_all [freshIds, ContentBlock.result?, ContentBlock.resultId?]

theorem dedupBlocks_of_fresh {seen : List String} {bs : List ContentBlock}
    (hk : ∀ b ∈ bs, ∀ x s, b.result? = some (x, s) → collision x = false → kept x = some s)
    (hd : ((freshIds collision bs).reverse ++ seen).Nodup) :
    dedupBlocks collision kept seen bs = (bs, (freshIds collision bs).reverse ++ seen) := by
  induction bs generalizing seen with
  | nil => rfl
  | cons b bs ih =>
    have hk' : ∀ c ∈ bs, ∀ x s, c.result? = some (x, s) → collision x = false → kept x = some s :=
      fun c hc => hk c (List.mem_cons_of_mem _ hc)
    rw [freshIds_cons] at hd ⊢
    simp only [dedupBlocks]
    cases hb : b.result? with
    | none =>
      rw [freshIds_of_result?_none hb, List.nil_append] at hd ⊢
      simp only [ih hk' hd]
    | some r =>
      obtain ⟨x, s⟩ := r
      rw [freshIds_of_result? hb] at hd ⊢
      cases hc : collision x with
      | true =>
        simp only [hc, if_true, List.nil_append] at hd ⊢
        rw [ih hk' hd]
      | false =>
        rw [hc, if_neg Bool.false_ne_true, List.reverse_append, List.append_assoc] at hd
        rw [if_neg Bool.false_ne_true, List.reverse_append, List.append_assoc]
        have hnew : x ∉ seen := by
          have := (List.nodup_append.mp hd).2.1
          exact (List.nodup_cons.mp this).1
        have hst : kept x = some s := hk b List.mem_cons_self x s hb hc
        have hrest : dedupBlocks collision kept (x :: seen) bs =
            (bs, (freshIds collision bs).reverse ++ x :: seen) := ih hk' hd
        simp only
        rw [if_neg (by simp [hc]), if_neg (by simp [hnew, hst]), hrest]
        rfl

theorem dedupMessages_of_fresh {seen : List String} {ms : List Message}
    (hk : ∀ m ∈ ms, ∀ b ∈ m.blocks, ∀ x s, b.result? = some (x, s) → collision x = false →
      kept x = some s)
    (hd : ((freshIds collision (ms.flatMap Message.blocks)).reverse ++ seen).Nodup) :
    dedupMessages collision kept seen ms = ms := by
  induction ms generalizing seen with
  | nil => rfl
  | cons m ms ih =>
    rw [List.flatMap_cons, freshIds_append, List.reverse_append, List.append_assoc] at hd
    have hb := dedupBlocks_of_fresh (hk m List.mem_cons_self) (List.nodup_append.mp hd).2.1
    rw [dedupMessages, hb, ih (fun n hn => hk n (List.mem_cons_of_mem _ hn)) hd]
    congr 1
    exact mapBlocks_eq_self rfl

end Dedup

theorem map_fst_results (ms : List Message) :
    ((results ms).filter fun r => !isCollision ms r.1).map Prod.fst =
      freshIds (isCollision ms) (ms.flatMap Message.blocks) := by
  have hfst : ∀ b : ContentBlock, b.result?.map Prod.fst = b.resultId? := fun b => by
    cases b <;> rfl
  unfold freshIds results
  rw [← List.filterMap_flatMap, ← funext hfst, ← List.map_filterMap, List.filter_map]
  rfl

theorem keptStatuses_of_single
    (h : (freshIds (isCollision ms) (ms.flatMap Message.blocks)).Nodup) {m : Message} (hm : m ∈ ms)
    {b : ContentBlock} (hb : b ∈ m.blocks) {x : String} {s : ToolExecutionStatus}
    (hx : b.result? = some (x, s)) (hc : isCollision ms x = false) :
    keptStatuses ms x = some s := by
  obtain ⟨t, ht⟩ := exists_keptStatus hc hm
    (mem_toolResultIds.mpr ⟨b, hb, resultId?_of_result? hx⟩)
  have hmem : (x, s) ∈ (results ms).filter fun r => !isCollision ms r.1 :=
    List.mem_filter.mpr ⟨List.mem_flatMap.mpr ⟨m, hm, List.mem_filterMap.mpr ⟨b, hb, hx⟩⟩, by simp [hc]⟩
  rw [← map_fst_results] at h
  have heq : (x, t) = (x, s) := List.inj_on_of_nodup_map h (mem_of_keptStatus ht) hmem rfl
  have hst : t = s := congrArg Prod.snd heq
  rw [ht, hst]

theorem deduplicate_eq_pair (ms : List Message) :
    deduplicateToolResults ms =
      ((dedupMessages (isCollision ms) (keptStatuses ms) [] ms).filter Message.nonEmpty,
        (ms.map fun m => m.blocks.length).sum -
          ((dedupMessages (isCollision ms) (keptStatuses ms) [] ms).map fun m =>
            m.blocks.length).sum) := rfl

theorem deduplicate_of_single (he : ∀ m ∈ ms, m.nonEmpty = true)
    (h : (freshIds (isCollision ms) (ms.flatMap Message.blocks)).Nodup) :
    deduplicateToolResults ms = (ms, 0) := by
  have hself : dedupMessages (isCollision ms) (keptStatuses ms) [] ms = ms := by
    refine dedupMessages_of_fresh (fun m hm b hb x s => keptStatuses_of_single h hm hb) ?_
    rw [List.append_nil]
    exact List.nodup_reverse.mpr h
  rw [deduplicate_eq_pair, hself, List.filter_eq_self.mpr he, Nat.sub_self]

/-! ## Phase 3 and the last pass -/

theorem mergeLoop_of_apart {last : Message}
    (h : (last :: ms).IsChain fun last m => mergeable last m = false) :
    mergeLoop last ms = (last :: ms, 0) := by
  induction ms generalizing last with
  | nil => rfl
  | cons m ms ih =>
    obtain ⟨hm, hms⟩ := List.isChain_cons_cons.mp h
    simp only [mergeLoop]
    rw [if_neg (by simp [hm]), ih hms]

theorem mergeConsecutive_of_apart (h : ms.IsChain fun last m => mergeable last m = false) :
    mergeConsecutive ms = (ms, 0) := by
  cases ms with
  | nil => rfl
  | cons m ms => exact mergeLoop_of_apart h

theorem coalesceLoop_of_apart {out bs : List ContentBlock}
    (h : (out.reverse ++ bs).IsChain fun a b => bothTexts a b = false) :
    coalesceLoop out bs = out.reverse ++ bs := by
  fun_induction coalesceLoop out bs with
  | case1 out => rw [List.append_nil]
  | case2 existing pm out t pm' bs ih =>
    -- the two texts stand next to each other
    exfalso
    rw [List.reverse_cons, List.append_assoc, List.singleton_append] at h
    have := (List.isChain_append.mp h).2.1
    rw [List.isChain_cons_cons] at this
    exact Bool.noConfusion this.1
  | case3 out b bs _ ih =>
    rw [ih (by simpa using h)]
    simp

theorem coalesce_of_apart {bs : List ContentBlock}
    (h : bs.IsChain fun a b => bothTexts a b = false) : coalesceAdjacentTextBlocks bs = bs := by
  unfold coalesceAdjacentTextBlocks
  split_ifs
  · rfl
  · exact coalesceLoop_of_apart h

/-- **A normal history comes back as it is.** -/
theorem validateAndRepair_of_normal (h : Normal ms) :
    validateAndRepairWithStats ms = (ms, ⟨0, 0, 0, 0, 0, 0, 0, 0⟩) := by
  have hvisible : removeAbortedAssistantMessages ms = ms := by
    refine List.filter_eq_self.mpr fun m hm => ?_
    by_cases hrole : m.role = .assistant
    · simp [h.visible m hm hrole]
    · simp [hrole]
  have hcoalesced : ms.map (Message.mapBlocks coalesceAdjacentTextBlocks) = ms := by
    conv_rhs => rw [← List.map_id ms]
    exact List.map_congr_left fun m hm => mapBlocks_eq_self (coalesce_of_apart (h.coalesced m hm))
  simp only [validateAndRepairWithStats,
    dropOrphans_of_normal (fun m hm x hx => mem_collectToolUseIds (h.answers m hm x hx)) h.nonEmpty,
    rescue_of_normal h.inUser, enforce_of_paired h.paired, reorder_of_follows h.follows,
    insertSynthetic_eq_of_paired h.paired, deduplicate_of_single h.nonEmpty h.single, hvisible,
    mergeConsecutive_of_apart h.unmerged, hcoalesced, Nat.sub_self, Nat.add_zero]

end LibreFang.Session
