import LibreFang.Session.Replies

/-!
# Which result of a call survives

The one result the repair keeps for an id called once, and when it is a genuine one.

* `isTerminal`, `Genuine`: outcomes of a call, and those the history itself reports.
* `keptResult`: the first terminal result, or else the first.
* **`results_validateAndRepair`**: the output holds the kept result of the reading order.
* **`keepsGenuine_iff`**: when that is a genuine one.
-/

namespace LibreFang.Session

variable {ms : List Message} {x : String}

/-- The status of a result; other blocks have none. -/
def ContentBlock.status? (b : ContentBlock) : Option ToolExecutionStatus := b.result?.map Prod.snd

/-- A result that reports the outcome of its call. -/
def ContentBlock.isTerminal (b : ContentBlock) : Bool :=
  match b.status? with
  | some s => s != .waitingApproval
  | none => false

/-- `ContentBlock.isTerminal`, under a role. -/
def isTerminal (rb : Role × ContentBlock) : Bool := rb.2.isTerminal

/-- A result for `x` the history reports itself: terminal, in a user or an assistant message, and
not a placeholder. -/
def Genuine (ms : List Message) (x : String) (b : ContentBlock) : Prop :=
  (∃ m ∈ ms, (m.role = .user ∨ m.role = .assistant) ∧ b ∈ m.blocks) ∧ b.resultId? = some x ∧
    b.isTerminal = true ∧ b ≠ syntheticResult x

/-- The result phase 2d keeps of those of one id. -/
def keptResult (l : List (Role × ContentBlock)) : Option (Role × ContentBlock) :=
  (l.find? isTerminal).or l.head?

/-! ## Phase 2d -/

section Dedup

theorem keptStatus_eq (rs : List (String × ToolExecutionStatus)) :
    keptStatus x rs =
      let statuses := (rs.filter fun r => r.1 == x).map Prod.snd
      (statuses.find? fun s => s != .waitingApproval).or statuses.head? := by
  induction rs using List.reverseRecOn with
  | nil => rfl
  | append_singleton rs r ih =>
    simp only [keptStatus, List.foldl_append, List.foldl_cons, List.foldl_nil] at ih ⊢
    rw [ih, List.filter_append, List.map_append]
    by_cases hr : r.1 = x
    · rw [if_pos hr, List.filter_cons_of_pos (by simp [hr]), List.filter_nil, List.map_singleton,
        List.find?_append, List.find?_singleton]
      generalize (rs.filter fun r => r.1 == x).map Prod.snd = statuses
      cases hf : statuses.find? fun s => s != .waitingApproval with
      | some s =>
        have hs : (s != .waitingApproval) = true := by simpa using List.find?_some hf
        simp only [Option.some_or]
        rw [if_neg]
        simp only [shouldReplaceKeptToolResult, Bool.and_eq_true, beq_iff_eq, not_and]
        rintro rfl
        cases hs
      | none =>
        cases statuses with
        | nil => simp; split_ifs <;> rfl
        | cons s statuses =>
          have hs : s = .waitingApproval := by
            have := List.find?_eq_none.mp hf s List.mem_cons_self
            simpa using this
          subst hs
          cases hr₂ : r.2 != .waitingApproval <;> simp [shouldReplaceKeptToolResult, hr₂]
    · rw [if_neg hr, List.filter_cons_of_neg (by simp [hr]), List.filter_nil, List.map_nil,
        List.append_nil]

variable {collision : String → Bool} {kept : String → Option ToolExecutionStatus}

/-- A result of `x` with the given status. -/
def hasStatus (x : String) (s : ToolExecutionStatus) (b : ContentBlock) : Bool :=
  b.result? == some (x, s)

variable {s : ToolExecutionStatus}

theorem filter_dedupBlocks (hc : collision x = false)
    (hk : kept x = some s) (seen : List String) (bs : List ContentBlock) :
    (dedupBlocks collision kept seen bs).1.filter (fun b => b.resultId? == some x) =
        (if x ∈ seen then [] else (bs.find? (hasStatus x s)).toList) ∧
      (x ∈ (dedupBlocks collision kept seen bs).2 ↔
        x ∈ seen ∨ (bs.find? (hasStatus x s)).isSome = true) := by
  induction bs generalizing seen with
  | nil => simp [dedupBlocks]
  | cons b bs ih =>
    simp only [dedupBlocks]
    cases hb : b.result? with
    | none =>
      have hid : b.resultId? ≠ some x := fun h => by
        obtain ⟨st, hst⟩ := result?_eq_some.mp h
        rw [hb] at hst
        cases hst
      have hnot : hasStatus x s b = false := by simp [hasStatus, hb]
      simp only [List.find?_cons, hnot]
      rw [List.filter_cons_of_neg (by simp [hid])]
      exact ih seen
    | some r =>
      obtain ⟨y, st⟩ := r
      have hid := resultId?_of_result? hb
      simp only
      by_cases hxy : y = x
      · subst hxy
        rw [if_neg (by simp [hc])]
        by_cases hseen : y ∈ seen
        · rw [if_pos (Or.inl hseen)]
          refine ⟨by rw [(ih seen).1, if_pos hseen, if_pos hseen], ?_⟩
          rw [(ih seen).2]
          simp [hseen]
        · by_cases hst : st = s
          · subst hst
            have hyes : hasStatus y st b = true := by simp [hasStatus, hb]
            rw [if_neg (by simp [hseen, hk])]
            simp only [List.find?_cons, hyes]
            rw [List.filter_cons_of_pos (by simp [hid]), (ih (y :: seen)).1, (ih (y :: seen)).2]
            simp [hseen]
          · have hno : hasStatus y s b = false := by simp [hasStatus, hb, hst]
            rw [if_pos (Or.inr (by simp [hk, hst]))]
            simp only [List.find?_cons, hno]
            exact ih seen
      · have hno : hasStatus x s b = false := by simp [hasStatus, hb, hxy]
        have hneg : ¬(b.resultId? == some x) = true := by simp [hid, hxy]
        simp only [List.find?_cons, hno]
        by_cases hcol : collision y = true
        · rw [if_pos hcol]
          simp only
          rw [List.filter_cons_of_neg (by exact hneg)]
          exact ih seen
        · rw [if_neg hcol]
          by_cases hdrop : y ∈ seen ∨ st ≠ (kept y).getD st
          · rw [if_pos hdrop]
            exact ih seen
          · rw [if_neg hdrop]
            simp only
            rw [List.filter_cons_of_neg (by exact hneg)]
            simpa [Ne.symm hxy] using ih (y :: seen)

theorem find?_roleBlocks (s : ToolExecutionStatus) (m : Message) :
    ((roleBlocks m).filter (isResultFor x)).find? (fun rb => hasStatus x s rb.2) =
      (m.blocks.find? (hasStatus x s)).map (Prod.mk m.role) := by
  have hand : (fun b : ContentBlock => decide ((b.resultId? == some x) = true ∧ hasStatus x s b = true)) =
      hasStatus x s := by
    funext b
    cases hb : hasStatus x s b with
    | false => simp
    | true =>
      have hbx : b.result? = some (x, s) := by simpa [hasStatus] using hb
      simp [resultId?_of_result? hbx]
  rw [roleBlocks_isResultFor, List.find?_map, List.find?_filter]
  congr 1
  exact congrArg (fun p => m.blocks.find? p) hand

theorem select_dedupMessages_result (hc : collision x = false)
    (hk : kept x = some s) (seen : List String) (ms : List Message) :
    select (isResultFor x) (dedupMessages collision kept seen ms) =
      if x ∈ seen then []
      else ((select (isResultFor x) ms).find? fun rb => hasStatus x s rb.2).toList := by
  induction ms generalizing seen with
  | nil => simp [dedupMessages]
  | cons m ms ih =>
    obtain ⟨hfilter, hseen⟩ := filter_dedupBlocks hc hk seen m.blocks
    have hm : (roleBlocks (dedupedMessage collision kept seen m)).filter (isResultFor x) =
        (if x ∈ seen then [] else (m.blocks.find? (hasStatus x s)).toList).map (Prod.mk m.role) := by
      rw [roleBlocks_isResultFor, dedupedMessage_blocks, hfilter, dedupedMessage, mapBlocks_role]
    show select (isResultFor x) (dedupedMessage collision kept seen m :: _) = _
    rw [select_cons, hm, ih, select_cons, List.find?_append, find?_roleBlocks]
    by_cases hx : x ∈ seen
    · rw [if_pos hx, if_pos hx, if_pos (hseen.mpr (Or.inl hx))]
      rfl
    · rw [if_neg hx, if_neg hx]
      cases hf : m.blocks.find? (hasStatus x s) with
      | none =>
        rw [if_neg fun h => (hseen.mp h).elim hx (by simp [hf])]
        rfl
      | some b =>
        rw [if_pos (hseen.mpr (Or.inr (by simp [hf])))]
        rfl

theorem filterMap_status_roleBlocks (m : Message) :
    ((roleBlocks m).filter (isResultFor x)).filterMap (fun rb => rb.2.status?) =
      ((m.blocks.filterMap ContentBlock.result?).filter fun r => r.1 == x).map Prod.snd := by
  rw [roleBlocks_isResultFor, List.filterMap_map]
  induction m.blocks with
  | nil => rfl
  | cons b bs ih =>
    cases hb : b.result? with
    | none =>
      have hid : b.resultId? = none := by
        cases b <;> simp_all [ContentBlock.result?, ContentBlock.resultId?]
      rw [List.filter_cons_of_neg (by simp [hid]), List.filterMap_cons_none hb, ih]
    | some r =>
      have hid := resultId?_of_result? hb
      rw [List.filterMap_cons_some hb]
      by_cases hr : r.1 = x
      · rw [List.filter_cons_of_pos (by simp [hid, hr]), List.filter_cons_of_pos (by simp [hr]),
          List.map_cons, ← ih]
        exact List.filterMap_cons_some (by simp [ContentBlock.status?, hb])
      · rw [List.filter_cons_of_neg (by simp [hid, hr]), List.filter_cons_of_neg (by simp [hr]), ih]

theorem statuses_eq (ms : List Message) :
    ((results ms).filter fun r => r.1 == x).map Prod.snd =
      (select (isResultFor x) ms).filterMap fun rb => rb.2.status? := by
  unfold results
  induction ms with
  | nil => rfl
  | cons m ms ih =>
    rw [List.flatMap_cons, List.filter_append, List.map_append, ih, select_cons,
      List.filterMap_append, filterMap_status_roleBlocks]

theorem keptStatuses_eq (hc : isCollision ms x = false) :
    keptStatuses ms x =
      let statuses := (select (isResultFor x) ms).filterMap fun rb => rb.2.status?
      (statuses.find? fun s => s != .waitingApproval).or statuses.head? := by
  have hdrop : (((results ms).filter fun r => !isCollision ms r.1).filter fun r => r.1 == x) =
      (results ms).filter fun r => r.1 == x := by
    rw [List.filter_filter]
    refine List.filter_congr fun r _ => ?_
    by_cases hr : r.1 = x
    · simp [hr, hc]
    · simp [hr]
  rw [keptStatuses, keptStatus_eq, hdrop, statuses_eq]

variable {b : ContentBlock}

theorem status?_of_resultId? (h : b.resultId? = some x) :
    ∃ s, b.status? = some s ∧ b.result? = some (x, s) := by
  obtain ⟨s, hs⟩ := result?_eq_some.mp h
  exact ⟨s, by rw [ContentBlock.status?, hs]; rfl, hs⟩

theorem find?_kept {l : List (Role × ContentBlock)} (hl : ∀ rb ∈ l, isResultFor x rb = true)
    (hs : ((l.filterMap fun rb => rb.2.status?).find? fun s => s != .waitingApproval).or
      (l.filterMap fun rb => rb.2.status?).head? = some s) :
    l.find? (fun rb => hasStatus x s rb.2) = keptResult l := by
  have hresult : ∀ rb ∈ l, ∃ st, rb.2.status? = some st ∧ rb.2.result? = some (x, st) :=
    fun rb hrb => status?_of_resultId? (by simpa [isResultFor] using hl rb hrb)
  induction l with
  | nil => rfl
  | cons rb l ih =>
    obtain ⟨st, hst, hres⟩ := hresult rb List.mem_cons_self
    rw [List.filterMap_cons_some (f := fun rb : Role × ContentBlock => rb.2.status?) hst] at hs
    unfold keptResult at ih ⊢
    by_cases hterm : st = .waitingApproval
    · subst hterm
      have hrb : isTerminal rb = false := by simp [isTerminal, ContentBlock.isTerminal, hst]
      rw [List.find?_cons_of_neg (by simp)] at hs
      rw [List.find?_cons_of_neg (p := isTerminal) (by simp [hrb])]
      cases hf : (l.filterMap fun rb => rb.2.status?).find? fun s => s != .waitingApproval with
      | some s' =>
        -- a terminal result comes later
        obtain rfl : s' = s := by simpa [hf] using hs
        have hs' : (s' != .waitingApproval) = true := by simpa using List.find?_some hf
        have hne : hasStatus x s' rb.2 = false := by
          simp only [hasStatus, hres, beq_eq_false_iff_ne, ne_eq, Option.some.injEq, Prod.mk.injEq,
            true_and]
          rintro rfl
          cases hs'
        rw [List.find?_cons_of_neg (by simp [hne]), ih (fun r hr => hl r (List.mem_cons_of_mem _ hr))
          (by rw [hf]; rfl) fun r hr => hresult r (List.mem_cons_of_mem _ hr)]
        have hsome : (l.find? isTerminal).isSome = true := by
          obtain ⟨r, hr, hrs⟩ := List.mem_filterMap.mp (List.mem_of_find?_eq_some hf)
          rw [List.find?_isSome]
          exact ⟨r, hr, by simpa [isTerminal, ContentBlock.isTerminal, hrs] using hs'⟩
        obtain ⟨r, hr⟩ := Option.isSome_iff_exists.mp hsome
        rw [hr]
        rfl
      | none =>
        obtain rfl : ToolExecutionStatus.waitingApproval = s := by simpa [hf] using hs
        have hnone : l.find? isTerminal = none := by
          rw [List.find?_eq_none] at hf ⊢
          intro r hr
          obtain ⟨st, hst, -⟩ := hresult r (List.mem_cons_of_mem _ hr)
          have := hf st (List.mem_filterMap.mpr ⟨r, hr, hst⟩)
          simpa [isTerminal, ContentBlock.isTerminal, hst] using this
        rw [List.find?_cons_of_pos (by simp [hasStatus, hres]), hnone]
        rfl
    · rw [List.find?_cons_of_pos (by simpa using hterm)] at hs
      obtain rfl : st = s := by simpa using hs
      rw [List.find?_cons_of_pos (by simp [hasStatus, hres]),
        List.find?_cons_of_pos (p := isTerminal) (by simpa [isTerminal, ContentBlock.isTerminal, hst] using hterm)]
      rfl

theorem select_eq_nil_iff : select (isResultFor x) ms = [] ↔ ∀ m ∈ ms, x ∉ toolResultIds m := by
  induction ms with
  | nil => simp
  | cons m ms ih =>
    rw [select_cons, List.append_eq_nil_iff, ih, List.forall_mem_cons, mem_toolResultIds_iff, not_not]

theorem select_deduplicate_result (hc : isCollision ms x = false) :
    select (isResultFor x) (deduplicateToolResults ms).1 =
      (keptResult (select (isResultFor x) ms)).toList := by
  rw [deduplicate_eq, select_filter_nonEmpty]
  have hl : ∀ rb ∈ select (isResultFor x) ms, isResultFor x rb = true :=
    fun rb hrb => (List.mem_filter.mp hrb).2
  have hkept := keptStatuses_eq (x := x) hc
  cases hs : keptStatuses ms x with
  | some s =>
    rw [select_dedupMessages_result hc hs, if_neg List.not_mem_nil, find?_kept hl (hkept ▸ hs)]
  | none =>
    -- without a status there is no result to keep
    have hnil : select (isResultFor x) ms = [] := by
      by_contra hne
      obtain ⟨rb, hrb⟩ := List.exists_mem_of_ne_nil _ hne
      obtain ⟨st, hst, -⟩ := status?_of_resultId? (by simpa [isResultFor] using hl rb hrb)
      have hmem : st ∈ (select (isResultFor x) ms).filterMap fun rb => rb.2.status? :=
        List.mem_filterMap.mpr ⟨rb, hrb, hst⟩
      rw [hkept] at hs
      simp only [Option.or_eq_none_iff, List.head?_eq_none_iff] at hs
      rw [hs.2] at hmem
      simp at hmem
    have hanswers := answersOnly_of_shrink (U := fun y => y ≠ x)
      (shrink_dedupMessages (isCollision ms) (keptStatuses ms) [] ms)
      fun m hm y hy hyx => select_eq_nil_iff.mp hnil m hm (hyx ▸ hy)
    rw [select_eq_nil_iff.mpr fun m hm hx => hanswers m hm x hx rfl, hnil]
    rfl

end Dedup

/-! ## The passes around phase 2d -/

theorem select_removeAborted_result (ms : List Message) :
    select (isResultFor x) (removeAbortedAssistantMessages ms) = select (isResultFor x) ms := by
  refine select_filter fun m _ hm => ?_
  simp only [Bool.not_eq_false', Bool.and_eq_true] at hm
  refine List.filter_eq_nil_iff.mpr fun rb hrb => ?_
  obtain ⟨b, hb, rfl⟩ := List.mem_map.mp hrb
  have hblank := hm.2
  rw [isEmptyOrBlankContent_eq, List.all_eq_true] at hblank
  have := hblank b hb
  cases b <;> simp_all [blankBlock, isResultFor, ContentBlock.resultId?]

/-- The results of the history phase 2a1 works on, in the order in which phase 2d meets them: those
of system messages before the call, the reply right behind the call or else the placeholder, those
of the other user messages, those of later system messages. -/
def readingOrder (x : String) (pre post : List Message) : List (Role × ContentBlock) :=
  select (isResultUnder .system x) pre ++ completed x (replyIn x post) ++
    (select (isResultUnder .user x) pre ++ select (isResultUnder .user x) post.tail) ++
    select (isResultUnder .system x) post

theorem count_idsNeeded {pre post : List Message} {c : Message}
    (hcall : CalledOnce (pre ++ c :: post) x) (hx : x ∈ idsNeeded c) :
    (idsNeeded c).count x = 1 ∧ x ∉ calls pre ∧ x ∉ calls post := by
  have hpos : 0 < (idsNeeded c).count x := List.count_pos_iff.mpr hx
  unfold CalledOnce calls at hcall
  rw [List.flatMap_append, List.flatMap_cons, List.count_append, List.count_append] at hcall
  have hnone : ∀ l : List Message, (l.flatMap idsNeeded).count x = 0 → x ∉ calls l :=
    fun l => List.count_eq_zero.mp
  exact ⟨by omega, hnone pre (by omega), hnone post (by omega)⟩

theorem results_of_rescued {rescued pre post : List Message} {c : Message}
    (hms : rescued = pre ++ c :: post) (hcall : CalledOnce rescued x) (hx : x ∈ idsNeeded c)
    (hno : ∀ m ∈ rescued, m.role = .assistant → x ∉ toolResultIds m) :
    select (isResultFor x) ((mergeConsecutive (removeAbortedAssistantMessages
        (deduplicateToolResults (insertSyntheticResults (reorderToolResults
          (enforceAdjacentToolResultPairs rescued).1).1).1).1)).1.map
            (Message.mapBlocks coalesceAdjacentTextBlocks)) =
      (keptResult (readingOrder x pre post)).toList := by
  have hpaired := paired_enforce rescued
  have hcalls : calls (enforceAdjacentToolResultPairs rescued).1 = calls rescued :=
    calls_of_select (select_enforce rescued)
  have hno' : ∀ m ∈ (enforceAdjacentToolResultPairs rescued).1, m.role = .assistant →
      x ∉ toolResultIds m := fun m hm hrole =>
    (mem_enforce hm).elim (fun hm => hno m hm hrole) fun h => by simp [h] at hrole
  subst hms
  obtain ⟨hcount, hpre, hpost⟩ := count_idsNeeded hcall hx
  obtain ⟨⟨pre', n, post', henforce, hn, hreply, hselect, hsystem, huser⟩⟩ :=
    enforce_around (mem_idsNeeded.mp hx).1 hcount hpost pre hpre
  rw [henforce] at hpaired hcalls hno' ⊢
  have hcall' : CalledOnce (pre' ++ c :: n :: post') x := by
    unfold CalledOnce
    rw [hcalls]
    exact hcall
  have hreordered := select_reorder_around hpaired hcall' hx hn hno'
  have hpairedR := paired_reorder hpaired
  have hcallsR := calls_reorder hpaired
  generalize (reorderToolResults (pre' ++ c :: n :: post')).1 = reordered at *
  have hcollision : isCollision reordered x = false := by
    refine decide_eq_false ?_
    show ¬1 < (calls reordered).count x
    rw [hcallsR]
    exact hcall'.le.not_gt
  rw [select_coalesce (fun _ _ _ => rfl), insertSynthetic_of_paired hpairedR]
  have hmerge : ∀ l, select (isResultFor x) (mergeConsecutive l).1 = select (isResultFor x) l :=
    fun l => by rw [select, stream_mergeConsecutive, select]
  rw [hmerge, select_removeAborted_result, select_deduplicate_result hcollision, hreordered, hreply,
    hselect _ (seesOnly_isResultUnder _ x), hselect _ (seesOnly_isResultUnder _ x), hsystem, huser]
  rfl

/-! ## The history phase 2a1 works on -/

/-- The history after phases 2 and 2a. -/
def rescuedHistory (ms : List Message) : List Message :=
  (rescueMisplacedToolResults (dropOrphans (collectToolUseIds ms) ms).1).1

theorem no_assistant_results (ms : List Message) :
    ∀ m ∈ (rescueMisplacedToolResults ms).1, m.role = .assistant → toolResultIds m = [] := by
  have hstrip : ∀ m ∈ ms.map stripResults, m.role = .assistant → toolResultIds m = [] := by
    intro m' hm' hrole
    obtain ⟨m, hm, rfl⟩ := List.mem_map.mp hm'
    by_cases h : m.role = .assistant
    · exact toolResultIds_stripResults h
    · rw [stripResults, if_neg h] at hrole
      exact absurd hrole h
  unfold rescueMisplacedToolResults
  simp only
  split_ifs with he
  · intro m hm hrole
    obtain ⟨i, hi⟩ := List.mem_iff_getElem?.mp hm
    have hnone := List.filterMap_eq_nil_iff.mp (List.isEmpty_iff.mp he) (m, i)
      (List.mk_mem_zipIdx_iff_getElem?.mpr hi)
    rw [toolResultIds_eq_nil_iff]
    simpa [misplacedIn, hrole] using hnone
  · intro m hm
    replace hm := List.mem_of_mem_filter hm
    generalize toRescue ms = l at hm
    induction l with
    | nil => exact hstrip m hm
    | cons r l ih =>
      rcases mem_placeResults hm with h | h
      · exact ih h
      · simp [h]

theorem select_dropOrphans_result {ids : List String} (hx : x ∈ ids) (ms : List Message) :
    select (isResultFor x) (dropOrphans ids ms).1 = select (isResultFor x) ms := by
  show select (isResultFor x) (List.filter _ _) = _
  rw [select_filter_nonEmpty]
  refine select_map fun m _ => roleBlocks_filter (fun _ => rfl) fun b hb => ?_
  cases b with
  | toolResult id n c e st a =>
    obtain rfl : id = x := by simpa [isResultFor, ContentBlock.resultId?] using hb
    exact decide_eq_true hx
  | _ => rfl

theorem mem_toRescue (hb : b.resultId? = some x) :
    (∃ r ∈ toRescue ms, b ∈ r.2) ↔ ∃ m ∈ ms, m.role = .assistant ∧ b ∈ m.blocks := by
  constructor
  · rintro ⟨r, hr, hbr⟩
    obtain ⟨⟨m, i⟩, hmi, hr⟩ := List.mem_filterMap.mp hr
    simp only at hr
    split_ifs at hr
    obtain rfl := Option.some.inj hr
    have hbr : b ∈ misplacedIn m := hbr
    unfold misplacedIn at hbr
    split_ifs at hbr with hrole
    · exact ⟨m, List.mem_of_getElem? (List.mem_zipIdx_iff_getElem?.mp hmi), hrole,
        List.mem_of_mem_filter hbr⟩
    · simp at hbr
  · rintro ⟨m, hm, hrole, hbm⟩
    obtain ⟨i, hi⟩ := List.mem_iff_getElem?.mp hm
    have hmem : b ∈ misplacedIn m := by
      rw [misplacedIn, if_pos hrole]
      exact List.mem_filter.mpr ⟨hbm, by simp [hb]⟩
    refine ⟨(i, misplacedIn m), List.mem_filterMap.mpr ⟨(m, i),
      List.mk_mem_zipIdx_iff_getElem?.mpr hi, ?_⟩, hmem⟩
    simp only
    rw [if_neg (by simpa using List.ne_nil_of_mem hmem)]

theorem mem_select_user (hb : b.resultId? = some x) :
    (Role.user, b) ∈ select (isResultUnder .user x) ms ↔ ∃ m ∈ ms, m.role = .user ∧ b ∈ m.blocks := by
  simp only [select, stream, List.mem_filter, List.mem_flatMap, mem_roleBlocks]
  constructor
  · rintro ⟨⟨m, hm, hrole, hbm⟩, -⟩
    refine ⟨m, hm, hrole, ?_⟩
    obtain ⟨role, content, pinned, timestamp⟩ := m
    cases content with
    | text s =>
      obtain rfl : b = .text s none := by simpa [contentToBlocks] using hbm
      cases hb
    | blocks bs => exact hbm
  · rintro ⟨m, hm, hrole, hbm⟩
    refine ⟨⟨m, hm, hrole, ?_⟩, by simp [isResultUnder, isResultFor, hb]⟩
    obtain ⟨role, content, pinned, timestamp⟩ := m
    cases content with
    | text s => simp [Message.blocks] at hbm
    | blocks bs => exact hbm

theorem mem_select_rescue (hb : b.resultId? = some x) :
    (Role.user, b) ∈ select (isResultUnder .user x) (rescueMisplacedToolResults ms).1 ↔
      ∃ m ∈ ms, (m.role = .user ∨ m.role = .assistant) ∧ b ∈ m.blocks := by
  have hsplit : (∃ m ∈ ms, (m.role = .user ∨ m.role = .assistant) ∧ b ∈ m.blocks) ↔
      (Role.user, b) ∈ select (isResultUnder .user x) ms ∨ ∃ r ∈ toRescue ms, b ∈ r.2 := by
    rw [mem_select_user hb, mem_toRescue hb, ← exists_or]
    refine exists_congr fun m => ?_
    tauto
  rw [hsplit]
  unfold rescueMisplacedToolResults
  simp only
  split_ifs with he
  · rw [List.isEmpty_iff] at he
    simp [he]
  · have hstrip : select (isResultUnder .user x) (ms.map stripResults) =
        select (isResultUnder .user x) ms := by
      refine select_map fun m _ => ?_
      unfold stripResults
      split_ifs with hrole
      · rw [roleBlocks_isResultUnder, roleBlocks_isResultUnder, mapBlocks_role, hrole]
        rfl
      · rfl
    have hnonEmpty : ∀ l : List Message, select (isResultUnder .user x) (l.filter Message.nonEmpty) =
        select (isResultUnder .user x) l := fun l => by
      refine select_filter fun m _ hm => ?_
      rw [roleBlocks_isResultUnder, roleBlocks_isResultFor_eq_nil, ite_self]
      intro hx
      rw [nonEmpty_of_toolResult hx] at hm
      cases hm
    rw [hnonEmpty, ← hstrip]
    generalize toRescue ms = l
    induction l with
    | nil => simp
    | cons r l ih =>
      rw [List.foldr_cons]
      generalize l.foldr _ (ms.map stripResults) = acc at ih ⊢
      show (Role.user, b) ∈ select _ (placeResults acc (r.1 + 1) r.2) ↔ _
      obtain ⟨l₁, l₂, h, h'⟩ := select_placeResults (p := isResultUnder .user x) acc (r.1 + 1) r.2
      have hown : (Role.user, b) ∈ (r.2.map (Prod.mk Role.user)).filter (isResultUnder .user x) ↔
          b ∈ r.2 := by
        simp [List.mem_filter, isResultUnder, isResultFor, hb]
      rw [h] at ih
      rw [h', List.mem_append, List.mem_append, hown, List.exists_mem_cons_iff]
      rw [List.mem_append] at ih
      refine (or_right_comm.trans (or_congr_left ih)).trans ?_
      rw [or_right_comm, or_assoc]

theorem calls_rescuedHistory (ms : List Message) : calls (rescuedHistory ms) = calls ms :=
  calls_of_select (by rw [rescuedHistory, select_rescue, select_dropOrphans])

theorem mem_select_rescuedHistory (hx : x ∈ calls ms) (hb : b.resultId? = some x) :
    (Role.user, b) ∈ select (isResultUnder .user x) (rescuedHistory ms) ↔
      ∃ m ∈ ms, (m.role = .user ∨ m.role = .assistant) ∧ b ∈ m.blocks := by
  have hmem : ∀ (l : List Message) (r : Role), (r, b) ∈ select (isResultFor x) l ↔
      ∃ m ∈ l, m.role = r ∧ b ∈ m.blocks := by
    intro l r
    simp only [select, stream, List.mem_filter, List.mem_flatMap]
    constructor
    · rintro ⟨⟨m, hm, hrb⟩, hres⟩
      have hrb' : (r, b) ∈ (roleBlocks m).filter (isResultFor x) := List.mem_filter.mpr ⟨hrb, hres⟩
      rw [roleBlocks_isResultFor] at hrb'
      obtain ⟨b', hb', he⟩ := List.mem_map.mp hrb'
      obtain ⟨hr, rfl⟩ := Prod.mk.inj he
      exact ⟨m, hm, hr, List.mem_of_mem_filter hb'⟩
    · rintro ⟨m, hm, hr, hbm⟩
      have hrb : (r, b) ∈ (roleBlocks m).filter (isResultFor x) := by
        rw [roleBlocks_isResultFor, hr]
        exact List.mem_map.mpr ⟨b, List.mem_filter.mpr ⟨hbm, by simp [hb]⟩, rfl⟩
      exact ⟨⟨m, hm, List.mem_of_mem_filter hrb⟩, (List.mem_filter.mp hrb).2⟩
  have hsplit : ∀ l : List Message, (∃ m ∈ l, (m.role = .user ∨ m.role = .assistant) ∧ b ∈ m.blocks) ↔
      (Role.user, b) ∈ select (isResultFor x) l ∨ (Role.assistant, b) ∈ select (isResultFor x) l := by
    intro l
    rw [hmem, hmem, ← exists_or]
    refine exists_congr fun m => ?_
    rw [or_and_right, and_or_left]
  rw [rescuedHistory, mem_select_rescue hb, hsplit, hsplit,
    select_dropOrphans_result (mem_collectToolUseIds hx)]

/-! ## The whole repair -/

/-- The output holds one result for `x`, a genuine one. -/
def KeepsGenuine (ms : List Message) (x : String) : Prop :=
  ∃ r b, select (isResultFor x) (validateAndRepair ms) = [(r, b)] ∧ Genuine ms x b

/-- When system messages hold no outcome of the call at `t`: the message right behind the call
answers it, and its first outcome in user messages, read from there, is not a placeholder. When a
system message before the call holds one, that is genuine. -/
def GenuineFirst (ms : List Message) (x : String) (t : ℕ) : Prop :=
  match (select (isResultUnder .system x) ((rescuedHistory ms).take t)).find? isTerminal with
  | some rb => Genuine ms x rb.2
  | none =>
    let reply := replyIn x ((rescuedHistory ms).drop (t + 1))
    reply ≠ [] ∧
      (reply ++ (select (isResultUnder .user x) ((rescuedHistory ms).take t) ++
        select (isResultUnder .user x) ((rescuedHistory ms).drop (t + 2)))).find? isTerminal ≠
          some (.user, syntheticResult x)

/-- **The one result in the output** of an id called once. -/
theorem results_validateAndRepair (hcall : CalledOnce ms x) {t : ℕ}
    (ht : toolUseIndex (rescuedHistory ms) x = some t) :
    select (isResultFor x) (validateAndRepair ms) =
      (keptResult (readingOrder x ((rescuedHistory ms).take t)
        ((rescuedHistory ms).drop (t + 1)))).toList := by
  obtain ⟨-, c, hc, hx⟩ := toolUseIndex_eq_some.mp ht
  obtain ⟨hlt, hget⟩ := List.getElem?_eq_some_iff.mp hc
  have hcall' : CalledOnce (rescuedHistory ms) x := by
    unfold CalledOnce
    rw [calls_rescuedHistory]
    exact hcall
  have hms : rescuedHistory ms =
      (rescuedHistory ms).take t ++ c :: (rescuedHistory ms).drop (t + 1) := by
    rw [← hget, List.cons_getElem_drop_succ, List.take_append_drop]
  rw [validateAndRepair_eq]
  refine results_of_rescued hms hcall' hx fun m hm hrole => ?_
  rw [no_assistant_results _ m hm hrole]
  exact List.not_mem_nil

theorem select_user_eq (post : List Message) :
    select (isResultUnder .user x) post =
      replyIn x post ++ select (isResultUnder .user x) post.tail := by
  cases post with
  | nil => rfl
  | cons n post => exact select_append _ [n] post

theorem mem_user_results {t : ℕ} (ht : toolUseIndex ms x = some t) (rb : Role × ContentBlock) :
    rb ∈ replyIn x (ms.drop (t + 1)) ++ (select (isResultUnder .user x) (ms.take t) ++
        select (isResultUnder .user x) (ms.drop (t + 2))) ↔
      rb ∈ select (isResultUnder .user x) ms := by
  obtain ⟨-, c, hc, hx⟩ := toolUseIndex_eq_some.mp ht
  obtain ⟨hlt, hget⟩ := List.getElem?_eq_some_iff.mp hc
  have hms : ms = ms.take t ++ c :: ms.drop (t + 1) := by
    rw [← hget, List.cons_getElem_drop_succ, List.take_append_drop]
  have hcall : (roleBlocks c).filter (isResultUnder .user x) = [] := by
    rw [roleBlocks_isResultUnder, if_neg]
    rw [(mem_idsNeeded.mp hx).1]
    exact Role.noConfusion
  conv_rhs => rw [hms]
  rw [select_append, select_cons, hcall, List.nil_append, select_user_eq (ms.drop (t + 1)),
    List.tail_drop]
  simp only [List.mem_append]
  exact or_left_comm

theorem isTerminal_syntheticResult (r : Role) : isTerminal (r, syntheticResult x) = true := rfl

/-- **A genuine result is kept exactly when it is met first.** -/
theorem keepsGenuine_iff (hcall : CalledOnce ms x) (hg : ∃ b, Genuine ms x b) :
    KeepsGenuine ms x ↔ ∃ t, toolUseIndex (rescuedHistory ms) x = some t ∧ GenuineFirst ms x t := by
  have hx : x ∈ calls ms := List.count_pos_iff.mp (by rw [hcall]; exact Nat.one_pos)
  obtain ⟨t, ht⟩ : ∃ t, toolUseIndex (rescuedHistory ms) x = some t := by
    refine exists_toolUseIndex ?_
    unfold CalledOnce
    rw [calls_rescuedHistory]
    exact hcall
  have hresults := results_validateAndRepair hcall ht
  have hunique : (∃ t, toolUseIndex (rescuedHistory ms) x = some t ∧ GenuineFirst ms x t) ↔
      GenuineFirst ms x t := by
    constructor
    · rintro ⟨s, hs, h⟩
      obtain rfl : s = t := by simpa [ht] using hs.symm
      exact h
    · exact fun h => ⟨t, ht, h⟩
  rw [hunique]
  -- the kept result decides
  have hkept : ∀ rb, keptResult (readingOrder x ((rescuedHistory ms).take t)
      ((rescuedHistory ms).drop (t + 1))) = some rb → (KeepsGenuine ms x ↔ Genuine ms x rb.2) := by
    intro rb hrb
    unfold KeepsGenuine
    rw [hresults, hrb]
    constructor
    · rintro ⟨r, b, he, hb⟩
      obtain rfl : rb = (r, b) := by simpa using he
      exact hb
    · exact fun hb => ⟨rb.1, rb.2, rfl, hb⟩
  unfold GenuineFirst
  unfold keptResult readingOrder at hkept
  cases hsys : (select (isResultUnder .system x) ((rescuedHistory ms).take t)).find? isTerminal with
  | some rb =>
    refine hkept rb ?_
    rw [List.append_assoc, List.append_assoc, List.find?_append, hsys]
    rfl
  | none =>
    simp only [List.append_assoc, List.find?_append, hsys, Option.none_or] at hkept ⊢
    by_cases hreply : replyIn x ((rescuedHistory ms).drop (t + 1)) = []
    · -- the placeholder is met first
      rw [completed, if_pos hreply, List.find?_cons_of_pos (isTerminal_syntheticResult _)] at hkept
      rw [hkept _ rfl]
      exact iff_of_false (fun h => h.2.2.2 rfl) fun h => h.1 hreply
    · rw [completed, if_neg hreply] at hkept
      -- a genuine result is met in a user message
      have hmem := mem_user_results ht
      obtain ⟨b, hb, hid, hterm, -⟩ := hg
      have huser := (hmem _).mpr ((mem_select_rescuedHistory hx hid).mpr hb)
      obtain ⟨rb, hfound⟩ := Option.isSome_iff_exists.mp
        (List.find?_isSome (p := isTerminal).mpr ⟨_, huser, hterm⟩)
      have hrb := (hmem rb).mp (List.mem_of_find?_eq_some hfound)
      have hrbterm : isTerminal rb = true := List.find?_some hfound
      rw [List.find?_append, List.find?_append] at hfound
      have hfirst := hfound
      simp only [← Option.or_assoc] at hfirst hkept
      rw [hkept rb (by rw [List.tail_drop, hfirst]; rfl), hfound]
      obtain ⟨r, b'⟩ := rb
      have hsel := (List.mem_filter.mp hrb).2
      simp only [isResultUnder, isResultFor, Bool.and_eq_true, beq_iff_eq] at hsel
      obtain ⟨rfl, hid'⟩ := hsel
      have hfrom := (mem_select_rescuedHistory hx hid').mp hrb
      constructor
      · rintro ⟨-, -, -, hne⟩
        exact ⟨hreply, fun he => hne (congrArg Prod.snd (Option.some.inj he))⟩
      · rintro ⟨-, hne⟩
        exact ⟨hfrom, hid', hrbterm, fun he => hne (congrArg (fun b => some (Role.user, b)) he)⟩

/-- A reply that comes after another user message, as the repair meets it in a running session. -/
def lateReply : List Message :=
  [⟨.user, .text "Search for rust", false, none⟩,
   ⟨.assistant, .blocks [.toolUse "tu-reorder" "web_search" ⟨"query"⟩ none], false, none⟩,
   ⟨.user, .text "While you search, I have another question", false, none⟩,
   ⟨.user, .blocks [.toolResult "tu-reorder" "" "Search results" false .completed none], false, none⟩,
   ⟨.assistant, .text "Here are results", false, none⟩]

theorem lateReply_genuine : Genuine lateReply "tu-reorder"
    (.toolResult "tu-reorder" "" "Search results" false .completed none) :=
  ⟨by decide, rfl, rfl, by decide⟩

/-- **The genuine result of a late reply is lost**: the output holds the placeholder. -/
theorem lateReply_lost : CalledOnce lateReply "tu-reorder" ∧
    (∃ b, Genuine lateReply "tu-reorder" b) ∧
      select (isResultFor "tu-reorder") (validateAndRepair lateReply) =
        [(.user, syntheticResult "tu-reorder")] ∧ ¬KeepsGenuine lateReply "tu-reorder" := by
  have hout : select (isResultFor "tu-reorder") (validateAndRepair lateReply) =
      [(.user, syntheticResult "tu-reorder")] := by decide
  refine ⟨by decide, ⟨_, lateReply_genuine⟩, hout, ?_⟩
  rintro ⟨r, b, he, -, -, -, hne⟩
  rw [hout] at he
  simp only [List.cons.injEq, Prod.mk.injEq, and_true] at he
  exact hne he.2.symm

/-- A reply right behind its call. -/
def promptReply : List Message :=
  [⟨.assistant, .blocks [.toolUse "call_1" "read" ⟨"path"⟩ none], false, none⟩,
   ⟨.user, .blocks [.toolResult "call_1" "read" "ok" false .completed none], false, none⟩]

theorem keepsGenuine_promptReply : KeepsGenuine promptReply "call_1" :=
  (keepsGenuine_iff (by decide)
    ⟨.toolResult "call_1" "read" "ok" false .completed none, by decide, rfl, rfl, by decide⟩).mpr
    ⟨0, by decide, And.intro (by decide) (by decide)⟩

end LibreFang.Session
