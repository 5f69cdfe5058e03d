import LibreFang.Session.Contract

/-!
# The content of a repaired history

What the repair leaves of the conversation itself, tool results apart.

* `stream`: the blocks of a history in order, each under the role of its message.
* `significant`: what every pass up to phase 3 keeps, `stream_significant_merged`.
* **`validateAndRepair_preserves`**: calls, images and thinking stay as they are, and every text
  with a visible character is found in the output.
-/

namespace LibreFang.Session

variable {ms : List Message}

/-- The blocks of a message, under its role. -/
def roleBlocks (m : Message) : List (Role × ContentBlock) :=
  (contentToBlocks m.content).map (Prod.mk m.role)

/-- The blocks of the history in order, each under the role of its message. -/
def stream (ms : List Message) : List (Role × ContentBlock) := ms.flatMap roleBlocks

@[simp] theorem stream_nil : stream [] = [] := rfl

@[simp] theorem stream_cons (m : Message) (ms : List Message) :
    stream (m :: ms) = roleBlocks m ++ stream ms := rfl

@[simp] theorem stream_append (ms ms' : List Message) :
    stream (ms ++ ms') = stream ms ++ stream ms' := List.flatMap_append

theorem contentToBlocks_mapBlocks (f : List ContentBlock → List ContentBlock)
    (hf : ∀ s, f [.text s none] = [.text s none]) (m : Message) :
    contentToBlocks (m.mapBlocks f).content = f (contentToBlocks m.content) := by
  obtain ⟨role, content, pinned, timestamp⟩ := m
  cases content with
  | text s => exact (hf s).symm
  | blocks bs => rfl

@[simp] theorem roleBlocks_extend (m : Message) (bs : List ContentBlock) :
    roleBlocks (m.extend bs) = roleBlocks m ++ bs.map (Prod.mk m.role) :=
  List.map_append

@[simp] theorem roleBlocks_resultMessage (bs : List ContentBlock) :
    roleBlocks (resultMessage bs) = bs.map (Prod.mk .user) := rfl

variable {b : ContentBlock} {r : Role} {m : Message}

theorem mem_roleBlocks : (r, b) ∈ roleBlocks m ↔ m.role = r ∧ b ∈ contentToBlocks m.content := by
  simp only [roleBlocks, List.mem_map, Prod.mk.injEq]
  constructor
  · rintro ⟨c, hc, hr, rfl⟩
    exact ⟨hr, hc⟩
  · rintro ⟨hr, hb⟩
    exact ⟨b, hb, hr, rfl⟩

/-! ## What a selection of blocks sees of a pass -/

section Select

variable (p : Role × ContentBlock → Bool)

/-- The selected blocks of the history. -/
def select (ms : List Message) : List (Role × ContentBlock) := (stream ms).filter p

@[simp] theorem select_nil : select p [] = [] := rfl

@[simp] theorem select_cons (m : Message) (ms : List Message) :
    select p (m :: ms) = (roleBlocks m).filter p ++ select p ms := List.filter_append ..

@[simp] theorem select_append (ms ms' : List Message) :
    select p (ms ++ ms') = select p ms ++ select p ms' := by
  simp only [select, stream_append, List.filter_append]

variable {p}

theorem select_filter {keep : Message → Bool}
    (h : ∀ m ∈ ms, keep m = false → (roleBlocks m).filter p = []) :
    select p (ms.filter keep) = select p ms := by
  induction ms with
  | nil => rfl
  | cons m ms ih =>
    have ih := ih fun n hn => h n (List.mem_cons_of_mem _ hn)
    by_cases hm : keep m = true
    · rw [List.filter_cons_of_pos hm, select_cons, select_cons, ih]
    · rw [List.filter_cons_of_neg hm, select_cons, ih,
        h m List.mem_cons_self (Bool.not_eq_true _ ▸ hm), List.nil_append]

theorem select_forall₂ {q : Role × ContentBlock → Bool} {ms' : List Message}
    (h : List.Forall₂ (fun m m' => (roleBlocks m').filter p = (roleBlocks m).filter q) ms ms') :
    select p ms' = select q ms := by
  induction h with
  | nil => rfl
  | cons hm _ ih => rw [select_cons, select_cons, hm, ih]

theorem select_map {f : Message → Message}
    (h : ∀ m ∈ ms, (roleBlocks (f m)).filter p = (roleBlocks m).filter p) :
    select p (ms.map f) = select p ms :=
  select_forall₂ (List.forall₂_map_right_iff.mpr (List.forall₂_same.mpr h))

theorem insertIdx_eq_append {α : Type} (a : α) :
    ∀ {l : List α} {i : ℕ}, i ≤ l.length → l.insertIdx i a = l.take i ++ a :: l.drop i
  | _, 0, _ => rfl
  | b :: l, i + 1, h => by
    rw [List.insertIdx_succ_cons, insertIdx_eq_append a (Nat.le_of_succ_le_succ h)]
    rfl

theorem placeResults_shape (ms : List Message) (pos : ℕ) (bs : List ContentBlock) :
    (∃ l₁ m l₂, ms = l₁ ++ m :: l₂ ∧ l₁.length = pos ∧ m.role = .user ∧
      placeResults ms pos bs = l₁ ++ m.extend bs :: l₂) ∨
    ∃ l₁ l₂, ms = l₁ ++ l₂ ∧ placeResults ms pos bs = l₁ ++ resultMessage bs :: l₂ := by
  unfold placeResults
  cases hm : ms[pos]? with
  | none => exact Or.inr ⟨ms, [], (List.append_nil _).symm, rfl⟩
  | some m =>
    obtain ⟨hlt, hget⟩ := List.getElem?_eq_some_iff.mp hm
    simp only
    split_ifs with hrole
    · refine Or.inl ⟨ms.take pos, m, ms.drop (pos + 1), ?_, List.length_take_of_le hlt.le, hrole, ?_⟩
      · rw [← hget, List.cons_getElem_drop_succ, List.take_append_drop]
      · rw [List.set_eq_take_append_cons_drop, if_pos hlt]
    · exact Or.inr ⟨ms.take pos, ms.drop pos, (List.take_append_drop ..).symm,
        insertIdx_eq_append _ hlt.le⟩

/-- **An insertion adds its own blocks only.** -/
theorem select_placeResults (ms : List Message) (pos : ℕ) (bs : List ContentBlock) :
    ∃ l₁ l₂, select p ms = l₁ ++ l₂ ∧
      select p (placeResults ms pos bs) = l₁ ++ (bs.map (Prod.mk Role.user)).filter p ++ l₂ := by
  rcases placeResults_shape ms pos bs with ⟨l₁, m, l₂, rfl, -, hrole, h⟩ | ⟨l₁, l₂, rfl, h⟩
  · refine ⟨select p l₁ ++ (roleBlocks m).filter p, select p l₂, by simp, ?_⟩
    rw [h]
    simp [hrole]
  · refine ⟨select p l₁, select p l₂, select_append p l₁ l₂, ?_⟩
    rw [h]
    simp

theorem select_placeResults_of_neg {pos : ℕ} {bs : List ContentBlock}
    (hb : ∀ b ∈ bs, p (.user, b) = false) : select p (placeResults ms pos bs) = select p ms := by
  obtain ⟨l₁, l₂, h, h'⟩ := select_placeResults (p := p) ms pos bs
  have hnil : (bs.map (Prod.mk Role.user)).filter p = [] := by
    rw [List.filter_eq_nil_iff]
    rintro rb hrb
    obtain ⟨b, hbs, rfl⟩ := List.mem_map.mp hrb
    simp [hb b hbs]
  rw [h', h, hnil, List.append_nil]

theorem roleBlocks_filter {q : ContentBlock → Bool}
    (ht : ∀ s, q (.text s none) = true) (hq : ∀ b, p (m.role, b) = true → q b = true) :
    (roleBlocks (m.mapBlocks (List.filter q))).filter p = (roleBlocks m).filter p := by
  unfold roleBlocks
  rw [mapBlocks_role, contentToBlocks_mapBlocks _ (fun s => by simp [ht]), List.filter_map,
    List.filter_map, List.filter_filter]
  congr 1
  refine List.filter_congr fun b _ => ?_
  by_cases hb : p (m.role, b) = true
  · simp [hb, hq b hb]
  · simp [hb]

end Select

/-- A block that is neither a result, an unknown block nor a text without visible characters. -/
def significant : Role × ContentBlock → Bool
  | (_, .text t _) => !isBlank t
  | (_, .toolResult ..) | (_, .unknown) => false
  | _ => true

theorem significant_result (h : b.resultId?.isSome = true) : significant (r, b) = false := by
  cases b <;> simp_all [ContentBlock.resultId?, significant]

theorem resultId?_isSome_of_significant
    (h : significant (r, b) = true) : b.resultId?.isSome = false := by
  by_contra hb
  rw [Bool.not_eq_false] at hb
  simp [significant_result hb] at h

theorem significant_of_empty (h : m.nonEmpty = false) : (roleBlocks m).filter significant = [] := by
  obtain ⟨role, content, pinned, timestamp⟩ := m
  cases content with
  | text s =>
    obtain rfl : s = "" := by simpa [Message.nonEmpty] using h
    rfl
  | blocks bs =>
    obtain rfl : bs = [] := by simpa [Message.nonEmpty] using h
    rfl

theorem select_nonEmpty (ms : List Message) :
    select significant (ms.filter Message.nonEmpty) = select significant ms :=
  select_filter fun _ _ => significant_of_empty

/-! ## The passes up to phase 2d -/

theorem select_dropOrphans (ids : List String) (ms : List Message) :
    select significant (dropOrphans ids ms).1 = select significant ms := by
  show select significant (List.filter _ _) = _
  rw [select_nonEmpty]
  refine select_map fun m _ => roleBlocks_filter (fun _ => rfl) fun b hb => ?_
  cases b with
  | toolResult id n c e st a => simp [significant] at hb
  | _ => rfl

theorem roleBlocks_stripResults (m : Message) :
    (roleBlocks (stripResults m)).filter significant = (roleBlocks m).filter significant := by
  unfold stripResults
  split_ifs
  · exact roleBlocks_filter (fun _ => rfl) fun b hb => by
      simp [resultId?_isSome_of_significant hb]
  · rfl

theorem toRescue_results {r : ℕ × List ContentBlock} (h : r ∈ toRescue ms)
    (hb : b ∈ r.2) : b.resultId?.isSome = true := by
  obtain ⟨⟨m, i⟩, -, h⟩ := List.mem_filterMap.mp h
  simp only at h
  split_ifs at h
  obtain rfl := Option.some.inj h
  simp only [misplacedIn] at hb
  split_ifs at hb
  · exact (List.mem_filter.mp hb).2
  · simp at hb

theorem select_foldr_place {α : Type} (place : α → List Message → List Message) (l : List α)
    (h : ∀ a ∈ l, ∀ acc, select significant (place a acc) = select significant acc) :
    select significant (l.foldr place ms) = select significant ms := by
  induction l with
  | nil => rfl
  | cons a l ih =>
    rw [List.foldr_cons, h a List.mem_cons_self, ih fun a ha => h a (List.mem_cons_of_mem _ ha)]

theorem select_rescue (ms : List Message) :
    select significant (rescueMisplacedToolResults ms).1 = select significant ms := by
  unfold rescueMisplacedToolResults
  simp only
  split_ifs
  · rfl
  · rw [select_nonEmpty, select_foldr_place]
    · exact select_map fun m _ => roleBlocks_stripResults m
    · intro r hr acc
      exact select_placeResults_of_neg fun b hb => significant_result (toRescue_results hr hb)

theorem select_synthetic (r : Role) (ids : List String) :
    ((ids.map syntheticResult).map (Prod.mk r)).filter significant = [] := by
  rw [List.filter_eq_nil_iff]
  intro rb hrb
  simp only [List.map_map, List.mem_map, Function.comp_apply] at hrb
  obtain ⟨id, -, rfl⟩ := hrb
  exact Bool.false_ne_true

theorem select_enforce (ms : List Message) :
    select significant (enforceAdjacentToolResultPairs ms).1 = select significant ms := by
  fun_induction enforceAdjacentToolResultPairs ms with
  | case1 => rfl
  | case2 m missing hmiss => rfl
  | case3 m missing hmiss =>
    rw [select_cons, select_cons, select_cons, roleBlocks_resultMessage, select_synthetic,
      List.nil_append]
  | case4 m next rest missing hmiss r ih => rw [select_cons, select_cons, ih]
  | case5 m next rest missing hmiss hrole r ih =>
    rw [select_cons, select_cons, select_cons, select_cons, roleBlocks_extend, List.filter_append,
      select_synthetic, List.append_nil, ih]
  | case6 m next rest missing hmiss hrole r ih =>
    rw [select_cons, select_cons, select_cons, roleBlocks_resultMessage, select_synthetic,
      List.nil_append, ih, select_cons]

theorem roleBlocks_removeMisplaced (sources : List (ℕ × Option String)) (idx : ℕ) (m : Message) :
    (roleBlocks (removeMisplaced sources idx m)).filter significant =
      (roleBlocks m).filter significant := by
  unfold removeMisplaced
  split_ifs
  · exact roleBlocks_filter (fun _ => rfl) fun b hb => by
      simp [resultId?_isSome_of_significant hb]
  · rfl

theorem select_stripMisplaced (ms : List Message) :
    select significant (stripMisplaced ms) = select significant ms := by
  refine select_forall₂ (List.forall₂_iff_get.mpr ⟨by simp [stripMisplaced], fun i hi hi' => ?_⟩)
  simp only [List.get_eq_getElem, stripMisplaced, List.getElem_map, List.getElem_zipIdx]
  exact roleBlocks_removeMisplaced _ _ _

theorem select_reorder (ms : List Message) :
    select significant (reorderToolResults ms).1 = select significant ms := by
  rw [reorder_eq]
  split_ifs
  · rfl
  · rw [select_foldr_place]
    · rw [keptMessages, select_nonEmpty, select_stripMisplaced]
    · intro t _ acc
      unfold placeAt
      split
      · refine select_placeResults_of_neg fun b hb => significant_result ?_
        obtain ⟨x, hx, -⟩ := mem_movedTo hb
        simp [hx]
      · rfl

theorem select_insertSynthetic (ms : List Message) :
    select significant (insertSyntheticResults ms).1 = select significant ms := by
  unfold insertSyntheticResults
  simp only
  split_ifs
  · rfl
  · refine select_foldr_place _ _ fun g _ acc => select_placeResults_of_neg fun b hb => ?_
    obtain ⟨id, -, rfl⟩ := List.mem_map.mp hb
    rfl

theorem dedupBlocks_significant (collision : String → Bool)
    (kept : String → Option ToolExecutionStatus) (r : Role) (seen : List String)
    (bs : List ContentBlock) :
    ((dedupBlocks collision kept seen bs).1.map (Prod.mk r)).filter significant =
      (bs.map (Prod.mk r)).filter significant := by
  induction bs generalizing seen with
  | nil => rfl
  | cons b bs ih =>
    simp only [dedupBlocks]
    cases hb : b.result? with
    | none => simp only [List.map_cons, List.filter_cons, ih]
    | some x =>
      have hr : significant (r, b) = false :=
        significant_result (by rw [resultId?_of_result? hb]; rfl)
      simp only
      split_ifs <;> simp only [List.map_cons, List.filter_cons, hr, Bool.false_eq_true, if_false, ih]

theorem select_dedupMessages (collision : String → Bool)
    (kept : String → Option ToolExecutionStatus) (seen : List String) (ms : List Message) :
    select significant (dedupMessages collision kept seen ms) = select significant ms := by
  induction ms generalizing seen with
  | nil => rfl
  | cons m ms ih =>
    rw [dedupMessages, select_cons, select_cons, ih]
    congr 1
    obtain ⟨role, content, pinned, timestamp⟩ := m
    cases content with
    | text s => rfl
    | blocks bs => exact dedupBlocks_significant collision kept role seen bs

theorem select_deduplicate (ms : List Message) :
    select significant (deduplicateToolResults ms).1 = select significant ms := by
  rw [deduplicate_eq, select_nonEmpty, select_dedupMessages]

/-! ## Phases 2e and 3 -/

theorem significant_of_blank (h : isEmptyOrBlankContent m.content = true) :
    (roleBlocks m).filter significant = [] := by
  rw [List.filter_eq_nil_iff]
  rintro ⟨r, b⟩ hb
  have hmem := (mem_roleBlocks.mp hb).2
  clear hb
  obtain ⟨role, content, pinned, timestamp⟩ := m
  cases content with
  | text s =>
    obtain rfl : b = .text s none := by simpa [contentToBlocks] using hmem
    have h : isBlank s = true := h
    simp [significant, h]
  | blocks bs =>
    have hmem : b ∈ bs := hmem
    simp only [isEmptyOrBlankContent, Bool.or_eq_true, List.isEmpty_iff, List.all_eq_true] at h
    have hblank := h.resolve_left (List.ne_nil_of_mem hmem) b hmem
    cases b <;> simp_all [significant]

theorem select_removeAborted (ms : List Message) :
    select significant (removeAbortedAssistantMessages ms) = select significant ms := by
  refine select_filter fun m _ hm => significant_of_blank ?_
  simp only [Bool.not_eq_false', Bool.and_eq_true] at hm
  exact hm.2

/-- **Merging joins messages only**: the blocks and their roles stay as they are. -/
theorem stream_mergeLoop (last : Message) (ms : List Message) :
    stream (mergeLoop last ms).1 = stream (last :: ms) := by
  induction ms generalizing last with
  | nil => rfl
  | cons m ms ih =>
    simp only [mergeLoop]
    split_ifs with hm
    · have hrole : last.role = m.role := by
        simp only [mergeable, Bool.and_eq_true, beq_iff_eq] at hm
        exact hm.1.1.1.1
      rw [ih, stream_cons, stream_cons, stream_cons, mergeContent, roleBlocks_extend, hrole,
        List.append_assoc]
      rfl
    · rw [stream_cons, ih, stream_cons last]

theorem stream_mergeConsecutive (ms : List Message) :
    stream (mergeConsecutive ms).1 = stream ms := by
  cases ms with
  | nil => rfl
  | cons m ms => exact stream_mergeLoop m ms

/-- After phase 3 everything significant is where it was. -/
def mergedHistory (ms : List Message) : List Message :=
  (mergeConsecutive (removeAbortedAssistantMessages (deduplicateToolResults
    (insertSyntheticResults (reorderToolResults (enforceAdjacentToolResultPairs
      (rescueMisplacedToolResults (dropOrphans (collectToolUseIds ms) ms).1).1).1).1).1).1)).1

theorem validateAndRepair_eq_map (ms : List Message) :
    validateAndRepair ms = (mergedHistory ms).map (Message.mapBlocks coalesceAdjacentTextBlocks) :=
  validateAndRepair_eq ms

/-- **The passes up to phase 3 keep what is significant.** -/
theorem stream_significant_merged (ms : List Message) :
    (stream (mergedHistory ms)).filter significant = (stream ms).filter significant := by
  rw [mergedHistory, stream_mergeConsecutive]
  show select significant _ = select significant ms
  rw [select_removeAborted, select_deduplicate, select_insertSynthetic, select_reorder,
    select_enforce, select_rescue, select_dropOrphans]

/-! ## Texts as parts of texts -/

/-- The texts `ts` are found in order in the texts `out`: each under its role as a part of a text,
and those in one text behind each other. -/
inductive OccursIn : List (Role × String) → List (Role × String) → Prop
  | nil (out : List (Role × String)) : OccursIn [] out
  | skip {ts out : List (Role × String)} (o : Role × String) :
      OccursIn ts out → OccursIn ts (o :: out)
  | take {ts out : List (Role × String)} (r : Role) (a t b : String) :
      OccursIn ts ((r, b) :: out) → OccursIn ((r, t) :: ts) ((r, a ++ t ++ b) :: out)

namespace OccursIn

variable {ts ts' out out' : List (Role × String)}

theorem refl (ts : List (Role × String)) : OccursIn ts ts := by
  induction ts with
  | nil => exact .nil []
  | cons t ts ih =>
    have h := OccursIn.take t.1 "" t.2 "" (.skip (t.1, "") ih)
    simpa using h

theorem extend (a : String) {b : String} (h : OccursIn ts ((r, b) :: out)) :
    OccursIn ts ((r, a ++ b) :: out) := by
  cases h with
  | nil => exact .nil _
  | skip _ h => exact .skip _ h
  | take _ a' t b' h =>
    have h' := OccursIn.take r (a ++ a') t b' h
    simpa [String.append_assoc] using h'

theorem filter (p : Role × String → Bool) (h : OccursIn ts out) : OccursIn (ts.filter p) out := by
  induction h with
  | nil out => exact .nil out
  | skip o _ ih => exact .skip o ih
  | @take ts out r a t b _ ih =>
    by_cases hp : p (r, t) = true
    · rw [List.filter_cons_of_pos hp]
      exact .take r a t b ih
    · rw [List.filter_cons_of_neg hp]
      exact ih.extend _

theorem append (h : OccursIn ts out) (h' : OccursIn ts' out') :
    OccursIn (ts ++ ts') (out ++ out') := by
  induction h with
  | nil out =>
    induction out with
    | nil => exact h'
    | cons o out ih => exact .skip o ih
  | skip o _ ih => exact .skip o ih
  | take r a t b _ ih => exact .take r a t b ih

theorem split {e s t : String} {post : List (Role × String)}
    {pre : List (Role × String)} (h : OccursIn (pre ++ (r, e ++ s ++ t) :: post) out) :
    OccursIn (pre ++ (r, e) :: (r, t) :: post) out := by
  generalize hts : pre ++ (r, e ++ s ++ t) :: post = ts at h
  induction h generalizing pre with
  | nil out => simp at hts
  | skip o _ ih => exact .skip o (ih hts)
  | @take ts out r' a t' b h ih =>
    cases pre with
    | nil =>
      obtain ⟨⟨rfl, rfl⟩, rfl⟩ : (r = r' ∧ e ++ s ++ t = t') ∧ post = ts := by simpa using hts
      have h' := OccursIn.take r a e (s ++ t ++ b) (OccursIn.take r s t b h)
      simpa [String.append_assoc] using h'
    | cons q pre =>
      obtain ⟨rfl, hpre⟩ : q = (r', t') ∧ pre ++ (r, e ++ s ++ t) :: post = ts := by simpa using hts
      exact .take r' a t' b (ih hpre)

end OccursIn

/-- The text of a text block. -/
def ContentBlock.text? : ContentBlock → Option String
  | .text t _ => some t
  | _ => none

/-- The texts among some blocks, under one role. -/
def blockTexts (r : Role) (bs : List ContentBlock) : List (Role × String) :=
  (bs.filterMap ContentBlock.text?).map (Prod.mk r)

/-- The texts of the history in order, each under the role of its message. -/
def texts (ms : List Message) : List (Role × String) :=
  ms.flatMap fun m => blockTexts m.role (contentToBlocks m.content)

theorem texts_eq (ms : List Message) :
    texts ms = (stream ms).filterMap fun rb => rb.2.text?.map (Prod.mk rb.1) := by
  induction ms with
  | nil => rfl
  | cons m ms ih =>
    rw [stream_cons, List.filterMap_append, ← ih]
    show blockTexts _ _ ++ texts ms = _
    congr 1
    simp only [blockTexts, roleBlocks, List.filterMap_map, List.map_filterMap]
    rfl

theorem texts_filter (ms : List Message) :
    (texts ms).filter (fun rt => !isBlank rt.2) =
      ((stream ms).filter significant).filterMap fun rb => rb.2.text?.map (Prod.mk rb.1) := by
  rw [texts_eq]
  induction stream ms with
  | nil => rfl
  | cons rb l ih =>
    obtain ⟨r, b⟩ := rb
    cases b with
    | text t pm =>
      have hcons : ∀ l : List (Role × ContentBlock),
          ((r, ContentBlock.text t pm) :: l).filterMap (fun rb => rb.2.text?.map (Prod.mk rb.1)) =
            (r, t) :: l.filterMap fun rb => rb.2.text?.map (Prod.mk rb.1) := fun _ => rfl
      cases ht : isBlank t with
      | false =>
        rw [List.filter_cons_of_pos (by simp [significant, ht]), hcons, hcons,
          List.filter_cons_of_pos (by simp [ht]), ih]
      | true =>
        rw [List.filter_cons_of_neg (by simp [significant, ht]), hcons,
          List.filter_cons_of_neg (by simp [ht]), ih]
    | _ => exact ih

/-! ## Coalescing -/

/-- **Coalescing keeps every text as a part of a text.** -/
theorem occursIn_coalesceLoop (r : Role) (out bs : List ContentBlock) :
    OccursIn (blockTexts r (out.reverse ++ bs)) (blockTexts r (coalesceLoop out bs)) := by
  fun_induction coalesceLoop out bs with
  | case1 out =>
    rw [List.append_nil]
    exact .refl _
  | case2 existing pm out t pm' bs ih =>
    have h : OccursIn (blockTexts r out.reverse ++ (r, existing ++ "\n\n" ++ t) :: blockTexts r bs)
        (blockTexts r (coalesceLoop
          (.text (existing ++ "\n\n" ++ t) (pm.or pm') :: out) bs)) := by
      simpa [blockTexts, ContentBlock.text?] using ih
    simpa [blockTexts, ContentBlock.text?] using h.split
  | case3 out b bs _ ih => simpa using ih

theorem occursIn_coalesce (r : Role) (bs : List ContentBlock) :
    OccursIn (blockTexts r bs) (blockTexts r (coalesceAdjacentTextBlocks bs)) := by
  unfold coalesceAdjacentTextBlocks
  split_ifs
  · exact .refl _
  · exact occursIn_coalesceLoop r [] bs

theorem contentToBlocks_coalesce (m : Message) :
    contentToBlocks (m.mapBlocks coalesceAdjacentTextBlocks).content =
      coalesceAdjacentTextBlocks (contentToBlocks m.content) :=
  contentToBlocks_mapBlocks _ (fun _ => rfl) m

theorem occursIn_map_coalesce (ms : List Message) :
    OccursIn (texts ms) (texts (ms.map (Message.mapBlocks coalesceAdjacentTextBlocks))) := by
  induction ms with
  | nil => exact .nil _
  | cons m ms ih =>
    refine OccursIn.append ?_ ih
    show OccursIn (blockTexts m.role _) (blockTexts (m.mapBlocks _).role (contentToBlocks _))
    rw [contentToBlocks_coalesce, mapBlocks_role]
    exact occursIn_coalesce _ _

theorem filter_coalesce {q : ContentBlock → Bool} (hq : ∀ t pm, q (.text t pm) = false)
    (bs : List ContentBlock) : (coalesceAdjacentTextBlocks bs).filter q = bs.filter q := by
  rw [← List.filterMap_eq_filter]
  exact filterMap_coalesce (fun t pm => by simp [hq]) bs

theorem select_coalesce {p : Role × ContentBlock → Bool}
    (hp : ∀ r t pm, p (r, .text t pm) = false) (ms : List Message) :
    select p (ms.map (Message.mapBlocks coalesceAdjacentTextBlocks)) = select p ms := by
  refine select_map fun m _ => ?_
  unfold roleBlocks
  rw [mapBlocks_role, contentToBlocks_coalesce, List.filter_map, List.filter_map,
    filter_coalesce fun t pm => hp _ t pm]

/-- A tool call, an image or a thinking block. -/
def carriesContent : Role × ContentBlock → Bool
  | (_, .toolUse ..) | (_, .image ..) | (_, .imageFile ..) | (_, .thinking ..) => true
  | _ => false

theorem filter_carriesContent (l : List (Role × ContentBlock)) :
    (l.filter significant).filter carriesContent = l.filter carriesContent := by
  rw [List.filter_filter]
  refine List.filter_congr fun rb _ => ?_
  obtain ⟨r, b⟩ := rb
  cases b <;> rfl

/-- **The repair keeps the conversation.** Calls, images and thinking come out in the same order
under the same roles, and every text with a visible character is found, in order and under its
role, as a part of a text of the output. -/
theorem validateAndRepair_preserves (ms : List Message) :
    (stream (validateAndRepair ms)).filter carriesContent = (stream ms).filter carriesContent ∧
      OccursIn ((texts ms).filter fun rt => !isBlank rt.2) (texts (validateAndRepair ms)) := by
  rw [validateAndRepair_eq_map]
  have hmerged := stream_significant_merged ms
  generalize mergedHistory ms = merged at *
  constructor
  · have hcoalesce : select carriesContent (merged.map (Message.mapBlocks coalesceAdjacentTextBlocks)) =
        select carriesContent merged := select_coalesce (fun _ _ _ => rfl) merged
    unfold select at hcoalesce
    rw [hcoalesce, ← filter_carriesContent (stream merged), hmerged, filter_carriesContent]
  · rw [texts_filter, ← hmerged, ← texts_filter]
    exact (occursIn_map_coalesce merged).filter _

end LibreFang.Session
