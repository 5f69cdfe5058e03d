import LibreFang.Session.Pairing

/-!
# Establishing the pairs

The passes up to phase 2a1, after which every call is answered by the message after it.

* **`resultsInUser_rescue`**: after phase 2a results sit in user messages only.
* **`paired_enforce`**: phase 2a1 establishes the pairs.
-/

namespace LibreFang.Session

/-! ## Phase 2 -/

section Filtering

variable {m : Message} (p : ContentBlock → Bool)

theorem toolUseIds_filter_subset : toolUseIds (m.mapBlocks (List.filter p)) ⊆ toolUseIds m := by
  intro x hx
  obtain ⟨b, hb, hbx⟩ := mem_toolUseIds.mp hx
  rw [filter_blocks] at hb
  exact mem_toolUseIds.mpr ⟨b, List.mem_of_mem_filter hb, hbx⟩

theorem toolResultIds_filter_subset :
    toolResultIds (m.mapBlocks (List.filter p)) ⊆ toolResultIds m := by
  intro x hx
  obtain ⟨b, hb, hbx⟩ := mem_toolResultIds.mp hx
  rw [filter_blocks] at hb
  exact mem_toolResultIds.mpr ⟨b, List.mem_of_mem_filter hb, hbx⟩

theorem ne_nil_of_subset {l l' : List String} (h : l ⊆ l') (hl : l ≠ []) : l' ≠ [] := by
  rintro rfl
  exact hl (List.subset_nil.mp h)

end Filtering

variable {ms : List Message}

theorem wellPlaced_dropOrphans (ids : List String) (h : WellPlaced ms) :
    WellPlaced (dropOrphans ids ms).1 := by
  intro m hm
  simp only [dropOrphans] at hm
  obtain ⟨n, hn, rfl⟩ := List.mem_map.mp (List.mem_of_mem_filter hm)
  rw [mapBlocks_role]
  exact ⟨fun hu => (h n hn).1 (ne_nil_of_subset (toolUseIds_filter_subset _) hu),
    fun hr => (h n hn).2 (ne_nil_of_subset (toolResultIds_filter_subset _) hr)⟩

/-! ## Phase 2a -/

variable {m : Message}

theorem mem_placeResults {pos : ℕ} {bs : List ContentBlock}
    (h : m ∈ placeResults ms pos bs) : m ∈ ms ∨ m.role = .user := by
  unfold placeResults at h
  split at h
  · rename_i n hn
    split_ifs at h with hrole
    · rcases List.mem_or_eq_of_mem_set h with h | rfl
      · exact Or.inl h
      · exact Or.inr hrole
    · have hpos : pos ≤ ms.length := (List.getElem?_eq_some_iff.mp hn).1.le
      rcases (List.mem_insertIdx hpos).mp h with rfl | h
      · exact Or.inr rfl
      · exact Or.inl h
  · rcases List.mem_append.mp h with h | h
    · exact Or.inl h
    · obtain rfl := List.mem_singleton.mp h
      exact Or.inr rfl

theorem resultsInUser_placeResults (h : ResultsInUser ms) (pos : ℕ)
    (bs : List ContentBlock) : ResultsInUser (placeResults ms pos bs) := fun m hm hr =>
  (mem_placeResults hm).elim (fun hm => h m hm hr) id

theorem resultsInUser_filter (h : ResultsInUser ms) (p : Message → Bool) :
    ResultsInUser (ms.filter p) := fun m hm => h m (List.mem_of_mem_filter hm)

theorem toolResultIds_eq_nil_iff :
    toolResultIds m = [] ↔ m.blocks.filter (fun b => b.resultId?.isSome) = [] := by
  simp [toolResultIds, List.filterMap_eq_nil_iff, List.filter_eq_nil_iff]

theorem toolResultIds_stripResults (h : m.role = .assistant) :
    toolResultIds (stripResults m) = [] := by
  rw [toolResultIds_eq_nil_iff, stripResults, if_pos h, filter_blocks, List.filter_filter,
    List.filter_eq_nil_iff]
  intro b _
  cases b.resultId?.isSome <;> simp

/-- **After the rescue, results sit in user messages only.** -/
theorem resultsInUser_rescue (h : WellPlaced ms) :
    ResultsInUser (rescueMisplacedToolResults ms).1 := by
  unfold rescueMisplacedToolResults
  simp only
  split_ifs with he
  · -- nothing to rescue: no assistant message holds a result
    intro m hm hr
    rcases (h m hm).2 hr with hrole | hrole
    · exact hrole
    · exfalso
      obtain ⟨i, hi⟩ := List.mem_iff_getElem?.mp hm
      have hmem : (m, i) ∈ ms.zipIdx := by
        rw [List.mem_zipIdx_iff_getElem?]
        exact hi
      have hnone := List.filterMap_eq_nil_iff.mp (List.isEmpty_iff.mp he) _ hmem
      simp only [misplacedIn, if_pos hrole, ite_eq_left_iff, reduceCtorEq, imp_false, not_not,
        List.isEmpty_iff] at hnone
      exact hr (toolResultIds_eq_nil_iff.mpr hnone)
  · refine resultsInUser_filter ?_ _
    have hbase : ResultsInUser (ms.map stripResults) := by
      intro m hm hr
      obtain ⟨n, hn, rfl⟩ := List.mem_map.mp hm
      by_cases hrole : n.role = .assistant
      · exact absurd (toolResultIds_stripResults hrole) hr
      · rw [stripResults, if_neg hrole] at hr ⊢
        exact ((h n hn).2 hr).resolve_right hrole
    generalize toRescue ms = l
    induction l with
    | nil => exact hbase
    | cons r l ih => exact resultsInUser_placeResults ih _ _

/-! ## Phase 2a1 -/

@[simp] theorem filterMap_syntheticResult_resultId (ids : List String) :
    (ids.map syntheticResult).filterMap ContentBlock.resultId? = ids := by
  rw [List.filterMap_map]
  exact List.filterMap_some

@[simp] theorem toolResultIds_resultMessage (bs : List ContentBlock) :
    toolResultIds (resultMessage bs) = bs.filterMap ContentBlock.resultId? := rfl

theorem head?_enforce (m : Message) (ms : List Message) :
    (enforceAdjacentToolResultPairs (m :: ms)).1.head? = some m := by
  cases ms with
  | nil => simp only [enforceAdjacentToolResultPairs]; split_ifs <;> rfl
  | cons n ms => simp only [enforceAdjacentToolResultPairs]; split_ifs <;> rfl

theorem mem_adjacent_of_not_missing {next : Option Message}
    (h : missingIds m next = []) {x : String} (hx : x ∈ idsNeeded m) : x ∈ adjacentResults next := by
  by_contra hn
  have : x ∈ missingIds m next := List.mem_filter.mpr ⟨hx, decide_eq_true hn⟩
  simp [h] at this

theorem mem_adjacent_or_missing (next : Option Message) {x : String}
    (hx : x ∈ idsNeeded m) : x ∈ adjacentResults next ∨ x ∈ missingIds m next := by
  by_cases h : x ∈ adjacentResults next
  · exact Or.inl h
  · exact Or.inr (List.mem_filter.mpr ⟨hx, decide_eq_true h⟩)

theorem paired_resultMessage_cons {bs : List ContentBlock} (h : Paired ms) :
    Paired (resultMessage bs :: ms) :=
  paired_cons.mpr ⟨fun x hx => by simp [resultMessage, idsNeeded] at hx, h⟩

theorem paired_user_cons (hm : m.role = .user) (h : Paired ms) : Paired (m :: ms) :=
  paired_cons.mpr ⟨fun x hx => by simp [idsNeeded_of_role_ne (m := m) (by simp [hm])] at hx, h⟩

/-- **Phase 2a1 establishes the pairs.** -/
theorem paired_enforce (ms : List Message) : Paired (enforceAdjacentToolResultPairs ms).1 := by
  induction ms using enforceAdjacentToolResultPairs.induct with
  | case1 => exact paired_nil
  | case2 m missing hmiss =>
    simp only [enforceAdjacentToolResultPairs]
    rw [if_pos hmiss]
    exact paired_cons.mpr
      ⟨fun x hx => mem_adjacent_of_not_missing (List.isEmpty_iff.mp hmiss) hx, paired_nil⟩
  | case3 m missing hmiss =>
    simp only [enforceAdjacentToolResultPairs]
    rw [if_neg hmiss]
    refine paired_cons.mpr ⟨fun x hx => ?_, paired_resultMessage_cons paired_nil⟩
    rcases mem_adjacent_or_missing none hx with h | h
    · simp [adjacentResults] at h
    · refine mem_adjacentResults.mpr ⟨_, rfl, rfl, ?_⟩
      rw [toolResultIds_resultMessage, filterMap_syntheticResult_resultId]
      exact h
  | case4 m next rest missing hmiss ih =>
    simp only [enforceAdjacentToolResultPairs]
    rw [if_pos hmiss]
    refine paired_cons.mpr ⟨fun x hx => ?_, ih⟩
    rw [head?_enforce]
    exact mem_adjacent_of_not_missing (List.isEmpty_iff.mp hmiss) hx
  | case5 m next rest missing hmiss hrole ih =>
    simp only [enforceAdjacentToolResultPairs]
    rw [if_neg hmiss, if_pos hrole]
    refine paired_cons.mpr ⟨fun x hx => ?_, paired_user_cons (m := next.extend _) hrole ih⟩
    refine mem_adjacentResults.mpr ⟨_, rfl, hrole, ?_⟩
    rw [toolResultIds_extend, filterMap_syntheticResult_resultId, List.mem_append]
    rcases mem_adjacent_or_missing (some next) hx with h | h
    · obtain ⟨n, hn, -, hxn⟩ := mem_adjacentResults.mp h
      obtain rfl : next = n := by simpa using hn
      exact Or.inl hxn
    · exact Or.inr h
  | case6 m next rest missing hmiss hrole ih =>
    simp only [enforceAdjacentToolResultPairs]
    rw [if_neg hmiss, if_neg hrole]
    refine paired_cons.mpr ⟨fun x hx => ?_, paired_resultMessage_cons ih⟩
    refine mem_adjacentResults.mpr ⟨_, rfl, rfl, ?_⟩
    rw [toolResultIds_resultMessage, filterMap_syntheticResult_resultId]
    rcases mem_adjacent_or_missing (some next) hx with h | h
    · obtain ⟨n, hn, hn', -⟩ := mem_adjacentResults.mp h
      obtain rfl : next = n := by simpa using hn
      exact absurd hn' hrole
    · exact h

theorem mem_enforce
    (h : m ∈ (enforceAdjacentToolResultPairs ms).1) : m ∈ ms ∨ m.role = .user := by
  induction ms using enforceAdjacentToolResultPairs.induct with
  | case1 => simp [enforceAdjacentToolResultPairs] at h
  | case2 a missing hmiss =>
    simp only [enforceAdjacentToolResultPairs] at h
    rw [if_pos hmiss] at h
    exact Or.inl h
  | case3 a missing hmiss =>
    simp only [enforceAdjacentToolResultPairs] at h
    rw [if_neg hmiss] at h
    simp only [List.mem_cons, List.not_mem_nil, or_false] at h ⊢
    exact h.imp_right fun h => by rw [h]; rfl
  | case4 a next rest missing hmiss ih =>
    simp only [enforceAdjacentToolResultPairs] at h
    rw [if_pos hmiss] at h
    rcases List.mem_cons.mp h with h | h
    · exact Or.inl (by simp [h])
    · exact (ih h).imp_left (List.mem_cons_of_mem _)
  | case5 a next rest missing hmiss hrole ih =>
    simp only [enforceAdjacentToolResultPairs] at h
    rw [if_neg hmiss, if_pos hrole] at h
    simp only [List.mem_cons] at h ⊢
    rcases h with h | h | h
    · exact Or.inl (Or.inl h)
    · exact Or.inr (by rw [h]; exact hrole)
    · exact (ih h).imp_left fun h => Or.inr (Or.inr h)
  | case6 a next rest missing hmiss hrole ih =>
    simp only [enforceAdjacentToolResultPairs] at h
    rw [if_neg hmiss, if_neg hrole] at h
    simp only [List.mem_cons] at h ⊢
    rcases h with h | h | h
    · exact Or.inl (Or.inl h)
    · exact Or.inr (by rw [h]; rfl)
    · simpa using (ih h).imp_left fun h => (List.mem_cons.mp h).elim (fun h => Or.inr (Or.inl h))
        fun h => Or.inr (Or.inr h)

theorem resultsInUser_enforce (h : ResultsInUser ms) :
    ResultsInUser (enforceAdjacentToolResultPairs ms).1 := fun m hm hr =>
  (mem_enforce hm).elim (fun hm => h m hm hr) id

end LibreFang.Session
