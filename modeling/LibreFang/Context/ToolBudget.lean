import LibreFang.Context.Truncate
import Mathlib.Data.List.Nodup
import Mathlib.Algebra.Order.BigOperators.Group.List

/-!
# The budget of a turn

When the tool results of a turn are too large together, the largest ones are written to files and
replaced by summaries.

* `buildPersistedSummary`, `filePath`: a summary, and the file that it names.
* `candidates`, `spillOne`, `spillAll`: the results that are replaced, largest first, until the
  total is within the budget; **`enforceTurnBudget`**: the whole of it.
* `spilled`: the results with those of some indices replaced; **`spillAll_spec`**: what the loop
  leaves behind.
* **`enforced_iff`**: exactly then no result grows, and the total does not.
-/

namespace LibreFang.Context

open Slices

/-- `ToolResultEntry`. -/
structure ToolResultEntry where
  toolUseId : List Char
  content : List Char
  deriving DecidableEq, Repr

/-- `ToolBudgetEnforcer`. -/
structure ToolBudgetEnforcer where
  perResultThreshold : ℕ
  perTurnBudget : ℕ
  tempDir : List Char

/-- `PREVIEW_CHARS`. -/
def previewChars : ℕ := 500

/-- `PERSISTED_MARKER`. -/
def persistedMarker : List Char := "[Tool output too large".toList

/-- `PathBuf::join`. -/
def joinPath (dir name : List Char) : List Char :=
  if name.head? = some '/' ∨ dir = [] then name
  else if dir.getLast? = some '/' then dir ++ name
  else dir ++ '/' :: name

/-- What a summary says before the preview. -/
def summaryHeader (originalBytes : ℕ) (path : List Char) : List Char :=
  persistedMarker ++ " (".toList ++ decimal originalBytes ++ " bytes). Saved to: ".toList ++ path ++
    "]\nPreview (first ".toList ++ decimal previewChars ++ " chars):\n".toList

/-- `build_persisted_summary`. -/
def buildPersistedSummary (content : List Char) (originalBytes : ℕ) (path : List Char) :
    List Char :=
  summaryHeader originalBytes path ++ content.take previewChars ++
    if previewChars < content.length then "\n...".toList else []

/-- `truncate_to_byte_boundary`. -/
def truncateToByteBoundary (s : List Char) (maxBytes : ℕ) : Option (List Char) :=
  if byteLen s ≤ maxBytes then some s
  else (cut (floorBoundary s maxBytes) s).map Prod.fst

/-- `inline_truncate`. -/
def inlineTruncate (content : List Char) (maxBytes : ℕ) : Option (List Char) :=
  (truncateToByteBoundary content maxBytes).map fun truncated =>
    truncated ++ "\n[Truncated: could not save full output]".toList

/-- The bytes of all results. -/
def totalBytes (results : List ToolResultEntry) : ℕ :=
  (results.map fun r => byteLen r.content).sum

/-- The results of a turn, the files written for it and the total that is kept up to date. -/
structure Turn where
  results : List ToolResultEntry
  written : List (List Char × List Char)
  runningTotal : ℕ

section Enforce

variable (e : ToolBudgetEnforcer) (saves : List Char → List Char → Bool)

/-- The file that a result is written to. -/
def filePath (r : ToolResultEntry) : List Char :=
  joinPath e.tempDir (r.toolUseId ++ "-budget.txt".toList)

/-- The candidate list: indices and sizes of the results that are not persisted, largest first. -/
def candidates (results : List ToolResultEntry) : List (ℕ × ℕ) :=
  ((results.zipIdx.filter fun r => ¬ persistedMarker <+: r.1.content).map fun r =>
    (r.2, byteLen r.1.content)).mergeSort fun a b => b.2 ≤ a.2

/-- One round of the loop; `saves` says whether a file can be written. -/
def spillOne (t : Turn) (idx size : ℕ) : Option Turn :=
  t.results[idx]?.bind fun entry =>
    let path := filePath e entry
    let saved := saves path entry.content
    let replacement :=
      if saved then some (buildPersistedSummary entry.content size path)
      else inlineTruncate entry.content e.perResultThreshold
    replacement.map fun content =>
      { results := t.results.set idx { entry with content }
        written := if saved then t.written ++ [(path, entry.content)] else t.written
        runningTotal := t.runningTotal - size + byteLen content }

/-- The loop over the candidates. -/
def spillAll : List (ℕ × ℕ) → Turn → Option Turn
  | [], t => some t
  | (idx, size) :: rest, t =>
    if t.runningTotal ≤ e.perTurnBudget then some t
    else (spillOne e saves t idx size).bind (spillAll rest)

/-- `enforce_turn_budget`; `none` for an index or a slice out of bounds. -/
def enforceTurnBudget (results : List ToolResultEntry) : Option Turn :=
  let total := totalBytes results
  if total ≤ e.perTurnBudget then some ⟨results, [], total⟩
  else spillAll e saves (candidates results) ⟨results, [], total⟩

/-! ## What the loop leaves behind -/

/-- The summary of a result. -/
def summaryOf (r : ToolResultEntry) : ToolResultEntry :=
  { r with content := buildPersistedSummary r.content (byteLen r.content) (filePath e r) }

/-- The results with those of some indices replaced. -/
def spilled (results : List ToolResultEntry) (done : List ℕ) : List ToolResultEntry :=
  results.mapIdx fun i r => if i ∈ done then summaryOf e r else r

/-- What is written for the results of some indices. -/
def writtenFor (results : List ToolResultEntry) (done : List ℕ) : List (List Char × List Char) :=
  done.filterMap fun i => results[i]?.map fun r => (filePath e r, r.content)

/-- The turn in which exactly the results of some indices have been replaced. -/
def turnAfter (results : List ToolResultEntry) (done : List ℕ) : Turn :=
  ⟨spilled e results done, writtenFor e results done, totalBytes (spilled e results done)⟩

variable {e} {saves} {results : List ToolResultEntry} {done : List ℕ} {i : ℕ} {r : ToolResultEntry}

theorem getElem?_spilled (done : List ℕ) (i : ℕ) : (spilled e results done)[i]? =
    results[i]?.map fun r => if i ∈ done then summaryOf e r else r :=
  List.getElem?_mapIdx

theorem spilled_nil : spilled e results [] = results := by
  refine List.ext_getElem? fun i => ?_
  rw [getElem?_spilled]
  cases results[i]? with
  | none => rfl
  | some r => exact congrArg some (if_neg List.not_mem_nil)

theorem getElem?_spilled_of_notMem (h : results[i]? = some r) (hi : i ∉ done) :
    (spilled e results done)[i]? = some r := by
  rw [getElem?_spilled, h, Option.map_some, if_neg hi]

theorem spilled_concat (h : results[i]? = some r) :
    spilled e results (done ++ [i]) = (spilled e results done).set i (summaryOf e r) := by
  refine List.ext_getElem? fun j => ?_
  rw [List.getElem?_set, getElem?_spilled, getElem?_spilled]
  by_cases hij : i = j
  · subst hij
    rw [if_pos rfl, h, Option.map_some, if_pos (List.mem_append_right _ (List.mem_singleton.mpr rfl)),
      if_pos]
    rw [spilled, List.length_mapIdx]
    exact (List.getElem?_eq_some_iff.mp h).1
  · have hmem : j ∈ done ++ [i] ↔ j ∈ done := by
      rw [List.mem_append, List.mem_singleton]
      exact or_iff_left (Ne.symm hij)
    rw [if_neg hij]
    simp only [hmem]

theorem totalBytes_set (r' : ToolResultEntry) (h : results[i]? = some r) :
    totalBytes (results.set i r') + byteLen r.content =
      totalBytes results + byteLen r'.content := by
  unfold totalBytes
  induction results generalizing i with
  | nil => cases h
  | cons first rest ih =>
    cases i with
    | zero =>
      cases h
      simp only [List.set_cons_zero, List.map_cons, List.sum_cons]
      omega
    | succ i =>
      have hrest := ih h
      simp only [List.set_cons_succ, List.map_cons, List.sum_cons]
      omega

theorem byteLen_le_totalBytes (h : results[i]? = some r) : byteLen r.content ≤ totalBytes results :=
  List.single_le_sum (fun _ _ => Nat.zero_le _) _ (List.mem_map_of_mem (List.mem_of_getElem? h))

theorem spillOne_turnAfter (hsaves : ∀ path content, saves path content = true)
    (h : results[i]? = some r) (hi : i ∉ done) :
    spillOne e saves (turnAfter e results done) i (byteLen r.content) =
      some (turnAfter e results (done ++ [i])) := by
  have hget := getElem?_spilled_of_notMem (e := e) h hi
  have htotal := totalBytes_set (summaryOf e r) hget
  have hle := byteLen_le_totalBytes hget
  have hrunning : (turnAfter e results done).runningTotal - byteLen r.content +
      byteLen (summaryOf e r).content = totalBytes (spilled e results (done ++ [i])) := by
    rw [spilled_concat h]
    have hrun : (turnAfter e results done).runningTotal = totalBytes (spilled e results done) := rfl
    omega
  have hwritten : writtenFor e results (done ++ [i]) =
      writtenFor e results done ++ [(filePath e r, r.content)] := by
    unfold writtenFor
    rw [List.filterMap_append, List.filterMap_cons, h]
    rfl
  have hresults : (turnAfter e results done).results[i]? = some r := hget
  unfold spillOne
  rw [hresults, Option.bind_some]
  dsimp only
  rw [hsaves, if_pos rfl, if_pos rfl, Option.map_some]
  refine congrArg some ?_
  unfold turnAfter at hrunning ⊢
  rw [spilled_concat h] at hrunning ⊢
  rw [hwritten, ← hrunning]
  rfl

theorem spillAll_turnAfter (hsaves : ∀ path content, saves path content = true)
    {rest : List (ℕ × ℕ)}
    (hrest : ∀ c ∈ rest, ∃ r, results[c.1]? = some r ∧ c.2 = byteLen r.content)
    (hnodup : (done ++ rest.map Prod.fst).Nodup) :
    ∃ taken left, rest = taken ++ left ∧
      spillAll e saves rest (turnAfter e results done) =
        some (turnAfter e results (done ++ taken.map Prod.fst)) ∧
      (left = [] ∨
        totalBytes (spilled e results (done ++ taken.map Prod.fst)) ≤ e.perTurnBudget) ∧
      ∀ before c after, taken = before ++ c :: after →
        e.perTurnBudget < totalBytes (spilled e results (done ++ before.map Prod.fst)) := by
  induction rest generalizing done with
  | nil =>
    refine ⟨[], [], rfl, ?_, .inl rfl, fun before c after h => ?_⟩
    · rw [List.map_nil, List.append_nil, spillAll]
    · exact absurd h.symm (List.append_ne_nil_of_right_ne_nil _ (List.cons_ne_nil _ _))
  | cons c rest ih =>
    obtain ⟨i, size⟩ := c
    by_cases hwithin : (turnAfter e results done).runningTotal ≤ e.perTurnBudget
    · refine ⟨[], (i, size) :: rest, rfl, ?_, .inr ?_, fun before c after h => ?_⟩
      · rw [List.map_nil, List.append_nil, spillAll, if_pos hwithin]
      · rw [List.map_nil, List.append_nil]
        exact hwithin
      · exact absurd h.symm (List.append_ne_nil_of_right_ne_nil _ (List.cons_ne_nil _ _))
    · obtain ⟨⟨r, hget, hsize⟩, hrest⟩ := List.forall_mem_cons.mp hrest
      have happend : done ++ (i :: rest.map Prod.fst) = done ++ [i] ++ rest.map Prod.fst := by
        rw [List.append_assoc, List.singleton_append]
      rw [List.map_cons, happend] at hnodup
      have hi : i ∉ done := fun hmem =>
        (List.nodup_append.mp (List.nodup_append.mp hnodup).1).2.2 i hmem i
          (List.mem_singleton.mpr rfl) rfl
      obtain ⟨taken, left, hsplit, hspill, hend, hbefore⟩ := ih hrest hnodup
      refine ⟨(i, size) :: taken, left, by rw [hsplit, List.cons_append], ?_, ?_,
        fun before c after h => ?_⟩
      · rw [spillAll, if_neg hwithin, show size = byteLen r.content from hsize, spillOne_turnAfter hsaves hget hi, Option.bind_some,
          hspill, List.map_cons, List.append_assoc, List.singleton_append]
      · rwa [List.append_assoc, List.singleton_append] at hend
      · cases before with
        | nil =>
          rw [List.map_nil, List.append_nil]
          exact Nat.lt_of_not_le hwithin
        | cons first before =>
          obtain ⟨rfl, htaken⟩ := List.cons.inj h
          have hlt := hbefore before c after htaken
          rwa [List.append_assoc, List.singleton_append] at hlt

/-! ## The candidates -/

theorem mem_candidates {size : ℕ} : (i, size) ∈ candidates results ↔
    ∃ r, results[i]? = some r ∧ ¬ persistedMarker <+: r.content ∧ byteLen r.content = size := by
  rw [candidates, List.mem_mergeSort, List.mem_map]
  constructor
  · rintro ⟨⟨r, j⟩, hmem, heq⟩
    obtain ⟨hzip, hmarker⟩ := List.mem_filter.mp hmem
    cases heq
    exact ⟨r, List.mem_zipIdx_iff_getElem?.mp hzip, of_decide_eq_true hmarker, rfl⟩
  · rintro ⟨r, hget, hmarker, rfl⟩
    refine ⟨(r, i), List.mem_filter.mpr ⟨?_, decide_eq_true hmarker⟩, rfl⟩
    exact List.mem_zipIdx_iff_getElem?.mpr hget

theorem nodup_candidates (results : List ToolResultEntry) :
    ((candidates results).map Prod.fst).Nodup := by
  unfold candidates
  rw [((List.mergeSort_perm _ _).map Prod.fst).nodup_iff, List.map_map]
  have hindices : (results.zipIdx.map Prod.snd).Nodup := by
    rw [List.zipIdx_map_snd]
    exact List.nodup_range'
  exact hindices.sublist (List.filter_sublist.map Prod.snd)

theorem enforceTurnBudget_eq (hsaves : ∀ path content, saves path content = true)
    (results : List ToolResultEntry) :
    ∃ taken left, candidates results = taken ++ left ∧
      enforceTurnBudget e saves results = some (turnAfter e results (taken.map Prod.fst)) ∧
      (left = [] ∨ totalBytes (spilled e results (taken.map Prod.fst)) ≤ e.perTurnBudget) ∧
      ∀ before c after, taken = before ++ c :: after →
        e.perTurnBudget < totalBytes (spilled e results (before.map Prod.fst)) := by
  have hstart : turnAfter e results [] = ⟨results, [], totalBytes results⟩ := by
    unfold turnAfter
    rw [spilled_nil]
    rfl
  unfold enforceTurnBudget
  by_cases hwithin : totalBytes results ≤ e.perTurnBudget
  · refine ⟨[], candidates results, rfl, ?_, .inr ?_, fun before c after h => ?_⟩
    · rw [if_pos hwithin, List.map_nil, hstart]
    · rwa [List.map_nil, spilled_nil]
    · exact absurd h.symm (List.append_ne_nil_of_right_ne_nil _ (List.cons_ne_nil _ _))
  · have hall : ∀ c ∈ candidates results, ∃ r, results[c.1]? = some r ∧ c.2 = byteLen r.content :=
      fun c hc => by
        obtain ⟨r, hget, -, hsize⟩ := mem_candidates.mp hc
        exact ⟨r, hget, hsize.symm⟩
    rw [if_neg hwithin, ← hstart]
    exact spillAll_turnAfter hsaves hall (nodup_candidates results)

/-! ## When results do not grow -/

/-- What follows the preview is longer than what a summary adds to it. -/
def Shrinks (e : ToolBudgetEnforcer) (r : ToolResultEntry) : Prop :=
  byteLen (summaryHeader (byteLen r.content) (filePath e r)) + 4 ≤
    byteLen (r.content.drop previewChars)

/-- The bytes that a summary saves. -/
def saved (e : ToolBudgetEnforcer) (r : ToolResultEntry) : ℕ :=
  byteLen (r.content.drop previewChars) -
    (byteLen (summaryHeader (byteLen r.content) (filePath e r)) + 4)

theorem byteLen_summaryOf (e : ToolBudgetEnforcer) (r : ToolResultEntry) :
    byteLen (summaryOf e r).content =
      byteLen (summaryHeader (byteLen r.content) (filePath e r)) +
        byteLen (r.content.take previewChars) + if previewChars < r.content.length then 4 else 0 := by
  unfold summaryOf buildPersistedSummary
  rw [byteLen_append, byteLen_append]
  split
  · rfl
  · rfl

theorem byteLen_split (s : List Char) (n : ℕ) :
    byteLen s = byteLen (s.take n) + byteLen (s.drop n) := by
  rw [← byteLen_append, List.take_append_drop]

theorem summaryHeader_pos (n : ℕ) (path : List Char) : 0 < byteLen (summaryHeader n path) := by
  unfold summaryHeader persistedMarker
  simp only [byteLen_append]
  have hmarker : 0 < byteLen "[Tool output too large".toList := by decide
  omega

theorem summary_le_iff : byteLen (summaryOf e r).content ≤ byteLen r.content ↔ Shrinks e r := by
  have hsplit := byteLen_split r.content previewChars
  have hpos := summaryHeader_pos (byteLen r.content) (filePath e r)
  rw [byteLen_summaryOf, Shrinks]
  by_cases hlong : previewChars < r.content.length
  · rw [if_pos hlong]
    omega
  · have hdrop : r.content.drop previewChars = [] :=
      List.drop_eq_nil_of_le (Nat.le_of_not_lt hlong)
    rw [if_neg hlong, hdrop, byteLen_nil]
    rw [hdrop, byteLen_nil] at hsplit
    omega

theorem summary_add_saved (h : Shrinks e r) :
    byteLen (summaryOf e r).content + saved e r = byteLen r.content := by
  have hsplit := byteLen_split r.content previewChars
  have hlong : previewChars < r.content.length := by
    by_contra hshort
    have hdrop : r.content.drop previewChars = [] :=
      List.drop_eq_nil_of_le (Nat.le_of_not_lt hshort)
    rw [Shrinks, hdrop, byteLen_nil] at h
    omega
  rw [byteLen_summaryOf, if_pos hlong, saved]
  rw [Shrinks] at h
  omega

/-- What the summaries of some results save together. -/
def savedBy (e : ToolBudgetEnforcer) (results : List ToolResultEntry) (done : List ℕ) : ℕ :=
  (done.map fun i => results[i]?.elim 0 (saved e)).sum

theorem totalBytes_spilled (hnodup : done.Nodup)
    (hshrinks : ∀ i ∈ done, ∃ r, results[i]? = some r ∧ Shrinks e r) :
    totalBytes (spilled e results done) + savedBy e results done = totalBytes results := by
  induction done using List.reverseRecOn with
  | nil =>
    rw [spilled_nil]
    rfl
  | append_singleton done i ih =>
    obtain ⟨r, hget, hr⟩ := hshrinks i (List.mem_append_right _ (List.mem_singleton.mpr rfl))
    obtain ⟨hdone, -, hapart⟩ := List.nodup_append.mp hnodup
    have hi : i ∉ done := fun hmem => hapart i hmem i (List.mem_singleton.mpr rfl) rfl
    have hbefore := ih hdone fun j hj => hshrinks j (List.mem_append_left _ hj)
    have hset := totalBytes_set (summaryOf e r) (getElem?_spilled_of_notMem (e := e) hget hi)
    have hsaved : savedBy e results (done ++ [i]) = savedBy e results done + saved e r := by
      unfold savedBy
      rw [List.map_append, List.sum_append, List.map_singleton, List.sum_singleton, hget]
      rfl
    have hadd := summary_add_saved hr
    rw [spilled_concat hget, hsaved]
    omega

/-! ## The result -/

variable (e) in
/-- What becomes of one result. -/
def Replaced (t : Turn) (r r' : ToolResultEntry) : Prop :=
  r' = r ∨ r' = summaryOf e r ∧ (filePath e r, r.content) ∈ t.written

variable (e) in
/-- **What a turn with a budget is for.** -/
structure Enforced (results : List ToolResultEntry) (t : Turn) : Prop where
  total : totalBytes t.results ≤ totalBytes results
  sizes : List.Forall₂ (fun r r' : ToolResultEntry => byteLen r'.content ≤ byteLen r.content)
    results t.results
  within : totalBytes t.results ≤ e.perTurnBudget ∨
    ∀ r ∈ t.results, persistedMarker <+: r.content
  replaced : List.Forall₂ (Replaced e t) results t.results
  once : (∀ r ∈ results, r.toolUseId.head? ≠ some '/') →
    (results.map ToolResultEntry.toolUseId).Nodup → (t.written.map Prod.fst).Nodup

variable (e) in
/-- **When no result grows**: a candidate that is reached while what larger ones save leaves the
total above the budget is longer than its summary. -/
def SpillsShrink (results : List ToolResultEntry) : Prop :=
  ∀ before i size after r, candidates results = before ++ (i, size) :: after →
    results[i]? = some r →
    e.perTurnBudget + savedBy e results (before.map Prod.fst) < totalBytes results → Shrinks e r

theorem forall₂_spilled {R : ToolResultEntry → ToolResultEntry → Prop} :
    List.Forall₂ R results (spilled e results done) ↔
      ∀ i r, results[i]? = some r → R r (if i ∈ done then summaryOf e r else r) := by
  rw [List.forall₂_iff_get]
  have hget (i : ℕ) (h : i < (spilled e results done).length) (h' : i < results.length) :
      (spilled e results done).get ⟨i, h⟩ =
        if i ∈ done then summaryOf e (results.get ⟨i, h'⟩) else results.get ⟨i, h'⟩ :=
    List.getElem_mapIdx
  constructor
  · rintro ⟨hlen, h⟩ i r hr
    obtain ⟨hi, rfl⟩ := List.getElem?_eq_some_iff.mp hr
    exact hget i (hlen ▸ hi) hi ▸ h i hi (hlen ▸ hi)
  · intro h
    refine ⟨List.length_mapIdx.symm, fun i hi hi' => ?_⟩
    rw [hget i hi' hi]
    exact h i _ (List.getElem?_eq_getElem hi)

theorem mem_writtenFor (h : results[i]? = some r) (hi : i ∈ done) :
    (filePath e r, r.content) ∈ writtenFor e results done :=
  List.mem_filterMap.mpr ⟨i, hi, by rw [h]; rfl⟩

theorem filePath_inj {r' : ToolResultEntry} (h : r.toolUseId.head? ≠ some '/')
    (h' : r'.toolUseId.head? ≠ some '/') (heq : filePath e r = filePath e r') :
    r.toolUseId = r'.toolUseId := by
  have hrelative (id : List Char) (hid : id.head? ≠ some '/') :
      (id ++ "-budget.txt".toList).head? ≠ some '/' := by
    cases id with
    | nil => decide
    | cons c id => exact hid
  unfold filePath joinPath at heq
  by_cases hdir : e.tempDir = []
  · rw [if_pos (.inr hdir), if_pos (.inr hdir)] at heq
    exact List.append_cancel_right heq
  · rw [if_neg (not_or.mpr ⟨hrelative _ h, hdir⟩), if_neg (not_or.mpr ⟨hrelative _ h', hdir⟩)] at heq
    split at heq
    · exact List.append_cancel_right (List.append_cancel_left heq)
    · exact List.append_cancel_right (List.cons.inj (List.append_cancel_left heq)).2

theorem nodup_writtenFor (hnodup : done.Nodup)
    (hrelative : ∀ r ∈ results, r.toolUseId.head? ≠ some '/')
    (hids : (results.map ToolResultEntry.toolUseId).Nodup) :
    ((writtenFor e results done).map Prod.fst).Nodup := by
  have hmap : (writtenFor e results done).map Prod.fst =
      done.filterMap fun i => results[i]?.map (filePath e) := by
    unfold writtenFor
    rw [List.map_filterMap]
    simp only [Option.map_map]
    rfl
  rw [hmap]
  refine List.Nodup.filterMap (fun i j path hi hj => ?_) hnodup
  obtain ⟨r, hr, hpath⟩ := Option.map_eq_some_iff.mp hi
  obtain ⟨r', hr', hpath'⟩ := Option.map_eq_some_iff.mp hj
  have hid := filePath_inj (hrelative r (List.mem_of_getElem? hr))
    (hrelative r' (List.mem_of_getElem? hr')) (hpath.trans hpath'.symm)
  have hlt : i < (results.map ToolResultEntry.toolUseId).length := by
    rw [List.length_map]
    exact (List.getElem?_eq_some_iff.mp hr).1
  refine (List.getElem?_inj hlt hids).mp ?_
  rw [List.getElem?_map, List.getElem?_map, hr, hr', Option.map_some, Option.map_some, hid]

theorem marker_summaryOf (e : ToolBudgetEnforcer) (r : ToolResultEntry) :
    persistedMarker <+: (summaryOf e r).content := by
  unfold summaryOf buildPersistedSummary summaryHeader
  simp only [List.append_assoc]
  exact List.prefix_append _ _

theorem marker_of_spilled
    (h : ∀ i r, results[i]? = some r → ¬ persistedMarker <+: r.content → i ∈ done) :
    ∀ r ∈ spilled e results done, persistedMarker <+: r.content := by
  intro r' hr'
  obtain ⟨i, hi⟩ := List.mem_iff_getElem?.mp hr'
  rw [getElem?_spilled, Option.map_eq_some_iff] at hi
  obtain ⟨r, hget, rfl⟩ := hi
  split
  · exact marker_summaryOf e r
  · rename_i hnot
    by_contra hmarker
    exact hnot (h i r hget hmarker)

theorem shrinks_of_taken {taken left : List (ℕ × ℕ)} (h : SpillsShrink e results)
    (hsplit : candidates results = taken ++ left)
    (hbefore : ∀ before c after, taken = before ++ c :: after →
      e.perTurnBudget < totalBytes (spilled e results (before.map Prod.fst))) :
    ∀ i ∈ taken.map Prod.fst, ∃ r, results[i]? = some r ∧ Shrinks e r := by
  suffices hprefix : ∀ p rest, taken = p ++ rest →
      ∀ i ∈ p.map Prod.fst, ∃ r, results[i]? = some r ∧ Shrinks e r from
    hprefix taken [] (List.append_nil _).symm
  intro p
  induction p using List.reverseRecOn with
  | nil =>
    intro _ _ i hi
    cases hi
  | append_singleton p c ih =>
    intro rest htaken
    rw [List.append_assoc, List.singleton_append] at htaken
    have hp := ih (c :: rest) htaken
    have hcandidates : candidates results = p ++ c :: (rest ++ left) := by
      rw [hsplit, htaken, List.append_assoc, List.cons_append]
    have hnodup : (p.map Prod.fst).Nodup := by
      have hall := nodup_candidates results
      rw [hcandidates, List.map_append] at hall
      exact (List.nodup_append.mp hall).1
    have htotal := totalBytes_spilled hnodup hp
    have hlt := hbefore p c rest htaken
    obtain ⟨r, hget, -, -⟩ := mem_candidates.mp
      (hcandidates ▸ List.mem_append_right _ List.mem_cons_self : (c.1, c.2) ∈ candidates results)
    have hshrinks := h p c.1 c.2 (rest ++ left) r hcandidates hget (by omega)
    intro i hi
    rw [List.map_append, List.mem_append] at hi
    obtain hi | hi := hi
    · exact hp i hi
    · rw [List.mem_singleton.mp hi]
      exact ⟨r, hget, hshrinks⟩

/-- **The budget does what it is for exactly when no summary is longer than its result.** -/
theorem enforced_iff (hsaves : ∀ path content, saves path content = true)
    (results : List ToolResultEntry) :
    (∃ t, enforceTurnBudget e saves results = some t ∧ Enforced e results t) ↔
      SpillsShrink e results := by
  obtain ⟨taken, left, hsplit, hrun, hend, hbefore⟩ :=
    enforceTurnBudget_eq (e := e) hsaves results
  have hnodup : (taken.map Prod.fst).Nodup := by
    have hall := nodup_candidates results
    rw [hsplit, List.map_append] at hall
    exact (List.nodup_append.mp hall).1
  rw [hrun]
  constructor
  · rintro ⟨t, ht, henforced⟩ before i size after r hcandidate hget hlt
    cases ht
    have hsizes := forall₂_spilled.mp henforced.sizes
    have htaken : ∀ j ∈ taken.map Prod.fst, ∃ r, results[j]? = some r ∧ Shrinks e r := by
      intro j hj
      obtain ⟨c, hc, rfl⟩ := List.mem_map.mp hj
      obtain ⟨r, hr, -, -⟩ := mem_candidates.mp
        (hsplit ▸ List.mem_append_left _ hc : (c.1, c.2) ∈ candidates results)
      have hle := hsizes c.1 r hr
      rw [if_pos hj] at hle
      exact ⟨r, hr, summary_le_iff.mp hle⟩
    -- a candidate behind those that are replaced is reached with the total within the budget
    have hbehind (more : List (ℕ × ℕ)) (hmore : before = taken ++ more) (hleft : left ≠ []) :
        False := by
      have htotal := totalBytes_spilled hnodup htaken
      have hle := hend.resolve_left hleft
      have hsaved : savedBy e results (before.map Prod.fst) =
          savedBy e results (taken.map Prod.fst) + savedBy e results (more.map Prod.fst) := by
        unfold savedBy
        rw [hmore, List.map_append, List.map_append, List.sum_append]
      omega
    rw [hsplit] at hcandidate
    obtain ⟨more, hmore, hleft⟩ | ⟨more, hmore, hleft⟩ := List.append_eq_append_iff.mp hcandidate
    · refine (hbehind more hmore ?_).elim
      rw [hleft]
      exact List.append_ne_nil_of_right_ne_nil _ (List.cons_ne_nil _ _)
    · cases more with
      | nil =>
        refine (hbehind [] ?_ ?_).elim
        · rw [hmore, List.append_nil, List.append_nil]
        · rw [List.nil_append] at hleft
          rw [← hleft]
          exact List.cons_ne_nil _ _
      | cons c more =>
        obtain ⟨hc, -⟩ := List.cons.inj hleft
        have hmem : i ∈ taken.map Prod.fst := by
          rw [hmore, ← hc, List.map_append, List.map_cons]
          exact List.mem_append_right _ List.mem_cons_self
        obtain ⟨r', hr', hshrinks⟩ := htaken i hmem
        rw [hget] at hr'
        exact Option.some.inj hr' ▸ hshrinks
  · intro h
    have hshrinks := shrinks_of_taken h hsplit hbefore
    refine ⟨_, rfl, ?_, forall₂_spilled.mpr fun i r hget => ?_, ?_,
      forall₂_spilled.mpr fun i r hget => ?_, nodup_writtenFor hnodup⟩
    · have htotal := totalBytes_spilled hnodup hshrinks
      exact Nat.le.intro htotal
    · split
      · rename_i hi
        obtain ⟨r', hr', hr'shrinks⟩ := hshrinks i hi
        rw [hget] at hr'
        exact summary_le_iff.mpr (Option.some.inj hr' ▸ hr'shrinks)
      · exact le_rfl
    · obtain hleft | hle := hend
      · refine .inr (marker_of_spilled fun i r hget hmarker => ?_)
        have hcandidate := mem_candidates.mpr ⟨r, hget, hmarker, rfl⟩
        rw [hsplit, hleft, List.append_nil] at hcandidate
        exact List.mem_map_of_mem hcandidate
      · exact .inl hle
    · split
      · rename_i hi
        exact .inr ⟨rfl, mem_writtenFor hget hi⟩
      · exact .inl rfl

end Enforce

/-- A budget of ten bytes. -/
def tenBytes : ToolBudgetEnforcer := ⟨100, 10, "/tmp".toList⟩

/-- A result of twelve bytes. -/
def twelveBytes : ToolResultEntry := ⟨"a".toList, List.replicate 12 'x'⟩

/-- **A small result grows**: its summary has the whole of it and more. -/
theorem small_result_grows : ¬ ∃ t, enforceTurnBudget tenBytes (fun _ _ => true) [twelveBytes] =
    some t ∧ Enforced tenBytes [twelveBytes] t := by
  rintro ⟨t, ht, henforced⟩
  have hcandidates : candidates [twelveBytes] = [(0, 12)] := List.mergeSort_singleton _
  unfold enforceTurnBudget at ht
  rw [hcandidates] at ht
  have hspilled : ((spillAll tenBytes (fun _ _ => true) [(0, 12)] ⟨[twelveBytes], [], 12⟩).map
      fun t => totalBytes t.results) = some 103 := by decide
  have htotal := henforced.total
  have hlt : totalBytes t.results = 103 := by
    have hmap := congrArg (Option.map fun t => totalBytes t.results) ht
    exact (Option.some.inj (hmap.symm.trans hspilled))
  rw [hlt] at htotal
  exact absurd htotal (by decide)

theorem enforced_iff_twelve :
    (∃ t, enforceTurnBudget tenBytes (fun _ _ => true) [twelveBytes] = some t ∧
        Enforced tenBytes [twelveBytes] t) ↔ SpillsShrink tenBytes [twelveBytes] :=
  enforced_iff (fun _ _ => rfl) [twelveBytes]

end LibreFang.Context
