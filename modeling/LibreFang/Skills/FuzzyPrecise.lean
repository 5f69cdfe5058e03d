import LibreFang.Lib.Wildcard
import LibreFang.Skills.FuzzyFrame

/-!
# When fuzzy replacement is precise

* `tryBlockAnchorReplace_eq`, **`tryBlockAnchorReplace_ok`**: replaced by blocks.
* **`tryWhitespaceStrippedReplace_spec`**: replaced without blanks.
* **`precise_iff`**: a replacement is precise exactly when what is outside can be kept.
-/

namespace LibreFang.Skills

open Text TextLines Occurrences LineBlocks

/-! ## Block anchors -/

section Anchors

variable {content old new : List Char} {replaceAll : Bool} {r : FuzzyReplaceResult}

theorem mem_blockCandidates {contentLines oldLines : List (List Char)} {candidate : ℕ × ℕ}
    (h : candidate ∈ blockCandidates contentLines oldLines) :
    candidate.2 = candidate.1 + oldLines.length - 1 ∧
      contentLines[candidate.2]?.map trim = oldLines.getLast?.map trim := by
  have hfold (starts : List ℕ) : ∀ candidates : List (ℕ × ℕ),
      candidate ∈ starts.foldl (addCandidate contentLines oldLines) candidates →
      candidate ∈ candidates ∨ (candidate.2 = candidate.1 + oldLines.length - 1 ∧
        contentLines[candidate.2]?.map trim = oldLines.getLast?.map trim) := by
    induction starts with
    | nil => exact fun candidates hmem => .inl hmem
    | cons start starts ih =>
      intro candidates hmem
      refine (ih _ hmem).elim (fun hadd => ?_) .inr
      unfold addCandidate at hadd
      dsimp only at hadd
      split_ifs at hadd with hcond
      · refine (List.mem_append.mp hadd).imp_right fun hnew => ?_
        rw [List.mem_singleton.mp hnew]
        exact ⟨rfl, hcond.2.1⟩
      · exact .inl hadd
  exact (hfold _ [] h).resolve_left List.not_mem_nil

theorem blockCandidate_inside (hmatch : BlocksMatch content old) {candidate : ℕ × ℕ}
    (h : candidate ∈ blockCandidates (lines content) (lines old)) :
    (candidate.1 ≤ candidate.2 ∧ candidate.2 < (splitInclusive content).length) ∧
      (lines content)[candidate.2]?.getD [] ≠ [] := by
  obtain ⟨htwo, -, hlast, -⟩ := hmatch
  obtain ⟨hend, hline⟩ := mem_blockCandidates h
  have hne : lines old ≠ [] := fun hnil => by
    rw [hnil] at htwo
    exact absurd htwo (by decide)
  rw [List.getLast?_eq_some_getLast hne, Option.map_some] at hline hlast
  obtain ⟨line, hline', htrim⟩ := Option.map_eq_some_iff.mp hline
  refine ⟨⟨by omega, ?_⟩, fun hempty => hlast ?_⟩
  · rw [← length_lines]
    exact (List.getElem?_eq_some_iff.mp hline').1
  · rw [hline', Option.getD_some] at hempty
    rw [← htrim, hempty]
    rfl

theorem foldr_spliceLines (newLines : List (List Char)) {ls : List (List Char)}
    {blocks : List (ℕ × ℕ)} (h : LinesApart ls.length blocks) :
    blocks.foldr (spliceLines newLines) (some ls) =
      some (spliceAll (fun _ => newLines) (blocks.map fun block => (block.1, block.2 + 1)) ls) := by
  have hapart : Apart (blocks.map fun block => (block.1, block.2 + 1)) :=
    ⟨List.forall_mem_map.mpr fun b hb => (h.inside b hb).1.trans (Nat.le_succ _),
      List.pairwise_map.mpr h.apart⟩
  have hinside : ∀ region ∈ blocks.map fun block => (block.1, block.2 + 1), region.2 ≤ ls.length :=
    List.forall_mem_map.mpr fun b hb => (h.inside b hb).2
  rw [← foldr_trySplice newLines hapart hinside, List.foldr_map]
  rfl

theorem blocks_toReplace {candidates : List (ℕ × ℕ)}
    (hmany : ¬ (1 < candidates.length ∧ replaceAll = false)) :
    (if replaceAll then candidates else candidates.take 1) = candidates := by
  cases replaceAll with
  | true => rfl
  | false =>
    exact List.take_of_length_le (Nat.not_lt.mp fun hlt => hmany ⟨hlt, rfl⟩)

theorem tryBlockAnchorReplace_none (hmatch : ¬ BlocksMatch content old) :
    tryBlockAnchorReplace content old new replaceAll = some (.ok none) := by
  unfold tryBlockAnchorReplace
  dsimp only
  by_cases htwo : (lines old).length < 2
  · rw [if_pos htwo]
  rw [if_neg htwo]
  by_cases hanchors : (lines old).head?.map trim = some [] ∨ (lines old).getLast?.map trim = some []
  · rw [if_pos hanchors]
  rw [if_neg hanchors, if_pos]
  by_contra hcandidates
  rw [not_or] at hanchors
  exact hmatch ⟨Nat.not_lt.mp htwo, hanchors.1, hanchors.2, hcandidates⟩

/-- **What `try_block_anchor_replace` gives.** -/
theorem tryBlockAnchorReplace_eq (hmatch : BlocksMatch content old) :
    let candidates := blockCandidates (lines content) (lines old)
    tryBlockAnchorReplace content old new replaceAll =
      if 1 < candidates.length ∧ replaceAll = false then
        some (.error (.invalidManifest ("Multiple block-anchor matches (" ++
          toString candidates.length ++ ") — set replace_all=true")))
      else (candidates.foldr (spliceLines (lines new)) (some (lines content))).map fun resultLines =>
        .ok (some ⟨String.ofList (unlines resultLines), candidates.length, .blockAnchor⟩) := by
  obtain ⟨htwo, hfirst, hlast, hcandidates⟩ := hmatch
  unfold tryBlockAnchorReplace
  dsimp only
  rw [if_neg (Nat.not_lt.mpr htwo), if_neg (not_or.mpr ⟨hfirst, hlast⟩), if_neg hcandidates]
  by_cases hmany : 1 < (blockCandidates (lines content) (lines old)).length ∧ replaceAll = false
  · rw [if_pos hmany, if_pos hmany]
  · rw [if_neg hmany, if_neg hmany, blocks_toReplace hmany]

/-- **By blocks**: what is replaced is what matched exactly when the blocks share no line and all
other lines can be kept. -/
theorem tryBlockAnchorReplace_ok (hmatch : BlocksMatch content old)
    (h : tryBlockAnchorReplace content old new replaceAll = some (.ok (some r))) :
    r.strategy = .blockAnchor ∧
      (Replaces ((blockCandidates (lines content) (lines old)).map (lineRegion content)) content new
        replaceAll r ↔ KeepsBlocks content old new) := by
  rw [tryBlockAnchorReplace_eq hmatch] at h
  by_cases hmany : 1 < (blockCandidates (lines content) (lines old)).length ∧ replaceAll = false
  · rw [if_pos hmany] at h
    cases h
  rw [if_neg hmany] at h
  obtain ⟨result, hresult, hr⟩ := Option.map_eq_some_iff.mp h
  have hr := Option.some.inj (Except.ok.inj hr)
  have hinside := fun candidate h => (@blockCandidate_inside content old hmatch candidate h).1
  have hline := fun candidate h => (@blockCandidate_inside content old hmatch candidate h).2
  have hsingle (hall : replaceAll = false) :
      (blockCandidates (lines content) (lines old)).length = 1 :=
    le_antisymm (Nat.not_lt.mp fun hlt => hmany ⟨hlt, hall⟩)
      (List.length_pos_iff.mpr hmatch.2.2.2)
  refine ⟨by rw [← hr], ?_⟩
  unfold KeepsBlocks
  dsimp only
  by_cases hapart : (blockCandidates (lines content) (lines old)).Pairwise fun a b => a.2 < b.1
  · have hblocks : LinesApart (splitInclusive content).length
        (blockCandidates (lines content) (lines old)) := ⟨hinside, hapart⟩
    have hspliced := hblocks
    rw [← length_lines] at hspliced
    rw [foldr_spliceLines (lines new) hspliced, spliceAll_lines (lines new) hblocks] at hresult
    have hresult := Option.some.inj hresult
    rw [replaces_lines_iff hblocks (by rw [← hr]) hsingle, ← hr, String.toList_ofList, ← hresult,
      unlines_flatMap_eq_iff (exists_matched hblocks hmatch.2.2.2) (ended_blocksOf hblocks)]
    exact (and_iff_right hapart).symm
  · refine iff_of_false (fun hreplaces => ?_) fun hkeep => hapart hkeep.1
    exact hapart (linesApart_of_apart hinside hline hreplaces.apart).apart

end Anchors

/-! ## Texts without blanks -/

section Stripped

variable {content old new : List Char} {replaceAll : Bool}

theorem mem_strippedChars {pos : ℕ} {s : List Char} {entry : Char × ℕ × ℕ}
    (h : entry ∈ strippedChars pos s) :
    pos ≤ entry.2.1 ∧ entry.2.2 = entry.2.1 + 1 ∧ entry.2.2 ≤ pos + s.length := by
  induction s generalizing pos with
  | nil => cases h
  | cons c s ih =>
    rw [List.length_cons]
    unfold strippedChars at h
    split_ifs at h
    · have := ih h
      omega
    · rcases List.mem_cons.mp h with rfl | h
      · dsimp only
        omega
      · have := ih h
        omega

theorem strippedChars_apart (pos : ℕ) (s : List Char) :
    (strippedChars pos s).Pairwise fun a b => a.2.2 ≤ b.2.1 := by
  induction s generalizing pos with
  | nil => exact .nil
  | cons c s ih =>
    unfold strippedChars
    split_ifs
    · exact ih _
    · exact List.pairwise_cons.mpr ⟨fun entry hentry => (mem_strippedChars hentry).1, ih _⟩

variable {needle : List Char}

theorem strippedRange_eq {stripped : List (Char × ℕ × ℕ)} (hne : needle ≠ [])
    {i : ℕ} (hi : i ∈ occurrences needle (stripped.map Prod.fst)) :
    ∃ (hfirst : i < stripped.length) (hlast : i + needle.length - 1 < stripped.length),
      strippedRange stripped needle.length i =
        some (stripped[i].2.1, stripped[i + needle.length - 1].2.2) := by
  have hpos := List.length_pos_iff.mpr hne
  have hlength := (mem_scan hne hi).2
  rw [List.length_map, Nat.zero_add] at hlength
  refine ⟨by omega, by omega, ?_⟩
  unfold strippedRange
  rw [List.getElem?_eq_getElem (by omega), List.getElem?_eq_getElem (by omega)]
  rfl

theorem apart_strippedRegions (hne : needle ≠ []) (content : List Char) :
    let stripped := strippedChars 0 content
    let regions := (occurrences needle (stripped.map Prod.fst)).map
      (strippedRegion stripped needle.length)
    Apart regions ∧ ∀ region ∈ regions, region.2 ≤ content.length := by
  intro stripped regions
  have hpos := List.length_pos_iff.mpr hne
  have horder (i j : ℕ) (hi : i < stripped.length) (hj : j < stripped.length) (hij : i < j) :
      stripped[i].2.2 ≤ stripped[j].2.1 :=
    List.pairwise_iff_getElem.mp (strippedChars_apart 0 content) i j hi hj hij
  have hplace (i : ℕ) (hi : i < stripped.length) := mem_strippedChars (List.getElem_mem hi)
  refine ⟨⟨List.forall_mem_map.mpr fun i hi => ?_, List.pairwise_map.mpr ?_⟩,
    List.forall_mem_map.mpr fun i hi => ?_⟩
  · obtain ⟨hfirst, hlast, hrange⟩ := strippedRange_eq hne hi
    rw [strippedRegion, hrange, Option.getD_some]
    by_cases hone : needle.length = 1
    · have := hplace i hfirst
      simp only [hone, Nat.add_sub_cancel]
      omega
    · have hle := (hplace i hfirst).2.1
      have hafter := (hplace _ hlast).2.1
      have := horder i (i + needle.length - 1) hfirst hlast (by omega)
      dsimp only
      omega
  · refine (scan_apart hne 0 _).imp_of_mem fun {i j} hi hj hij => ?_
    obtain ⟨hfirst, hlast, hrange⟩ := strippedRange_eq hne hi
    obtain ⟨hfirst', hlast', hrange'⟩ := strippedRange_eq hne hj
    rw [strippedRegion, strippedRegion, hrange, hrange']
    exact horder (i + needle.length - 1) j hlast hfirst' (by omega)
  · obtain ⟨hfirst, hlast, hrange⟩ := strippedRange_eq hne hi
    rw [strippedRegion, hrange, Option.getD_some]
    have := (hplace _ hlast).2.2
    dsimp only
    omega

theorem foldr_replaceStripped (hne : needle ≠ []) (content new : List Char) :
    let stripped := strippedChars 0 content
    let starts := occurrences needle (stripped.map Prod.fst)
    starts.foldr (replaceStripped stripped needle.length new) (some content) =
      some (spliceAll (fun _ => new) (starts.map (strippedRegion stripped needle.length)) content) := by
  intro stripped starts
  obtain ⟨hapart, hinside⟩ := apart_strippedRegions hne content
  rw [← foldr_trySplice new hapart hinside, List.foldr_map]
  refine List.foldr_ext _ _ _ fun i hi newContent => ?_
  obtain ⟨_, _, hrange⟩ := strippedRange_eq hne hi
  unfold replaceStripped strippedRegion
  rw [hrange]
  rfl

/-- **What `try_whitespace_stripped_replace` gives**; it never panics. -/
theorem tryWhitespaceStrippedReplace_spec :
    tryWhitespaceStrippedReplace content old new replaceAll ≠ none ∧
      ∀ r, tryWhitespaceStrippedReplace content old new replaceAll = some (.ok (some r)) →
        r.strategy = .whitespaceStripped ∧
          Replaces (regionsOf .whitespaceStripped content old) content new replaceAll r := by
  unfold tryWhitespaceStrippedReplace regionsOf
  dsimp only
  by_cases hshort : (old.filter fun c => !isWhitespace c).length = 0 ∨
      (strippedChars 0 content).length < (old.filter fun c => !isWhitespace c).length
  · rw [if_pos hshort]
    exact ⟨Option.some_ne_none _, fun r h => by cases h⟩
  rw [if_neg hshort]
  rw [not_or] at hshort
  generalize old.filter (fun c => !isWhitespace c) = needle at hshort ⊢
  have hne : needle ≠ [] := mt List.length_eq_zero_iff.mpr hshort.1
  by_cases hthree : needle.length < 3
  · rw [if_pos hthree]
    exact ⟨Option.some_ne_none _, fun r h => by cases h⟩
  rw [if_neg hthree]
  obtain ⟨hapart, hinside⟩ := apart_strippedRegions hne content
  have hfold := foldr_replaceStripped hne content new
  dsimp only at hfold
  generalize hstarts : occurrences needle ((strippedChars 0 content).map Prod.fst) = starts
    at hfold hapart hinside ⊢
  by_cases hnone : starts.length = 0
  · rw [if_pos hnone]
    exact ⟨Option.some_ne_none _, fun r h => by cases h⟩
  rw [if_neg hnone]
  by_cases hmany : 1 < starts.length ∧ replaceAll = false
  · rw [if_pos hmany]
    exact ⟨Option.some_ne_none _, fun r h => by cases h⟩
  rw [if_neg hmany]
  have hone (hall : replaceAll = false) : starts.length = 1 :=
    le_antisymm (Nat.not_lt.mp fun hlt => hmany ⟨hlt, hall⟩) (Nat.pos_of_ne_zero hnone)
  have htake : (if replaceAll then starts else starts.take 1) = starts := by
    cases replaceAll with
    | true => rfl
    | false => exact List.take_of_length_le (hone rfl).le
  have hcount : (if replaceAll then starts.length else 1) = starts.length := by
    cases replaceAll with
    | true => rfl
    | false => exact (hone rfl).symm
  rw [htake, hcount, hfold]
  refine ⟨Option.some_ne_none _, fun r h => ?_⟩
  have hr := Option.some.inj (Except.ok.inj (Option.some.inj h))
  rw [← hr]
  refine ⟨rfl, hapart, hinside, (List.length_map _).symm, fun hall => ?_, String.toList_ofList⟩
  rw [List.length_map, hone hall]

end Stripped

/-! ## All strategies -/

section Strategies

variable {closestLines : List Char → List Char → ℕ → List (ℕ × List Char)}
  {content old new : List Char} {replaceAll : Bool} {r : FuzzyReplaceResult}

theorem andThen_ok {attempt : Option Attempt} {e : SkillError}
    (h : andThen attempt (some (.error e)) = some (.ok r)) : attempt = some (.ok (some r)) := by
  unfold andThen at h
  obtain ⟨result, rfl, hresult⟩ := Option.bind_eq_some_iff.mp h
  rcases result with e | found
  · cases hresult
  · cases found with
    | none => cases hresult
    | some found => rw [Except.ok.inj (Option.some.inj hresult)]

theorem andThen_congr {attempt : Option Attempt} (h : attempt ≠ some (.ok none))
    (next next' : Option (Except SkillError FuzzyReplaceResult)) :
    andThen attempt next = andThen attempt next' := by
  unfold andThen
  refine Option.bind_congr fun result hresult => ?_
  rcases result with e | found
  · rfl
  · cases found with
    | none => exact absurd hresult h
    | some found => rfl

/-- A strategy alone. -/
def attemptOf (strategy : MatchStrategy) (content old new : List Char) (replaceAll : Bool) :
    Option Attempt :=
  match strategy with
  | .exact => some (tryExactReplace content old new replaceAll)
  | .lineTrimmed =>
    tryNormalizedReplace content (mapLines trim content) (mapLines trim old) new replaceAll strategy
  | .whitespaceNormalized => tryNormalizedReplace content (mapLines collapse content)
    (mapLines collapse old) new replaceAll strategy
  | .indentFlexible => tryNormalizedReplace content (mapLines trimStart content)
    (mapLines trimStart old) new replaceAll strategy
  | .blockAnchor => tryBlockAnchorReplace content old new replaceAll
  | .whitespaceStripped => tryWhitespaceStrippedReplace content old new replaceAll

theorem tryNormalizedReplace_ne_none {f : List Char → List Char}
    (hf : ∀ l, '\n' ∉ l → '\n' ∉ f l) (strategy : MatchStrategy) (hmatch : LinesMatch f content old) :
    tryNormalizedReplace content (mapLines f content) (mapLines f old) new replaceAll strategy ≠
      some (.ok none) := by
  obtain ⟨result, -, heq⟩ :=
    @tryNormalizedReplace_eq f content old new replaceAll hf strategy hmatch
  rw [heq]
  split_ifs <;> simp

theorem tryBlockAnchorReplace_ne_none (hmatch : BlocksMatch content old) :
    tryBlockAnchorReplace content old new replaceAll ≠ some (.ok none) := by
  rw [tryBlockAnchorReplace_eq hmatch]
  split_ifs <;> simp

theorem trimStart_newline {l : List Char} (h : '\n' ∉ l) : '\n' ∉ trimStart l :=
  fun hmem => h ((List.dropWhile_suffix _).subset hmem)

theorem trim_newline {l : List Char} (h : '\n' ∉ l) : '\n' ∉ trim l :=
  fun hmem => h (mem_of_mem_trim hmem)

theorem collapse_newline {l : List Char} (h : '\n' ∉ l) : '\n' ∉ collapse l := by
  intro hmem
  rcases mem_intercalate hmem with hblank | ⟨text, htext, hc⟩
  · exact absurd hblank (by decide)
  · exact h (Wildcard.mem_of_mem_splitOnP (List.mem_filter.mp htext).1 hc)

theorem fuzzyFindAndReplace_eq (hne : old ≠ []) :
    fuzzyFindAndReplace closestLines content old new replaceAll =
      andThen (attemptOf (firstStrategy content old) content old new replaceAll)
        (some (.error (notFoundError (closestLines content old 3) old))) := by
  unfold fuzzyFindAndReplace firstStrategy
  rw [if_neg hne]
  by_cases hexact : old <:+: content
  · rw [if_pos hexact]
    exact andThen_congr (fun h => tryExactReplace_none (Option.some.inj h) hexact) _ _
  have hnone : some (tryExactReplace content old new replaceAll) = some (.ok none) :=
    congrArg some (if_neg hexact)
  rw [if_neg hexact, hnone]
  by_cases htrim : LinesMatch trim content old
  · rw [if_pos htrim]
    exact andThen_congr (tryNormalizedReplace_ne_none (fun _ => trim_newline) _ htrim) _ _
  rw [if_neg htrim, tryNormalizedReplace_none _ htrim]
  by_cases hcollapse : LinesMatch collapse content old
  · rw [if_pos hcollapse]
    exact andThen_congr (tryNormalizedReplace_ne_none (fun _ => collapse_newline) _ hcollapse) _ _
  unfold normalizeWhitespace stripIndent
  rw [if_neg hcollapse, tryNormalizedReplace_none _ hcollapse]
  by_cases hindent : LinesMatch trimStart content old
  · rw [if_pos hindent]
    exact andThen_congr (tryNormalizedReplace_ne_none (fun _ => trimStart_newline) _ hindent) _ _
  rw [if_neg hindent, tryNormalizedReplace_none _ hindent]
  by_cases hblocks : BlocksMatch content old
  · rw [if_pos hblocks]
    exact andThen_congr (tryBlockAnchorReplace_ne_none hblocks) _ _
  rw [if_neg hblocks, tryBlockAnchorReplace_none hblocks]
  rfl

/-- What it takes for a strategy to match; the last one is tried in any case. -/
def StrategyMatches (strategy : MatchStrategy) (content old : List Char) : Prop :=
  match strategy with
  | .exact => old <:+: content
  | .lineTrimmed => LinesMatch trim content old
  | .whitespaceNormalized => LinesMatch collapse content old
  | .indentFlexible => LinesMatch trimStart content old
  | .blockAnchor => BlocksMatch content old
  | .whitespaceStripped => True

theorem firstStrategy_matches (content old : List Char) :
    StrategyMatches (firstStrategy content old) content old := by
  unfold firstStrategy
  split_ifs with hexact htrim hcollapse hindent hblocks
  · exact hexact
  · exact htrim
  · exact hcollapse
  · exact hindent
  · exact hblocks
  · trivial

/-- **Fuzzy replacement is precise exactly when what is outside can be kept.** -/
theorem precise_iff (h : fuzzyFindAndReplace closestLines content old new replaceAll = some (.ok r)) :
    Precise content old new replaceAll r ↔ KeepsOutside content old new := by
  have hempty : old ≠ [] := by
    rintro rfl
    unfold fuzzyFindAndReplace at h
    rw [if_pos rfl] at h
    cases h
  rw [fuzzyFindAndReplace_eq hempty] at h
  have hattempt := andThen_ok h
  have hmatch := firstStrategy_matches content old
  unfold Precise KeepsOutside
  cases hfirst : firstStrategy content old <;> rw [hfirst] at hattempt hmatch
  case exact =>
    obtain ⟨-, hstrategy, hreplaces⟩ := tryExactReplace_ok hempty (Option.some.inj hattempt)
    exact iff_of_true (hstrategy ▸ hreplaces) trivial
  case lineTrimmed =>
    obtain ⟨hstrategy, hiff⟩ := tryNormalizedReplace_ok (fun _ => trim_newline) hmatch hattempt
    rw [hstrategy]
    exact hiff
  case whitespaceNormalized =>
    obtain ⟨hstrategy, hiff⟩ := tryNormalizedReplace_ok (fun _ => collapse_newline) hmatch hattempt
    rw [hstrategy]
    exact hiff
  case indentFlexible =>
    obtain ⟨hstrategy, hiff⟩ := tryNormalizedReplace_ok (fun _ => trimStart_newline) hmatch hattempt
    rw [hstrategy]
    exact hiff
  case blockAnchor =>
    obtain ⟨hstrategy, hiff⟩ := tryBlockAnchorReplace_ok hmatch hattempt
    rw [hstrategy]
    exact hiff
  case whitespaceStripped =>
    obtain ⟨hstrategy, hreplaces⟩ := tryWhitespaceStrippedReplace_spec.2 r hattempt
    exact iff_of_true (hstrategy ▸ hreplaces) trivial

theorem precise_lineTrimmed :
    fuzzyFindAndReplace (fun _ _ _ => []) " b\nc".toList "b ".toList "x".toList false =
      some (.ok ⟨"x\nc", 1, .lineTrimmed⟩) ∧
    (Precise " b\nc".toList "b ".toList "x".toList false ⟨"x\nc", 1, .lineTrimmed⟩ ↔
      KeepsOutside " b\nc".toList "b ".toList "x".toList) :=
  ⟨by decide, @precise_iff (fun _ _ _ => []) _ _ _ _ _ (by decide)⟩

/-- The newline behind the last line is lost. -/
theorem newline_lost : ¬ ∀ closestLines content old new replaceAll r,
    fuzzyFindAndReplace closestLines content old new replaceAll = some (.ok r) →
      Precise content old new replaceAll r := by
  intro hall
  have hprecise := hall (fun _ _ _ => []) " a\n".toList "a ".toList "b".toList false
    ⟨"b", 1, .lineTrimmed⟩ (by decide)
  exact absurd hprecise.result (by decide)

end Strategies

end LibreFang.Skills
