import LibreFang.Skills.FuzzyPrecise

/-!
# When fuzzy replacement completes

* `SplicesFit`: the ranges of lines that are replaced stay in the list of lines.
* `built`: the normalizations of which a call builds lists of lines.
* **`fuzzyCompletes_iff`**: no panic, and a normalized line for every line of these lists, exactly
  when the ranges fit and the last line is not blank.
-/

namespace LibreFang.Skills

open Text TextLines Occurrences LineBlocks

/-- The normalizations of the strategies up to one of them. -/
def normalizations : MatchStrategy → List (List Char → List Char)
  | .exact => []
  | .lineTrimmed => [trim]
  | .whitespaceNormalized => [trim, collapse]
  | .indentFlexible | .blockAnchor | .whitespaceStripped => [trim, collapse, trimStart]

/-- The normalizations of which a call builds the lists of lines: of the strategies up to the first
one that matches, where the normalized text contains what is looked for. -/
def built (content old : List Char) : List (List Char → List Char) :=
  if old = [] then []
  else (normalizations (firstStrategy content old)).filter fun f =>
    mapLines f old <:+: mapLines f content

/-- **No panic, and a normalized line for every line** of the lists that are built. -/
def Completes (content old new : List Char) (replaceAll : Bool) : Prop :=
  (∀ closestLines, fuzzyFindAndReplace closestLines content old new replaceAll ≠ none) ∧
    ∀ f ∈ built content old, (lines (mapLines f content)).length = (lines content).length

/-- Ranges of `removed` lines, replaced by `added` lines from the last range to the first, are in the
list of lines, of which there are `n`. -/
def SplicesFit (n removed added : ℕ) : List (ℕ × ℕ) → Prop
  | [] => True
  | range :: ranges => SplicesFit n removed added ranges ∧
    range.2 + ranges.length * removed < n + ranges.length * added

section Splices

variable {newLines ls : List (List Char)} {removed : ℕ}

theorem length_foldr_spliceLines {ranges : List (ℕ × ℕ)} (hpos : 0 < removed)
    (hranges : ∀ range ∈ ranges, range.2 = range.1 + removed - 1) {result : List (List Char)}
    (h : ranges.foldr (spliceLines newLines) (some ls) = some result) :
    result.length + ranges.length * removed = ls.length + ranges.length * newLines.length := by
  induction ranges generalizing result with
  | nil =>
    cases h
    rw [List.length_nil, Nat.zero_mul, Nat.zero_mul]
  | cons range ranges ih =>
    obtain ⟨hrange, hranges⟩ := List.forall_mem_cons.mp hranges
    obtain ⟨rest, hrest, hresult⟩ := Option.bind_eq_some_iff.mp h
    have hlength := ih hranges hrest
    split_ifs at hresult with hin
    rw [← Option.some.inj hresult]
    unfold splice
    dsimp only at hin ⊢
    rw [List.length_append, List.length_append, List.length_take, List.length_drop,
      List.length_cons, Nat.succ_mul, Nat.succ_mul]
    omega

/-- **Ranges of lines are replaced without a panic exactly if they fit.** -/
theorem foldr_spliceLines_isSome_iff {ranges : List (ℕ × ℕ)} (hpos : 0 < removed)
    (hranges : ∀ range ∈ ranges, range.2 = range.1 + removed - 1) :
    (ranges.foldr (spliceLines newLines) (some ls)).isSome ↔
      SplicesFit ls.length removed newLines.length ranges := by
  induction ranges with
  | nil => exact iff_of_true rfl trivial
  | cons range ranges ih =>
    obtain ⟨hrange, hranges⟩ := List.forall_mem_cons.mp hranges
    have ih := ih hranges
    rw [List.foldr_cons, SplicesFit, ← ih]
    cases hrest : ranges.foldr (spliceLines newLines) (some ls) with
    | none => exact iff_of_false Bool.false_ne_true fun h => Bool.false_ne_true h.1
    | some rest =>
      have hlength := length_foldr_spliceLines hpos hranges hrest
      have hfit : (spliceLines newLines range (some rest)).isSome ↔
          range.1 ≤ range.2 + 1 ∧ range.2 + 1 ≤ rest.length := by
        unfold spliceLines trySplice
        rw [Option.bind_some]
        split_ifs with hin
        · exact iff_of_true rfl hin
        · exact iff_of_false Bool.false_ne_true hin
      rw [hfit]
      exact ⟨fun h => ⟨rfl, by omega⟩, fun h => by omega⟩

end Splices

/-! ## No panic -/

section Panic

variable {closestLines : List Char → List Char → ℕ → List (ℕ × List Char)}
  {content old new : List Char} {replaceAll : Bool}

theorem andThen_ne_none {attempt : Option Attempt} {e : SkillError} :
    andThen attempt (some (.error e)) ≠ none ↔ attempt ≠ none := by
  unfold andThen
  rcases attempt with - | result | found
  · exact iff_of_false (fun h => h rfl) fun h => h rfl
  · exact iff_of_true (Option.some_ne_none _) (Option.some_ne_none _)
  · cases found <;> exact iff_of_true (Option.some_ne_none _) (Option.some_ne_none _)

variable {f : List Char → List Char}

theorem tryNormalizedReplace_completes
    (hf : ∀ l, '\n' ∉ l → '\n' ∉ f l) (strategy : MatchStrategy) (hmatch : LinesMatch f content old) :
    tryNormalizedReplace content (mapLines f content) (mapLines f old) new replaceAll strategy ≠
      none := by
  obtain ⟨result, -, heq⟩ :=
    @tryNormalizedReplace_eq f content old new replaceAll hf strategy hmatch
  rw [heq]
  split_ifs <;> exact Option.some_ne_none _

theorem tryBlockAnchorReplace_completes (hmatch : BlocksMatch content old) :
    tryBlockAnchorReplace content old new replaceAll ≠ none ↔
      (replaceAll = true → SplicesFit (lines content).length (lines old).length (lines new).length
        (blockCandidates (lines content) (lines old))) := by
  have hpos : 0 < (lines old).length := by
    have := hmatch.1
    omega
  have hfit := @foldr_spliceLines_isSome_iff (lines new) (lines content) _
    (blockCandidates (lines content) (lines old)) hpos fun c hc => (mem_blockCandidates hc).1
  have hmap (resultLines : Option (List (List Char))) (g : List (List Char) → Attempt) :
      resultLines.map g ≠ none ↔ resultLines.isSome := by
    cases resultLines with
    | none => exact iff_of_false (fun h => h rfl) Bool.false_ne_true
    | some result => exact iff_of_true (Option.some_ne_none _) rfl
  rw [tryBlockAnchorReplace_eq hmatch]
  by_cases hmany : 1 < (blockCandidates (lines content) (lines old)).length ∧ replaceAll = false
  · rw [if_pos hmany]
    refine iff_of_true (Option.some_ne_none _) fun hall => ?_
    exact absurd (hall.symm.trans hmany.2) (by decide)
  rw [if_neg hmany, hmap, hfit]
  refine ⟨fun h _ => h, fun h => ?_⟩
  cases replaceAll with
  | true => exact h rfl
  | false =>
    -- there is one candidate, and it is in the text
    have hone : (blockCandidates (lines content) (lines old)).length = 1 :=
      le_antisymm (Nat.not_lt.mp fun hlt => hmany ⟨hlt, rfl⟩) (List.length_pos_iff.mpr hmatch.2.2.2)
    obtain ⟨candidate, hcandidate⟩ := List.length_eq_one_iff.mp hone
    have hin := (blockCandidate_inside hmatch (hcandidate ▸ List.mem_singleton_self candidate)).1.2
    rw [← length_lines] at hin
    rw [hcandidate]
    exact ⟨trivial, by simpa using hin⟩

end Panic

/-! ## A normalized line for every line -/

variable {s : List Char}

theorem trimStart_eq_nil_iff : trimStart s = [] ↔ ∀ c ∈ s, isWhitespace c = true :=
  List.dropWhile_eq_nil_iff

theorem trim_eq_nil_iff : trim s = [] ↔ ∀ c ∈ s, isWhitespace c = true := by
  rw [← trimStart_eq_nil_iff]
  refine List.rdropWhile_eq_nil_iff.trans ⟨fun h => ?_, fun h c hc => by rw [h] at hc; cases hc⟩
  rw [← trimStart_eq_nil_iff] at h
  rwa [trimStart, trimStart, List.dropWhile_idempotent] at h

theorem exists_mem_splitOnP {p : Char → Bool} {c : Char} (hc : c ∈ s)
    (hp : p c = false) : ∃ text ∈ s.splitOnP p, c ∈ text := by
  induction s with
  | nil => cases hc
  | cons d s ih =>
    rw [List.splitOnP_cons_eq_if_modifyHead]
    split_ifs with hd
    · rcases List.mem_cons.mp hc with rfl | hc
      · exact absurd (hp.symm.trans hd) Bool.false_ne_true
      · obtain ⟨text, htext, hmem⟩ := ih hc
        exact ⟨text, List.mem_cons_of_mem _ htext, hmem⟩
    · obtain ⟨first, rest, hsplit⟩ := List.exists_cons_of_ne_nil (List.splitOnP_ne_nil p s)
      rw [hsplit] at ih ⊢
      rw [List.modifyHead_cons]
      rcases List.mem_cons.mp hc with rfl | hc
      · exact ⟨c :: first, List.mem_cons_self, List.mem_cons_self⟩
      · obtain ⟨text, htext, hmem⟩ := ih hc
        rcases List.mem_cons.mp htext with rfl | htext
        · exact ⟨d :: text, List.mem_cons_self, List.mem_cons_of_mem _ hmem⟩
        · exact ⟨text, List.mem_cons_of_mem _ htext, hmem⟩

theorem mem_intercalate_of_mem {sep text : List Char} {texts : List (List Char)} {c : Char}
    (htext : text ∈ texts) (hc : c ∈ text) : c ∈ sep.intercalate texts := by
  induction texts with
  | nil => cases htext
  | cons first texts ih =>
    cases texts with
    | nil =>
      rw [List.intercalate_singleton]
      exact List.mem_singleton.mp htext ▸ hc
    | cons next texts =>
      rw [List.intercalate_cons_cons, List.append_assoc]
      rcases List.mem_cons.mp htext with rfl | htext
      · exact List.mem_append_left _ hc
      · exact List.mem_append_right _ (List.mem_append_right _ (ih htext))

theorem collapse_ne_nil {c : Char} (hc : c ∈ s) (hp : isWhitespace c = false) :
    collapse s ≠ [] := by
  obtain ⟨text, htext, hmem⟩ := exists_mem_splitOnP hc hp
  have hword : text ∈ splitWhitespace s :=
    List.mem_filter.mpr ⟨htext, decide_eq_true (List.ne_nil_of_mem hmem)⟩
  exact List.ne_nil_of_mem (mem_intercalate_of_mem hword hmem)

theorem eq_nil_of_mem_splitOnP {p : Char → Bool} {s text : List Char} (h : ∀ c ∈ s, p c = true)
    (htext : text ∈ s.splitOnP p) : text = [] := by
  induction s with
  | nil => exact List.mem_singleton.mp htext
  | cons c s ih =>
    rw [List.forall_mem_cons] at h
    rw [List.splitOnP_cons_eq_if_modifyHead, if_pos h.1] at htext
    exact (List.mem_cons.mp htext).elim id (ih h.2)

theorem collapse_eq_nil_iff : collapse s = [] ↔ ∀ c ∈ s, isWhitespace c = true := by
  constructor
  · intro h c hc
    by_contra hp
    exact collapse_ne_nil hc (Bool.eq_false_iff.mpr hp) h
  · intro h
    have hwords : splitWhitespace s = [] := List.filter_eq_nil_iff.mpr fun text htext hne =>
      of_decide_eq_true hne (eq_nil_of_mem_splitOnP h htext)
    unfold collapse
    rw [hwords]
    rfl

/-- The last line of a text, if any, is not blank. -/
def LastLineVisible (content : List Char) : Prop :=
  ∀ line ∈ (lines content).getLast?, ¬ ∀ c ∈ line, isWhitespace c = true

theorem aligned_iff (content : List Char) : ∀ f ∈ [trim, collapse, trimStart],
    ((lines (mapLines f content)).length = (lines content).length ↔ LastLineVisible content) := by
  have hone {f : List Char → List Char} (hf : ∀ l, '\n' ∉ l → '\n' ∉ f l)
      (hblank : ∀ l, f l = [] ↔ ∀ c ∈ l, isWhitespace c = true) :
      ((lines (mapLines f content)).length = (lines content).length ↔ LastLineVisible content) := by
    have hlength := length_lines_mapLines hf content
    unfold LastLineVisible
    cases hlast : (lines content).getLast? with
    | none =>
      rw [hlast, Option.map_none, if_neg (Option.some_ne_none _).symm] at hlength
      exact iff_of_true hlength fun line hline => by cases hline
    | some line =>
      rw [hlast, Option.map_some] at hlength
      simp only [Option.mem_some_iff, forall_eq', ← hblank]
      by_cases hline : f line = []
      · rw [if_pos (congrArg some hline)] at hlength
        exact iff_of_false (by omega) (not_not.mpr hline)
      · rw [if_neg fun h => hline (Option.some.inj h)] at hlength
        exact iff_of_true hlength hline
  rw [List.forall_mem_cons, List.forall_mem_cons, List.forall_mem_singleton]
  exact ⟨hone (fun _ => trim_newline) fun _ => trim_eq_nil_iff,
    hone (fun _ => collapse_newline) fun _ => collapse_eq_nil_iff,
    hone (fun _ => trimStart_newline) fun _ => trimStart_eq_nil_iff⟩

theorem mem_normalizations {strategy : MatchStrategy}
    (h : f ∈ normalizations strategy) : f ∈ [trim, collapse, trimStart] := by
  cases strategy with
  | exact => cases h
  | lineTrimmed => exact List.mem_append_left [collapse, trimStart] h
  | whitespaceNormalized => exact List.mem_append_left [trimStart] h
  | indentFlexible | blockAnchor | whitespaceStripped => exact h

theorem mem_of_mem_built {content old : List Char}
    (h : f ∈ built content old) : f ∈ [trim, collapse, trimStart] := by
  unfold built at h
  split_ifs at h
  · cases h
  · exact mem_normalizations (List.mem_filter.mp h).1

/-! ## Completion -/

/-- What it takes: the last line is not blank or no list is built, and blocks that are all replaced
fit. -/
def CanComplete (content old new : List Char) (replaceAll : Bool) : Prop :=
  (built content old = [] ∨ LastLineVisible content) ∧ (old ≠ [] → firstStrategy content old = .blockAnchor →
    replaceAll = true → SplicesFit (lines content).length (lines old).length (lines new).length
      (blockCandidates (lines content) (lines old)))

/-- **Fuzzy replacement completes exactly if the last line is not blank, where that matters, and
blocks fit.** -/
theorem fuzzyCompletes_iff (content old new : List Char) (replaceAll : Bool) :
    Completes content old new replaceAll ↔ CanComplete content old new replaceAll := by
  unfold Completes CanComplete
  have haligned : (∀ f ∈ built content old, (lines (mapLines f content)).length =
      (lines content).length) ↔ built content old = [] ∨ LastLineVisible content := by
    cases hbuilt : built content old with
    | nil => exact iff_of_true (fun f hf => by cases hf) (.inl rfl)
    | cons f fs =>
      rw [or_iff_right (List.cons_ne_nil f fs), ← hbuilt]
      refine ⟨fun h => ?_, fun h g hg => (aligned_iff content g (mem_of_mem_built hg)).mpr h⟩
      have hf : f ∈ built content old := hbuilt ▸ List.mem_cons_self
      exact (aligned_iff content f (mem_of_mem_built hf)).mp (h f hf)
  rw [haligned, and_comm]
  refine and_congr_right fun _ => ?_
  by_cases hempty : old = []
  · refine iff_of_true (fun closestLines => ?_) fun hne => absurd hempty hne
    unfold fuzzyFindAndReplace
    rw [if_pos hempty]
    exact Option.some_ne_none _
  have hattempt : (∀ closestLines, fuzzyFindAndReplace closestLines content old new replaceAll ≠
      none) ↔ attemptOf (firstStrategy content old) content old new replaceAll ≠ none := by
    simp only [fuzzyFindAndReplace_eq hempty, andThen_ne_none]
    exact ⟨fun h => h fun _ _ _ => [], fun h _ => h⟩
  rw [hattempt]
  have hmatch := firstStrategy_matches content old
  cases hfirst : firstStrategy content old <;> rw [hfirst] at hmatch
  case exact => exact iff_of_true (Option.some_ne_none _) fun _ h => by cases h
  case lineTrimmed =>
    exact iff_of_true (tryNormalizedReplace_completes (fun _ => trim_newline) _ hmatch)
      fun _ h => by cases h
  case whitespaceNormalized =>
    exact iff_of_true (tryNormalizedReplace_completes (fun _ => collapse_newline) _ hmatch)
      fun _ h => by cases h
  case indentFlexible =>
    exact iff_of_true (tryNormalizedReplace_completes (fun _ => trimStart_newline) _ hmatch)
      fun _ h => by cases h
  case blockAnchor =>
    exact (tryBlockAnchorReplace_completes hmatch).trans ⟨fun h _ _ => h, fun h => h hempty rfl⟩
  case whitespaceStripped =>
    exact iff_of_true tryWhitespaceStrippedReplace_spec.1 fun _ h => by cases h

/-- Two blocks share a line, and what is put for the last of them is too short. -/
theorem overlapping_blocks_panic : ¬ ∀ content old new replaceAll,
    Completes content old new replaceAll := by
  intro hall
  have hcompletes := (hall "a\nb\nc\nd\nx\na\nb\nc\nd\ny\na".toList "a\nb\nc\nd\nz\na".toList []
    true).1 fun _ _ _ => []
  exact hcompletes (by decide)

end LibreFang.Skills
