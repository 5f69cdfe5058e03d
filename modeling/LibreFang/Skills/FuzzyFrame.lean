import LibreFang.Lib.LineBlocks
import LibreFang.Skills.Fuzzy

/-!
# What fuzzy replacement leaves alone

* `regionsOf`: the regions of a text that a strategy matches; `Replaces`, `Precise`: they are
  replaced, and nothing else.
* `firstStrategy`: the first strategy that matches; `KeepsOutside`: what it takes to keep what is
  outside.
* **`tryNormalizedReplace_ok`**: replaced line by line, when that is precise.
-/

namespace LibreFang.Skills

open Text TextLines Occurrences LineBlocks

/-! ## Regions -/

/-- The lines that match when each is normalized, the first and the last of each match. -/
def lineMatches (f : List Char → List Char) (content old : List Char) : List (ℕ × ℕ) :=
  let oldLines := lines (mapLines f old)
  (occurrences oldLines (lines (mapLines f content))).map fun i => (i, i + oldLines.length - 1)

/-- The places of a match, if they are in the text. -/
def strippedRegion (stripped : List (Char × ℕ × ℕ)) (needleLen charStart : ℕ) : ℕ × ℕ :=
  (strippedRange stripped needleLen charStart).getD (0, 0)

/-- The regions of a text that a strategy matches. -/
def regionsOf (strategy : MatchStrategy) (content old : List Char) : List (ℕ × ℕ) :=
  match strategy with
  | .exact => (occurrences old content).map fun i => (i, i + old.length)
  | .lineTrimmed => (lineMatches trim content old).map (lineRegion content)
  | .whitespaceNormalized => (lineMatches collapse content old).map (lineRegion content)
  | .indentFlexible => (lineMatches trimStart content old).map (lineRegion content)
  | .blockAnchor => (blockCandidates (lines content) (lines old)).map (lineRegion content)
  | .whitespaceStripped =>
    let needle := old.filter fun c => !isWhitespace c
    (occurrences needle ((strippedChars 0 content).map Prod.fst)).map
      (strippedRegion (strippedChars 0 content) needle.length)

/-- **Regions are replaced and nothing else**: they do not overlap and lie in the text, there is one
if not all are to be replaced, and the new text is the old one with each of them replaced. -/
structure Replaces (regions : List (ℕ × ℕ)) (content new : List Char) (replaceAll : Bool)
    (r : FuzzyReplaceResult) : Prop where
  apart : Apart regions
  inside : ∀ region ∈ regions, region.2 ≤ content.length
  count : r.matchCount = regions.length
  single : replaceAll = false → regions.length = 1
  result : r.newContent.toList = spliceAll (fun _ => new) regions content

/-- **Only what matched is replaced.** -/
def Precise (content old new : List Char) (replaceAll : Bool) (r : FuzzyReplaceResult) : Prop :=
  Replaces (regionsOf r.strategy content old) content new replaceAll r

/-! ## What is kept -/

/-- Some lines match when each is normalized. -/
def LinesMatch (f : List Char → List Char) (content old : List Char) : Prop :=
  mapLines f old <:+: mapLines f content ∧ lines (mapLines f old) ≠ [] ∧ lineMatches f content old ≠ []

instance (f : List Char → List Char) (content old : List Char) :
    Decidable (LinesMatch f content old) := inferInstanceAs (Decidable (_ ∧ _ ∧ _))

/-- Some blocks match by their first and last lines. -/
def BlocksMatch (content old : List Char) : Prop :=
  2 ≤ (lines old).length ∧ (lines old).head?.map trim ≠ some [] ∧
    (lines old).getLast?.map trim ≠ some [] ∧ blockCandidates (lines content) (lines old) ≠ []

instance (content old : List Char) : Decidable (BlocksMatch content old) :=
  inferInstanceAs (Decidable (_ ∧ _ ∧ _ ∧ _))

/-- The first strategy that matches; the last one if no other does. -/
def firstStrategy (content old : List Char) : MatchStrategy :=
  if old <:+: content then .exact
  else if LinesMatch trim content old then .lineTrimmed
  else if LinesMatch collapse content old then .whitespaceNormalized
  else if LinesMatch trimStart content old then .indentFlexible
  else if BlocksMatch content old then .blockAnchor
  else .whitespaceStripped

/-- What it takes line by line: the last line is not blank once normalized, and what is kept and
what matches ends in a newline, the last in nothing. -/
def KeepsLines (f : List Char → List Char) (content old : List Char) : Prop :=
  (lines content).getLast?.map f ≠ some [] ∧
    PlainEnds (blocksOf (splitInclusive content) (lineMatches f content old))

/-- What it takes for blocks: they share no line, what is kept and what matches ends in a newline,
the last in nothing, so do the lines of `new`, and if `new` is empty nothing else is in the text. -/
def KeepsBlocks (content old new : List Char) : Prop :=
  let candidates := blockCandidates (lines content) (lines old)
  let blocks := blocksOf (splitInclusive content) candidates
  candidates.Pairwise (fun a b => a.2 < b.1) ∧ PlainEnds blocks ∧ unlines (lines new) = new ∧
    (new = [] → blocks.length = 1)

/-- **What it takes to keep what is outside.** -/
def KeepsOutside (content old new : List Char) : Prop :=
  match firstStrategy content old with
  | .exact => True
  | .lineTrimmed => KeepsLines trim content old
  | .whitespaceNormalized => KeepsLines collapse content old
  | .indentFlexible => KeepsLines trimStart content old
  | .blockAnchor => KeepsBlocks content old new
  | .whitespaceStripped => True

/-! ## The text itself -/

section Exact

variable {content old new : List Char} {replaceAll : Bool} {r : FuzzyReplaceResult}

theorem replaceChars_eq_rewrite (skip : ℕ) (s : List Char) :
    replaceChars old new skip s = rewrite old new skip s s := by
  induction s generalizing skip with
  | nil => cases skip <;> rfl
  | cons c s ih =>
    cases skip with
    | succ skip => exact ih skip
    | zero =>
      rw [replaceChars, rewrite, ih, ih]
      rfl

theorem scan_splitOnceStr (hne : old ≠ []) (pos : ℕ) (s : List Char) :
    scan old pos 0 s = (splitOnceStr old s).elim [] fun parts =>
      (pos + parts.1.length) :: scan old (pos + parts.1.length + old.length) 0 parts.2 := by
  induction s generalizing pos with
  | nil => rfl
  | cons c s ih =>
    unfold splitOnceStr
    by_cases hbegins : old.isPrefixOf (c :: s) = true
    · obtain ⟨rest, hrest⟩ := List.isPrefixOf_iff_prefix.mp hbegins
      rw [if_pos hbegins, ← hrest, scan_append hne, List.drop_left]
      rfl
    · rw [if_neg hbegins, scan_cons (mt List.isPrefixOf_iff_prefix.mpr hbegins), ih]
      cases splitOnceStr old s with
      | none => rfl
      | some parts =>
        have hpos : pos + 1 + parts.1.length = pos + (parts.1.length + 1) := by omega
        simp only [Option.map_some, Option.elim_some, List.length_cons, hpos]

theorem apart_occurrences (hne : old ≠ []) :
    Apart ((occurrences old content).map fun i => (i, i + old.length)) ∧
      ∀ region ∈ (occurrences old content).map fun i => (i, i + old.length),
        region.2 ≤ content.length := by
  refine ⟨⟨List.forall_mem_map.mpr fun i _ => Nat.le_add_right _ _,
    List.pairwise_map.mpr (scan_apart hne 0 content)⟩, List.forall_mem_map.mpr fun i hi => ?_⟩
  have hmem := (mem_scan hne hi).2
  omega

theorem tryExactReplace_ok (hne : old ≠ [])
    (h : tryExactReplace content old new replaceAll = .ok (some r)) : old <:+: content ∧
      r.strategy = .exact ∧ Replaces (regionsOf .exact content old) content new replaceAll r := by
  unfold tryExactReplace at h
  by_cases hmem : old <:+: content
  · rw [if_pos hmem] at h
    dsimp only at h
    by_cases hmany : 1 < (occurrences old content).length ∧ replaceAll = false
    · rw [if_pos hmany] at h
      cases h
    · rw [if_neg hmany] at h
      have hr := Option.some.inj (Except.ok.inj h)
      have hpos := List.length_pos_iff.mpr (scan_ne_nil hne 0 hmem)
      have hone (hall : replaceAll = false) : (occurrences old content).length = 1 :=
        le_antisymm (Nat.not_lt.mp fun hlt => hmany ⟨hlt, hall⟩) hpos
      obtain ⟨hapart, hinside⟩ := @apart_occurrences content old hne
      refine ⟨hmem, by rw [← hr], hapart, hinside, ?_, fun hall => ?_, ?_⟩
      · rw [← hr, regionsOf, List.length_map]
        cases replaceAll with
        | true => rfl
        | false => exact (hone rfl).symm
      · rw [regionsOf, List.length_map, hone hall]
      · rw [← hr, String.toList_ofList]
        cases replaceAll with
        | true =>
          rw [if_pos rfl, replaceChars_eq_rewrite]
          exact (@spliceAll_scan _ _ _ old new content hne [] content le_rfl).symm
        | false =>
          have hscan := scan_splitOnceStr hne 0 content
          have hlength := hone rfl
          unfold occurrences at hlength
          rw [if_neg Bool.false_ne_true]
          cases hsplit : splitOnceStr old content with
          | none =>
            rw [hscan, hsplit] at hlength
            cases hlength
          | some parts =>
            rw [hsplit, Option.elim_some] at hscan
            rw [hscan, List.length_cons, Nat.add_eq_right, List.length_eq_zero_iff] at hlength
            rw [hlength, Nat.zero_add] at hscan
            unfold regionsOf occurrences
            rw [hscan, List.map_singleton, eq_of_splitOnceStr hsplit, ← List.append_assoc]
            exact (@splice_append _ (fun _ => new) parts.1 old parts.2
              (parts.1.length, parts.1.length + old.length) rfl List.length_append).symm
  · rw [if_neg hmem] at h
    cases h

theorem tryExactReplace_none (h : tryExactReplace content old new replaceAll = .ok none) :
    ¬ old <:+: content := by
  intro hmem
  unfold tryExactReplace at h
  rw [if_pos hmem] at h
  dsimp only at h
  by_cases hmany : 1 < (occurrences old content).length ∧ replaceAll = false
  · rw [if_pos hmany] at h
    cases h
  · rw [if_neg hmany] at h
    cases h

end Exact

/-! ## Line by line -/

section Lines

variable {f : List Char → List Char} {content old new : List Char} {replaceAll : Bool}
  {r : FuzzyReplaceResult}

theorem replaces_lines_iff {blocks : List (ℕ × ℕ)}
    (h : LinesApart (splitInclusive content).length blocks) (hcount : r.matchCount = blocks.length)
    (hsingle : replaceAll = false → blocks.length = 1) :
    Replaces (blocks.map (lineRegion content)) content new replaceAll r ↔
      r.newContent.toList = expand new (blocksOf (splitInclusive content) blocks) := by
  rw [← spliceAll_lineRegions new h]
  refine ⟨Replaces.result, fun hresult => ⟨(apart_lineRegions h).1, (apart_lineRegions h).2, ?_, ?_,
    hresult⟩⟩
  · rw [hcount, List.length_map]
  · rwa [List.length_map]

theorem length_lines_mapLines (hf : ∀ l, '\n' ∉ l → '\n' ∉ f l) (content : List Char) :
    (lines (mapLines f content)).length + (if (lines content).getLast?.map f = some [] then 1 else 0) =
      (lines content).length := by
  rw [length_lines (mapLines f content)]
  unfold mapLines
  have hmem : ∀ l ∈ lines content, '\n' ∉ f l := fun l hl => hf l (not_mem_of_mem_lines hl)
  obtain hnil | ⟨front, last, hlines⟩ := List.eq_nil_or_concat (lines content)
  · rw [hnil]
    rfl
  · rw [hlines, List.concat_eq_append] at hmem ⊢
    rw [List.forall_mem_append, List.forall_mem_singleton] at hmem
    rw [List.map_append, List.map_singleton, splitInclusive_unlines (List.forall_mem_map.mpr hmem.1)
      hmem.2, List.getLast?_concat, Option.map_some, List.length_append, List.length_map,
      List.length_map, List.length_append, List.length_singleton]
    by_cases hempty : f last = []
    · rw [if_pos hempty, if_pos (congrArg some hempty)]
      rfl
    · rw [if_neg hempty, if_neg (mt Option.some.inj hempty)]
      rfl

theorem length_lines_mapLines_le (hf : ∀ l, '\n' ∉ l → '\n' ∉ f l) (content : List Char) :
    (lines (mapLines f content)).length ≤ (lines content).length :=
  (Nat.le_add_right _ _).trans (length_lines_mapLines hf content).le

theorem linesApart_lineMatches (hf : ∀ l, '\n' ∉ l → '\n' ∉ f l)
    (hne : lines (mapLines f old) ≠ []) :
    LinesApart (splitInclusive content).length (lineMatches f content old) := by
  have hpos := List.length_pos_iff.mpr hne
  refine ⟨List.forall_mem_map.mpr fun i hi => ?_, List.pairwise_map.mpr ?_⟩
  · have hmem := (mem_scan hne hi).2
    rw [← length_lines, ← length_lines_mapLines hf content]
    dsimp only
    omega
  · refine (scan_apart hne 0 _).imp fun {i j} hij => ?_
    dsimp only
    omega

variable {oldLines : List (List Char)}

theorem rebuild_found {done : ℕ} {n : List Char} {norm : List (List Char)}
    (hbegins : oldLines <+: n :: norm) (hdone : replaceAll = true ∨ done = 0)
    (orig : List (List Char)) : rebuild oldLines new replaceAll done 0 (n :: norm) orig =
      (rebuild oldLines new replaceAll (done + 1) (oldLines.length - 1) norm orig.tail).map
        fun result => (new :: result.1, result.2) := by
  cases orig <;> rw [rebuild, if_pos (by simpa [hbegins] using hdone)]

theorem rebuild_next {n : List Char} {norm : List (List Char)} (hbegins : ¬ oldLines <+: n :: norm)
    (done : ℕ) (line : List Char) (orig : List (List Char)) :
    rebuild oldLines new replaceAll done 0 (n :: norm) (line :: orig) =
      (rebuild oldLines new replaceAll done 0 norm orig).map
        fun result => (line :: result.1, result.2) := by
  rw [rebuild, if_neg (by simp [hbegins])]

theorem rebuild_eq {norm orig : List (List Char)} (h : norm.length ≤ orig.length)
    (done skip pos : ℕ) : ∃ result,
      rebuild oldLines new true done skip norm orig =
        some (result, done + (scan oldLines pos skip norm).length) ∧
      result ++ orig.drop norm.length = rewrite oldLines [new] skip norm orig := by
  induction norm generalizing done skip pos orig with
  | nil => exact ⟨[], by cases skip <;> rfl, by cases skip <;> rfl⟩
  | cons n norm ih =>
    cases orig with
    | nil => exact absurd h (Nat.not_succ_le_zero _)
    | cons line orig =>
      have hle := Nat.le_of_succ_le_succ h
      cases skip with
      | succ skip => exact ih hle done skip (pos + 1)
      | zero =>
        rw [List.length_cons, List.drop_succ_cons]
        by_cases hbegins : oldLines <+: n :: norm
        · obtain ⟨result, hresult, hrest⟩ := ih hle (done + 1) (oldLines.length - 1) (pos + 1)
          refine ⟨new :: result, ?_, ?_⟩
          · rw [rebuild_found hbegins (.inl rfl), List.tail_cons, hresult, scan_found hbegins,
              List.length_cons, Nat.add_right_comm]
            rfl
          · rw [rewrite_found hbegins, List.tail_cons, ← hrest]
            rfl
        · obtain ⟨result, hresult, hrest⟩ := ih hle done 0 (pos + 1)
          refine ⟨line :: result, ?_, ?_⟩
          · rw [rebuild_next hbegins, scan_cons hbegins, hresult]
            rfl
          · rw [rewrite_next hbegins, ← hrest]
            rfl

theorem rebuild_once {norm orig : List (List Char)} (hlength : norm.length ≤ orig.length)
    {done skip pos : ℕ} (h : done + (scan oldLines pos skip norm).length ≤ 1) :
    rebuild oldLines new false done skip norm orig = rebuild oldLines new true done skip norm orig := by
  induction norm generalizing done skip pos orig with
  | nil => cases skip <;> rfl
  | cons n norm ih =>
    cases orig with
    | nil => exact absurd hlength (Nat.not_succ_le_zero _)
    | cons line orig =>
      have hle := Nat.le_of_succ_le_succ hlength
      cases skip with
      | succ skip => exact ih hle h
      | zero =>
        by_cases hbegins : oldLines <+: n :: norm
        · rw [scan_found hbegins, List.length_cons] at h
          obtain rfl : done = 0 := by omega
          rw [rebuild_found hbegins (.inr rfl), rebuild_found hbegins (.inr rfl), List.tail_cons,
            @ih orig hle 1 (oldLines.length - 1) (pos + 1) (by omega)]
        · rw [scan_cons hbegins] at h
          rw [rebuild_next hbegins, rebuild_next hbegins, ih hle h]

theorem rebuild_ne_nil {norm orig result : List (List Char)} (hne : norm ≠ []) {count : ℕ}
    (h : rebuild oldLines new true 0 0 norm orig = some (result, count)) : result ≠ [] := by
  obtain ⟨n, norm, rfl⟩ := List.exists_cons_of_ne_nil hne
  by_cases hbegins : oldLines <+: n :: norm
  · rw [rebuild_found hbegins (.inl rfl)] at h
    obtain ⟨x, -, hx⟩ := Option.map_eq_some_iff.mp h
    cases hx
    exact List.cons_ne_nil _ _
  · cases orig with
    | nil =>
      rw [rebuild, if_neg (by simp [hbegins])] at h
      cases h
    | cons line orig =>
      rw [rebuild_next hbegins] at h
      obtain ⟨x, -, hx⟩ := Option.map_eq_some_iff.mp h
      cases hx
      exact List.cons_ne_nil _ _

theorem flatMap_lines_singleton (blocks : List Block) :
    blocks.flatMap (Block.lines [new]) = blocks.map (Block.text new) := by
  rw [List.map_eq_flatMap]
  congr 1
  funext b
  cases b <;> rfl

theorem rebuild_lineMatches (hf : ∀ l, '\n' ∉ l → '\n' ∉ f l) (hne : lines (mapLines f old) ≠ []) :
    ∃ result, rebuild (lines (mapLines f old)) new true 0 0 (lines (mapLines f content))
        (lines content) = some (result, (lineMatches f content old).length) ∧
      result ++ (lines content).drop (lines (mapLines f content)).length =
        (blocksOf (splitInclusive content) (lineMatches f content old)).map (Block.text new) := by
  have hle := length_lines_mapLines_le hf content
  obtain ⟨result, hresult, hrest⟩ := @rebuild_eq new (lines (mapLines f old)) _ _ hle 0 0 0
  refine ⟨result, ?_, ?_⟩
  · rw [hresult, Nat.zero_add]
    unfold lineMatches occurrences
    rw [List.length_map]
  · have hranges : (lineMatches f content old).map (fun block => (block.1, block.2 + 1)) =
        (scan (lines (mapLines f old)) 0 0 (lines (mapLines f content))).map
          fun i => (i, i + (lines (mapLines f old)).length) := by
      have hpos := List.length_pos_iff.mpr hne
      unfold lineMatches occurrences
      rw [List.map_map]
      refine List.map_congr_left fun i _ => ?_
      have : i + (lines (mapLines f old)).length - 1 + 1 = i + (lines (mapLines f old)).length := by
        omega
      exact congrArg (Prod.mk i) this
    have hsplice := @spliceAll_scan _ _ _ _ [new] (lines (mapLines f content)) hne [] _ hle
    rw [List.nil_append, List.nil_append, List.length_nil, ← hranges,
      spliceAll_lines [new] (linesApart_lineMatches hf hne), flatMap_lines_singleton] at hsplice
    rw [hrest, hsplice]

/-- The error for more than one match. -/
def multipleMatches (strategy : MatchStrategy) (count : ℕ) : SkillError :=
  .invalidManifest ("Multiple matches (" ++ toString count ++ ") via " ++ strategy.name ++
    " — set replace_all=true or provide more context")

theorem tryNormalizedReplace_eq (hf : ∀ l, '\n' ∉ l → '\n' ∉ f l) (strategy : MatchStrategy)
    (hmatch : LinesMatch f content old) : ∃ result,
      rebuild (lines (mapLines f old)) new true 0 0 (lines (mapLines f content)) (lines content) =
        some (result, (lineMatches f content old).length) ∧
      tryNormalizedReplace content (mapLines f content) (mapLines f old) new replaceAll strategy =
        if 1 < (lineMatches f content old).length ∧ replaceAll = false then
          some (.error (multipleMatches strategy (lineMatches f content old).length))
        else some (.ok (some ⟨String.ofList (unlines result), (lineMatches f content old).length,
          strategy⟩)) := by
  obtain ⟨hmem, hne, hmatches⟩ := hmatch
  obtain ⟨result, hresult, -⟩ := @rebuild_lineMatches f content old new hf hne
  have hcount : (occurrences (lines (mapLines f old)) (lines (mapLines f content))).length =
      (lineMatches f content old).length := (List.length_map _).symm
  refine ⟨result, hresult, ?_⟩
  unfold tryNormalizedReplace
  rw [if_neg (not_not.mpr hmem)]
  dsimp only
  rw [if_neg hne, hcount, if_neg (mt List.length_eq_zero_iff.mp hmatches)]
  by_cases hmany : 1 < (lineMatches f content old).length ∧ replaceAll = false
  · rw [if_pos hmany, if_pos hmany]
    rfl
  · rw [if_neg hmany, if_neg hmany]
    have hall : rebuild (lines (mapLines f old)) new replaceAll 0 0 (lines (mapLines f content))
        (lines content) = some (result, (lineMatches f content old).length) := by
      cases replaceAll with
      | true => exact hresult
      | false =>
        have hone : (lineMatches f content old).length ≤ 1 :=
          Nat.not_lt.mp fun hlt => hmany ⟨hlt, rfl⟩
        rw [← hcount] at hone
        exact (rebuild_once (length_lines_mapLines_le hf content) ((Nat.zero_add _).le.trans
          hone)).trans hresult
    rw [hall]
    rfl

theorem tryNormalizedReplace_none (strategy : MatchStrategy) (hmatch : ¬ LinesMatch f content old) :
    tryNormalizedReplace content (mapLines f content) (mapLines f old) new replaceAll strategy =
      some (.ok none) := by
  unfold tryNormalizedReplace
  by_cases hmem : mapLines f old <:+: mapLines f content
  · rw [if_neg (not_not.mpr hmem)]
    dsimp only
    by_cases hne : lines (mapLines f old) = []
    · rw [if_pos hne]
    · have hnil : lineMatches f content old = [] := by
        by_contra hmatches
        exact hmatch ⟨hmem, hne, hmatches⟩
      rw [if_neg hne, if_pos (List.length_eq_zero_iff.mpr (List.map_eq_nil_iff.mp hnil))]
  · rw [if_pos hmem]

/-- **Line by line**: what is replaced is what matched exactly when all other lines can be kept. -/
theorem tryNormalizedReplace_ok (hf : ∀ l, '\n' ∉ l → '\n' ∉ f l) {strategy : MatchStrategy}
    (hmatch : LinesMatch f content old)
    (h : tryNormalizedReplace content (mapLines f content) (mapLines f old) new replaceAll strategy =
      some (.ok (some r))) :
    r.strategy = strategy ∧ (Replaces ((lineMatches f content old).map (lineRegion content)) content
      new replaceAll r ↔ KeepsLines f content old) := by
  have hne := hmatch.2.1
  obtain ⟨result, hresult, heq⟩ :=
    @tryNormalizedReplace_eq f content old new replaceAll hf strategy hmatch
  obtain ⟨result', hresult', hrest⟩ := @rebuild_lineMatches f content old new hf hne
  obtain rfl : result = result' := by
    rw [hresult] at hresult'
    exact (Prod.mk.inj (Option.some.inj hresult')).1
  rw [heq] at h
  by_cases hmany : 1 < (lineMatches f content old).length ∧ replaceAll = false
  · rw [if_pos hmany] at h
    cases h
  rw [if_neg hmany] at h
  have hr := Option.some.inj (Except.ok.inj (Option.some.inj h))
  have happly := @linesApart_lineMatches f content old hf hne
  have hended := ended_blocksOf happly
  refine ⟨by rw [← hr], ?_⟩
  rw [replaces_lines_iff happly (by rw [← hr]), ← hr, String.toList_ofList]
  · unfold KeepsLines
    have hlength := length_lines_mapLines hf content
    by_cases hblank : (lines content).getLast?.map f = some []
    · -- the last line is lost: too few characters are left
      refine iff_of_false (fun htext => ?_) fun hkeep => hkeep.1 hblank
      have hnorm : lines (mapLines f content) ≠ [] := by
        intro hnil
        refine hmatch.2.2 ?_
        unfold lineMatches
        rw [hnil]
        rfl
      have hlost : (lines content).drop (lines (mapLines f content)).length ≠ [] := by
        rw [if_pos hblank] at hlength
        exact fun hnil => absurd (List.drop_eq_nil_iff.mp hnil) (by omega)
      have hjoined := congrArg List.length (unlines_append (rebuild_ne_nil hnorm hresult) hlost)
      have hle := @length_unlines_le new new _ le_rfl hended
      rw [← hrest, hjoined, ← htext, List.length_append, List.length_cons] at hle
      omega
    · have hall : (lines content).drop (lines (mapLines f content)).length = [] := by
        rw [if_neg hblank] at hlength
        exact List.drop_eq_nil_iff.mpr (by omega)
      rw [hall, List.append_nil] at hrest
      rw [hrest, unlines_eq_iff le_rfl hended]
      exact ⟨fun hkeep => ⟨hblank, hkeep.1⟩, fun hkeep => ⟨hkeep.2, fun _ _ => rfl⟩⟩
  · intro hall
    have hpos := List.length_pos_iff.mpr hmatch.2.2
    exact le_antisymm (Nat.not_lt.mp fun hlt => hmany ⟨hlt, hall⟩) hpos

end Lines

end LibreFang.Skills
